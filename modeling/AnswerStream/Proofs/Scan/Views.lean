import AnswerStream.Proofs.Scan.TapeRun
import AnswerStream.Proofs.Text.Lines
import AnswerStream.Proofs.Text.Trim

/-!
# Where a cursor stands in the lines of its text

Whether a block starts, how a fence ends and what a list is are decided by lines: by what a cursor
has of its line before it and after it, by the line that follows, and by whether a line starts at
the cursor.  None of these views is cut from the lines of the text, for a scan does not cut its text
into lines.  Each looks for a newline near the cursor, and each has to treat a cursor that stands on
a newline in a way of its own.  So it has to be shown that they fit together.

## Two ways to look

A `Context` walks away from the cursor in both directions.  A program that has its text in an array
looks for the place of a newline, goes one further, and slices.  `Views.at?` looks this way, and a
slice that starts past the end has no result.  Going one further never leaves the text, and both
ways see the same (`Context.at?_views`).

## Which line a place lies in

`LiesIn` counts: before a line stand the lines above it, each with the newline that ends it.  So a
newline lies in the line it ends, and no place lies in two lines (`LiesIn.unique`).  Around a cursor
the text falls into the lines above, its own line and the lines below (`Context.exists_lines`), and
every view is read off there (`Context.exists_agree`).  `Context.views_agree` puts both together
for all places of all texts.
-/

namespace AnswerStream
namespace Scan

open Text

/-! ## The line of a place -/

/-- The place where line `k` starts, after the lines before it and their newlines. -/
def lineStart (lines : List (List Char)) (k : Nat) : Nat :=
  ((lines.take k).flatMap (· ++ ['\n'])).length

/-- Place `i` lies in line `k`, or on the newline that ends it. -/
structure LiesIn (lines : List (List Char)) (i k : Nat) : Prop where
  /-- The line starts there or before. -/
  start_le : lineStart lines k ≤ i
  /-- The next line starts after it. -/
  lt_next : i < lineStart lines (k + 1)

theorem lineStart_le_succ (lines : List (List Char)) (k : Nat) :
    lineStart lines k ≤ lineStart lines (k + 1) := by
  rw [lineStart, lineStart, List.take_add_one, List.flatMap_append, List.length_append]
  exact Nat.le_add_right ..

theorem lineStart_mono (lines : List (List Char)) {j k : Nat} (h : j ≤ k) :
    lineStart lines j ≤ lineStart lines k := by
  induction h with
  | refl => exact Nat.le_refl _
  | step _ ih => exact Nat.le_trans ih (lineStart_le_succ lines _)

/-- A place lies in one line at most. -/
theorem LiesIn.unique {lines : List (List Char)} {i j k : Nat} (hj : LiesIn lines i j)
    (hk : LiesIn lines i k) : j = k := by
  have hle : ∀ {a b : Nat}, LiesIn lines i a → LiesIn lines i b → a ≤ b := by
    intro a b ha hb
    -- a line that comes later would start after the place
    refine Nat.le_of_not_lt fun hlt => ?_
    have hmono := lineStart_mono lines (Nat.add_one_le_of_lt hlt)
    have hstart := ha.start_le
    have hnext := hb.lt_next
    omega
  exact Nat.le_antisymm (hle hj hk) (hle hk hj)

/-- The start of the line that stands between the lines `above` and `below`. -/
theorem lineStart_append (above : List (List Char)) (line : List Char)
    (below : List (List Char)) :
    lineStart (above ++ line :: below) above.length = (above.flatMap (· ++ ['\n'])).length ∧
      lineStart (above ++ line :: below) (above.length + 1) =
        (above.flatMap (· ++ ['\n'])).length + (line.length + 1) := by
  constructor
  · rw [lineStart, List.take_left]
  · have hsplit : above ++ line :: below = (above ++ [line]) ++ below := by simp
    have hlength : above.length + 1 = (above ++ [line]).length := by simp
    rw [lineStart, hsplit, hlength, List.take_left, List.flatMap_append, List.length_append]
    simp

namespace Context

variable (c : Context)

/-! ## The lines around a cursor -/

theorem isLine_linePrefix : IsLine c.linePrefix := by
  intro hmem
  have hall := List.all_eq_true.1 (List.all_takeWhile (p := (· ≠ '\n')) (l := c.before))
  simpa using hall '\n' (List.mem_reverse.1 hmem)

/-- What stands before the cursor is the beginning of its line, after the newline of the line
before if there is one. -/
theorem before_cases :
    c.before.reverse = c.linePrefix ∨
      ∃ earlier : List Char, c.before.reverse = earlier ++ '\n' :: c.linePrefix := by
  have hcut := List.takeWhile_append_dropWhile (p := (· ≠ '\n')) (l := c.before)
  have hhead := List.head?_dropWhile_not (· ≠ '\n') c.before
  cases hrest : c.before.dropWhile (· ≠ '\n') with
  | nil =>
    left
    rw [hrest, List.append_nil] at hcut
    rw [linePrefix, hcut]
  | cons d earlier =>
    right
    rw [hrest] at hcut hhead
    have hd : d = '\n' := by simpa using hhead
    refine ⟨earlier.reverse, ?_⟩
    rw [← hcut, hd, linePrefix]
    simp

/-- The line of the cursor begins with what stands before it, and ends with the rest of the line. -/
theorem splitOn_line_append :
    splitOn '\n' (c.linePrefix ++ c.ch :: c.after) = (c.linePrefix ++ c.restOfLine) ::
      (match (c.ch :: c.after).dropWhile (· ≠ '\n') with
        | [] => []
        | _ :: rest => splitOn '\n' rest) := by
  rw [splitOn_eq_takeWhile_cons, List.takeWhile_append_of_pos c.isLine_linePrefix.all_ne,
    List.dropWhile_append_of_pos c.isLine_linePrefix.all_ne]
  rfl

/-- **The cursor stands between the lines above its own and the lines below.**  The line that
follows is the first of those. -/
theorem exists_lines : ∃ above below,
    splitOn '\n' (c.before.reverse ++ c.ch :: c.after) =
        above ++ (c.linePrefix ++ c.restOfLine) :: below ∧
      c.before.reverse = above.flatMap (· ++ ['\n']) ++ c.linePrefix ∧
      c.followingLine = below.head? := by
  -- the line of the cursor and those below it come from the text after the last newline before it
  obtain ⟨below, hline, hbelow⟩ : ∃ below,
      splitOn '\n' (c.linePrefix ++ c.ch :: c.after) =
          (c.linePrefix ++ c.restOfLine) :: below ∧ c.followingLine = below.head? := by
    refine ⟨_, c.splitOn_line_append, ?_⟩
    rw [followingLine]
    cases (c.ch :: c.after).dropWhile (· ≠ '\n') with
    | nil => rfl
    | cons d rest =>
      simp only
      rw [splitOn_eq_takeWhile_cons rest]
      rfl
  rcases c.before_cases with hbefore | ⟨earlier, hbefore⟩
  · -- it is the first line
    refine ⟨[], below, ?_, hbefore, hbelow⟩
    rw [hbefore, hline, List.nil_append]
  · refine ⟨splitOn '\n' earlier, below, ?_, ?_, hbelow⟩
    · rw [hbefore, List.append_assoc, List.cons_append, splitOn_append, hline]
    · rw [hbefore, flatMap_splitOn, List.append_assoc]
      rfl

/-- A line starts at the cursor if nothing of it stands before. -/
theorem atLineStart_iff_linePrefix : c.atLineStart = true ↔ c.linePrefix = [] := by
  rw [atLineStart, prev, linePrefix, List.reverse_eq_nil_iff]
  cases c.before with
  | nil => simp
  | cons d before =>
    by_cases hd : d = '\n' <;> simp [hd]

end Context

/-! ## Views -/

/-- What a cursor sees of its text. -/
structure Views where
  /-- The line of the cursor before it. -/
  linePrefix : List Char
  /-- The line of the cursor from it on. -/
  restOfLine : List Char
  /-- The line after that of the cursor, if there is one. -/
  followingLine : Option (List Char)
  /-- Whether a line starts at the cursor. -/
  atLineStart : Bool
  /-- Which texts the text from the cursor on starts with. -/
  startsWith : List Char → Bool

/-- What is seen by walking away from the cursor. -/
def Context.views (c : Context) : Views where
  linePrefix := c.linePrefix
  restOfLine := c.restOfLine
  followingLine := c.followingLine
  atLineStart := c.atLineStart
  startsWith := c.startsWith

/-- The views from place `i` of the text `cs`, which lies in its line `k`, are what the lines of
the text show there. -/
structure Views.Agree (v : Views) (cs : List Char) (i k : Nat) : Prop where
  /-- The two parts of the line make it up. -/
  line : (splitOn '\n' cs)[k]? = some (v.linePrefix ++ v.restOfLine)
  /-- They meet at the cursor. -/
  column : i = lineStart (splitOn '\n' cs) k + v.linePrefix.length
  /-- The following line is the next one. -/
  following : v.followingLine = (splitOn '\n' cs)[k + 1]?
  /-- A line starts where nothing of it stands before. -/
  atLineStart : v.atLineStart = true ↔ v.linePrefix = []
  /-- The text from the cursor on starts with what it is seen to start with. -/
  startsWith (pat : List Char) : v.startsWith pat = true ↔ pat <+: cs.drop i

/-- The views of a cursor agree with the lines of its text, and the cursor stands in the line
they show. -/
theorem Context.exists_agree (c : Context) :
    ∃ k, LiesIn (splitOn '\n' (c.before.reverse ++ c.ch :: c.after)) c.before.length k ∧
      c.views.Agree (c.before.reverse ++ c.ch :: c.after) c.before.length k := by
  obtain ⟨above, below, hlines, hbefore, hfollowing⟩ := c.exists_lines
  obtain ⟨hstart, hnext⟩ := lineStart_append above (c.linePrefix ++ c.restOfLine) below
  have hplace : c.before.length =
      (above.flatMap (· ++ ['\n'])).length + c.linePrefix.length := by
    rw [← List.length_reverse, hbefore, List.length_append]
  refine ⟨above.length, ⟨?_, ?_⟩, ?_, ?_, ?_, c.atLineStart_iff_linePrefix, fun pat => ?_⟩
  · rw [hlines, hstart]
    omega
  · rw [hlines, hnext, List.length_append]
    omega
  · rw [hlines]
    simp [Context.views]
  · rw [hlines, hstart]
    exact hplace
  · rw [hlines, List.getElem?_append_right (Nat.le_add_right ..)]
    simp [Context.views, hfollowing, List.head?_eq_getElem?]
  · have hdrop : (c.before.reverse ++ c.ch :: c.after).drop c.before.reverse.length =
        c.ch :: c.after := List.drop_left
    rw [← List.length_reverse, hdrop]
    exact List.isPrefixOf_iff_prefix

/-! ## Views by places -/

/-- A text from place `i` on, unless that is past its end. -/
def suffix? (cs : List Char) (i : Nat) : Option (List Char) :=
  if i ≤ cs.length then some (cs.drop i) else none

/-- The place of the last `d` in a text. -/
def lastIdxOf? (d : Char) : List Char → Option Nat
  | [] => none
  | c :: cs =>
    match lastIdxOf? d cs with
    | some i => some (i + 1)
    | none => if c = d then some 0 else none

namespace Views

/-- The place after the last newline: where the line starts that a text ends in. -/
def currentLine (before : List Char) : Nat :=
  match lastIdxOf? '\n' before with
  | some i => i + 1
  | none => 0

/-- The place after the next newline, for a cursor on `ch`: where the next line starts. -/
def nextLine? (ch : Char) (after : List Char) : Option Nat :=
  if ch = '\n' then some 0 else (after.idxOf? '\n').map (· + 1)

/-- The line after that of a cursor on `ch`.  There has to be text from where it starts. -/
def following? (ch : Char) (after : List Char) : Option (Option (List Char)) :=
  match nextLine? ch after with
  | none => some none
  | some i => (suffix? after i).map fun cs => some (cs.takeWhile (· ≠ '\n'))

/-- Whether a text that starts with `ch` goes on as `pat` does. -/
def found (ch : Char) (after : List Char) : List Char → Bool
  | [] => true
  | p :: pat => p = ch && pat.zipIdx.all fun q => after[q.2]? == some q.1

/-- The views from place `i` of a text. -/
def at? (cs : List Char) (i : Nat) : Option Views := do
  let ch ← cs[i]?
  let prev ← preceding? cs i
  let before ← slice? cs 0 i
  let after ← suffix? cs (i + 1)
  let linePrefix ← suffix? before (currentLine before)
  let followingLine ← following? ch after
  return {
    linePrefix
    restOfLine := if ch = '\n' then [] else ch :: after.takeWhile (· ≠ '\n')
    followingLine
    atLineStart := prev = none ∨ prev = some '\n'
    startsWith := found ch after }

end Views

theorem suffix?_append (as bs : List Char) : suffix? (as ++ bs) as.length = some bs := by
  rw [suffix?, if_pos (by simp), List.drop_left]

theorem lastIdxOf?_eq_none {d : Char} {cs : List Char} (h : d ∉ cs) : lastIdxOf? d cs = none := by
  induction cs with
  | nil => rfl
  | cons c cs ih =>
    rw [List.mem_cons, not_or] at h
    rw [lastIdxOf?, ih h.2]
    exact if_neg (Ne.symm h.1)

/-- The last newline is the one that only a line follows. -/
theorem lastIdxOf?_append {d : Char} {line : List Char} (h : d ∉ line) (earlier : List Char) :
    lastIdxOf? d (earlier ++ d :: line) = some earlier.length := by
  induction earlier with
  | nil => rw [List.nil_append, lastIdxOf?, lastIdxOf?_eq_none h]; simp
  | cons c earlier ih => rw [List.cons_append, lastIdxOf?, ih]; rfl

/-- A slice from after the last newline is what of its line the cursor has before it. -/
theorem Context.suffix?_currentLine (c : Context) :
    suffix? c.before.reverse (Views.currentLine c.before.reverse) = some c.linePrefix := by
  have hline := c.isLine_linePrefix
  unfold Views.currentLine
  rcases c.before_cases with hbefore | ⟨earlier, hbefore⟩
  · rw [hbefore, lastIdxOf?_eq_none hline]
    exact suffix?_append [] c.linePrefix
  · rw [hbefore, lastIdxOf?_append hline]
    have hcut := suffix?_append (earlier ++ ['\n']) c.linePrefix
    simpa using hcut

/-- On a newline nothing is left of the line, not even the newline. -/
theorem Context.restOfLine_eq (c : Context) :
    c.restOfLine = if c.ch = '\n' then [] else c.ch :: c.after.takeWhile (· ≠ '\n') := by
  split
  · exact c.restOfLine_of_newline ‹_›
  · rename_i hch
    rw [restOfLine, List.takeWhile_cons_of_pos (by simpa using hch)]

/-- The line after that of a cursor that stands before a newline. -/
theorem following?_of_ne {ch : Char} (hch : ch ≠ '\n') {line : List Char} (hline : IsLine line)
    (rest : List Char) :
    Views.following? ch line = some none ∧
      Views.following? ch (line ++ '\n' :: rest) = some (some (rest.takeWhile (· ≠ '\n'))) := by
  have hnone : line.idxOf? '\n' = none := List.idxOf?_eq_none_iff.2 hline
  have hsome : (line ++ '\n' :: rest).idxOf? '\n' = some line.length := by
    rw [List.idxOf?, List.findIdx?_append, ← List.idxOf?, hnone]
    simp [List.idxOf?_cons]
  have hcut : suffix? (line ++ '\n' :: rest) (line.length + 1) = some rest := by
    simpa using suffix?_append (line ++ ['\n']) rest
  constructor
  · rw [Views.following?, Views.nextLine?, if_neg hch, hnone]
    rfl
  · rw [Views.following?, Views.nextLine?, if_neg hch, hsome, Option.map_some]
    simp only
    rw [hcut]
    rfl

/-- A slice from after the next newline has the following line. -/
theorem Context.following?_eq (c : Context) :
    Views.following? c.ch c.after = some c.followingLine := by
  by_cases hch : c.ch = '\n'
  · rw [c.followingLine_of_newline hch, Views.following?, Views.nextLine?, if_pos hch]
    have hcut : suffix? c.after 0 = some c.after := suffix?_append [] c.after
    simp only
    rw [hcut]
    rfl
  · have hdrop : (c.ch :: c.after).dropWhile (· ≠ '\n') = c.after.dropWhile (· ≠ '\n') :=
      List.dropWhile_cons_of_pos (by simpa using hch)
    obtain ⟨line, rest, hafter, hline, hrest⟩ := exists_span (· ≠ '\n') c.after
    have hisLine : IsLine line := fun hmem => by simpa using hline '\n' hmem
    rw [followingLine, hdrop, hafter, dropWhile_append_eq hline hrest]
    cases rest with
    | nil =>
      rw [List.append_nil]
      exact (following?_of_ne hch hisLine []).1
    | cons d rest =>
      have hd : d = '\n' := by simpa using hrest d rfl
      rw [hd]
      exact (following?_of_ne hch hisLine rest).2

/-- To compare at every place is to compare from the front. -/
theorem all_zipIdx_eq_isPrefixOf (cs pat : List Char) (n : Nat) :
    ((pat.zipIdx n).all fun q => cs[q.2]? == some q.1) = pat.isPrefixOf (cs.drop n) := by
  induction pat generalizing n with
  | nil => rfl
  | cons p pat ih =>
    rw [List.zipIdx_cons, List.all_cons, ih, ← List.head?_drop, ← List.tail_drop]
    cases cs.drop n with
    | nil => rfl
    | cons d ds => simp [List.isPrefixOf, BEq.comm]

/-- Comparing the character under the cursor and then those at the places after it. -/
theorem Context.startsWith_eq (c : Context) : c.startsWith = Views.found c.ch c.after := by
  funext pat
  cases pat with
  | nil => exact c.startsWith_nil
  | cons p pat =>
    rw [Views.found, all_zipIdx_eq_isPrefixOf, List.drop_zero]
    rfl

theorem Context.atLineStart_eq (c : Context) :
    c.atLineStart = decide (c.before.head? = none ∨ c.before.head? = some '\n') := by
  rw [atLineStart, prev]
  cases c.before.head? with
  | none => rfl
  | some d => by_cases hd : d = '\n' <;> simp [hd]

/-- **Looking by places never leaves the text, and sees what walking sees.** -/
theorem Context.at?_views (c : Context) :
    Views.at? (c.before.reverse ++ c.ch :: c.after) c.before.length = some c.views := by
  have hch : (c.before.reverse ++ c.ch :: c.after)[c.before.length]? = some c.ch := by
    rw [List.getElem?_append_right (by simp), List.length_reverse, Nat.sub_self]
    rfl
  have hbefore : slice? (c.before.reverse ++ c.ch :: c.after) 0 c.before.length =
      some c.before.reverse := by
    have hslice := slice?_append [] c.before.reverse (c.ch :: c.after)
    rwa [List.length_reverse] at hslice
  have hafter : suffix? (c.before.reverse ++ c.ch :: c.after) (c.before.length + 1) =
      some c.after := by
    have hcut := suffix?_append (c.before.reverse ++ [c.ch]) c.after
    simpa using hcut
  rw [Views.at?, hch, preceding?_append, hbefore, hafter]
  simp only [Option.bind_eq_bind, Option.bind_some]
  rw [c.suffix?_currentLine, c.following?_eq, ← c.restOfLine_eq, ← c.startsWith_eq,
    ← c.atLineStart_eq]
  rfl

/-! ## Every place of every text -/

/-- A place in a text is that of a cursor. -/
theorem Context.exists_at? {cs : List Char} {i : Nat} (h : i < cs.length) :
    ∃ c : Context, Context.at? cs i = some c ∧ c.before.reverse ++ c.ch :: c.after = cs ∧
      c.before.length = i := by
  refine ⟨{ before := (cs.take i).reverse, ch := cs[i], after := cs.drop (i + 1) }, ?_, ?_, ?_⟩
  · rw [Context.at?, List.drop_eq_getElem_cons h]
  · simp
  · simp only [List.length_reverse, List.length_take]
    omega

/-- **What a cursor sees agrees with the lines of its text, wherever it stands.**  Every place of a
text lies in exactly one line; looking from there, by walking or by places, has a result; and it
shows that line, cut at the cursor, the line that follows it, whether a line starts at the cursor,
and which texts stand there. -/
theorem Context.views_agree (cs : List Char) (i : Nat) (h : i < cs.length) :
    ∃ c k, Context.at? cs i = some c ∧ Views.at? cs i = some c.views ∧
      LiesIn (splitOn '\n' cs) i k ∧ (∀ j, LiesIn (splitOn '\n' cs) i j → j = k) ∧
      c.views.Agree cs i k := by
  obtain ⟨c, hc, rfl, rfl⟩ := Context.exists_at? h
  obtain ⟨k, hk, hagree⟩ := c.exists_agree
  exact ⟨c, k, hc, c.at?_views, hk, fun j hj => hj.unique hk, hagree⟩

/-- On the newline of an empty line. -/
theorem views_agree_empty_line : 2 < ['a', '\n', '\n', 'b'].length ∧
    ∃ c k, Context.at? ['a', '\n', '\n', 'b'] 2 = some c ∧
      Views.at? ['a', '\n', '\n', 'b'] 2 = some c.views ∧
      LiesIn (splitOn '\n' ['a', '\n', '\n', 'b']) 2 k ∧
      (∀ j, LiesIn (splitOn '\n' ['a', '\n', '\n', 'b']) 2 j → j = k) ∧
      c.views.Agree ['a', '\n', '\n', 'b'] 2 k :=
  ⟨by decide, Context.views_agree _ 2 (by decide)⟩

end Scan
end AnswerStream
