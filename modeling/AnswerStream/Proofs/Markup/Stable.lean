import AnswerStream.Proofs.Markup.PageRun
import AnswerStream.Proofs.Markup.Prepare

/-!
# What is rendered stays rendered

While an answer streams in, all of it so far is rendered again for each new part.  Once a
blank line has ended a block, its markup does not change any more: what is shown of the
text before the blank line is the beginning of what is shown later
(`render_prefix_of_blank_line`).

## Why

A page only ever adds to its markup (`begins_finish_scan`), so it is enough to compare where
the text ends with where the blank line has been read.  A text that ends finishes its last
line on the way out of its region, and in a longer text the line is finished inside the
region, which is left at the empty line after it.  Only two tokens are written in different
ways then: a fence, whose body goes on, and a blank line of a quote, which shows a break if
the quote is not left.

Where a line starts only the line and the one after it are looked at, and the one after it
matters for tables only, in which an empty line is as good as none (`line_none`).
-/

namespace AnswerStream
namespace Markup

open Text Scan

namespace Block

variable (code : String → String → String)

/-! ## A page only adds to its markup -/

/-- One text is the beginning of another. -/
def Begins (a b : String) : Prop := a.toList <+: b.toList

namespace Begins

theorem refl (a : String) : Begins a a := List.prefix_refl _

theorem trans {a b c : String} (hab : Begins a b) (hbc : Begins b c) : Begins a c :=
  List.IsPrefix.trans hab hbc

theorem append (a b : String) : Begins a (a ++ b) := by
  unfold Begins
  rw [String.toList_append]
  exact List.prefix_append _ _

theorem append_left {b c : String} (h : Begins b c) (a : String) : Begins (a ++ b) (a ++ c) := by
  unfold Begins
  rw [String.toList_append, String.toList_append]
  exact List.prefix_append_right_inj _ |>.2 h

end Begins

/-- The content of a region that is open, after the text that opens it. -/
def opened (s : State) (content : String) : String :=
  if content = "" then "" else (rules code s).entry ++ content

namespace Page

/-- What a page has written. -/
def soFar (pg : Page) : String := pg.done ++ opened code pg.state pg.content

/-- What is written after the content of a region is written after what was written so far. -/
theorem begins_opened (s : State) (content more : String) :
    Begins (opened code s content) (opened code s (content ++ more)) := by
  unfold opened
  by_cases hcontent : content = ""
  · rw [if_pos hcontent]
    exact List.nil_prefix
  · have hne : content ++ more ≠ "" := by simp [hcontent]
    rw [if_neg hcontent, if_neg hne, ← String.append_assoc]
    exact .append _ _

theorem begins_write (pg : Page) (s : State) : Begins (pg.soFar code) ((pg.write code s).soFar code) :=
  (begins_opened code _ _ _).append_left _

/-- A region that is closed is what was open, and more. -/
theorem begins_closed (pg : Page) : Begins (pg.soFar code) (pg.closed code) := by
  refine .append_left ?_ _
  unfold opened Table.wrap
  dsimp only
  split
  · exact .refl _
  · exact .append _ _

theorem begins_finish (pg : Page) : Begins (pg.soFar code) (pg.finish code) :=
  (begins_write code pg .paragraph).trans (begins_closed code _)

/-- A region that has been entered shows nothing. -/
theorem soFar_move (pg : Page) (s : State) :
    (pg.move code s).soFar code = (pg.write code s).closed code := by
  have hmove : (pg.move code s).soFar code = (pg.write code s).closed code ++ "" := rfl
  rw [hmove, String.append_empty]

/-- Nothing closes a paragraph. -/
theorem soFar_paragraph {pg : Page} (hs : pg.state = .paragraph) :
    pg.soFar code = pg.closed code := by
  obtain ⟨done, state, content, token⟩ := pg
  cases hs
  show done ++ (if content = "" then "" else "" ++ content) =
    done ++ (if content = "" then "" else "" ++ content ++ "")
  simp

theorem begins_move (pg : Page) (s : State) :
    Begins (pg.soFar code) ((pg.move code s).soFar code) := by
  rw [soFar_move]
  exact (begins_write code pg s).trans (begins_closed code _)

theorem begins_settle (l : List Char) (following : Option (List Char)) (hops : Nat) (pg : Page) :
    Begins (pg.soFar code) ((pg.settle code l following hops).soFar code) := by
  induction hops generalizing pg with
  | zero =>
    unfold settle
    split
    · exact .refl _
    · exact begins_move code pg _
    · exact .refl _
  | succ hops ih =>
    unfold settle
    split
    · exact .refl _
    · exact begins_move code pg _
    · exact (begins_move code pg _).trans (ih _)

theorem begins_line (l : List Char) (following : Option (List Char)) (pg : Page) :
    Begins (pg.soFar code) ((pg.line code l following).soFar code) := by
  unfold line
  split
  · split
    · exact begins_move code pg _
    · exact .refl _
  · exact begins_settle code l following hopLimit pg

theorem begins_endLine (pg : Page) : Begins (pg.soFar code) ((pg.endLine code).soFar code) := by
  unfold endLine
  split
  · exact begins_move code pg _
  · exact begins_move code pg _
  · exact .refl _
  · exact begins_write code pg _

/-- **What a page has written is the beginning of what it shows in the end.** -/
theorem begins_finish_scan (pg : Page) (lines : List (List Char)) :
    Begins (pg.soFar code) ((pg.scan code lines).finish code) := by
  induction lines generalizing pg with
  | nil => exact begins_finish code pg
  | cons l lines ih =>
    cases lines with
    | nil =>
      rw [scan]
      split
      · exact begins_finish code pg
      · exact (begins_line code l none pg).trans (begins_finish code _)
    | cons l' lines =>
      rw [scan]
      exact ((begins_line code l _ pg).trans (begins_endLine code _)).trans (ih _)

end Page

/-! ## An empty line after a line -/

/-- No shape tells an empty line after a line from the end of the text. -/
theorem nextState_of_none (l : List Char) (s : State) :
    nextState l none s = nextState l (some []) s := rfl

/-- An empty line after a line is as good as none. -/
theorem line_none (l : List Char) (pg : Page) : pg.line code l none = pg.line code l (some []) := by
  have hsettle : ∀ hops (pg : Page),
      pg.settle code l none hops = pg.settle code l (some []) hops := by
    intro hops
    induction hops with
    | zero =>
      intro pg
      unfold Page.settle
      rw [nextState_of_none]
    | succ hops ih =>
      intro pg
      unfold Page.settle
      rw [nextState_of_none]
      split
      · rfl
      · rfl
      · exact ih _
  rw [Page.line, Page.line, hsettle]

/-! ## Where the scan settles -/

/-- A region that is entered at a line goes on with it. -/
theorem goesOn_of_nextState {l : List Char} {following : Option (List Char)} {s : State}
    {s' : Shape} (h : nextState l following s = some (.block s')) (hregion : isRegion s' = true) :
    goesOn l s' = true := by
  have hfits : s'.fits l following = true := by
    have hother : ∀ current, otherShape l following current = some s' →
        s'.fits l following = true := fun current hs => List.find?_some hs
    cases s with
    | paragraph =>
      obtain ⟨s₂, hs₂, heq⟩ := Option.map_eq_some_iff.1 h
      cases heq
      exact hother _ hs₂
    | block s =>
      rw [nextState] at h
      split at h
      · split at h
        · rename_i hs₂
          cases h
          exact hother _ hs₂
        · split at h <;> cases h
      · cases h
  cases s' with
  | quote | ordered | unordered => exact hfits
  | table => exact (Bool.and_eq_true_iff.1 hfits).1
  | fence | heading | rule => cases hregion

/-- A region that is not left at a line goes on with it. -/
theorem goesOn_of_stays {l : List Char} {following : Option (List Char)} {s : Shape}
    (h : nextState l following (.block s) = none) (hregion : isRegion s = true) :
    goesOn l s = true := by
  rw [nextState_region hregion] at h
  split at h
  · cases h
  · cases hgoes : goesOn l s with
    | true => rfl
    | false =>
      rw [hgoes] at h
      cases h

/-- A region in which the scan settles goes on with the line, also if the hops are spent:
then it was entered at the line. -/
theorem goesOn_of_settle {l : List Char} {following : Option (List Char)} (hops : Nat) (pg : Page)
    (hentered : hops = 0 → ∀ s, pg.state = .block s → isRegion s = true → goesOn l s = true)
    {s : Shape} (hs : (pg.settle code l following hops).state = .block s)
    (hregion : isRegion s = true) : goesOn l s = true := by
  induction hops generalizing pg with
  | zero =>
    cases hnext : nextState l following pg.state with
    | none =>
      rw [settle_of_none code 0 hnext] at hs
      exact hentered rfl s hs hregion
    | some s' =>
      by_cases hfence : s' = .block .fence
      · rw [hfence] at hnext
        rw [settle_of_fence code 0 hnext] at hs
        cases hs
        cases hregion
      · rw [settle_zero code hnext hfence] at hs
        exact hentered rfl s hs hregion
  | succ hops ih =>
    cases hnext : nextState l following pg.state with
    | none =>
      rw [settle_of_none code _ hnext] at hs
      rw [hs] at hnext
      exact goesOn_of_stays hnext hregion
    | some s' =>
      by_cases hfence : s' = .block .fence
      · rw [hfence] at hnext
        rw [settle_of_fence code _ hnext] at hs
        cases hs
        cases hregion
      · rw [settle_succ code hops hnext hfence] at hs
        refine ih (pg.move code s') (fun _ t ht htregion => ?_) hs
        exact goesOn_of_nextState (hnext.trans (congrArg some ht)) htregion

/-! ## Pages where a line starts -/

namespace Page

/-- No token is pending, unless it is that of a fence. -/
def AtStart (pg : Page) : Prop := pg.state ≠ .block .fence → pg.token = ""

theorem atStart_endLine (pg : Page) : (pg.endLine code).AtStart := by
  unfold endLine
  split
  · exact fun _ => rfl
  · exact fun _ => rfl
  · rename_i hfence
    exact fun hne => absurd hfence hne
  · exact fun _ => rfl

theorem token_settle {pg : Page} (h : pg.token = "") (l : List Char)
    (following : Option (List Char)) (hops : Nat) :
    (pg.settle code l following hops).token = "" := by
  induction hops generalizing pg with
  | zero =>
    unfold settle
    split
    · exact h
    · rfl
    · exact h
  | succ hops ih =>
    unfold settle
    split
    · exact h
    · rfl
    · exact ih rfl

/-- The line of a region is its token. -/
theorem line_region {pg : Page} (hstart : pg.AtStart) {l : List Char}
    {following : Option (List Char)} {s : Shape}
    (hs : (pg.line code l following).state = .block s) (hregion : isRegion s = true) :
    (pg.line code l following).token = String.ofList l ∧ goesOn l s = true := by
  by_cases hfence : pg.state = .block .fence
  · rw [line, if_pos hfence] at hs
    split at hs
    · cases hs
    · rw [state_keep, hfence] at hs
      cases hs
      cases hregion
  · rw [line, if_neg hfence] at hs ⊢
    refine ⟨?_, goesOn_of_settle code hopLimit pg (fun h => absurd h (by decide)) hs hregion⟩
    rw [keep, token_settle code (hstart hfence)]
    simp

/-- Up to the last of some lines, it does not matter what comes after it. -/
theorem scan_append (pg : Page) (hstart : pg.AtStart) (before : List (List Char)) (l : List Char) :
    ∃ pg' : Page, pg'.AtStart ∧
      ∀ after, pg.scan code (before ++ l :: after) = pg'.scan code (l :: after) := by
  induction before generalizing pg with
  | nil => exact ⟨pg, hstart, fun _ => rfl⟩
  | cons b before ih =>
    cases before with
    | nil =>
      exact ⟨(pg.line code b (some l)).endLine code, atStart_endLine code _, fun _ => rfl⟩
    | cons b' before =>
      exact ih ((pg.line code b (some b')).endLine code) (atStart_endLine code _)

end Page

/-! ## Where a text ends -/

/-- A line of a region is written in one way, unless it is a blank line of a quote. -/
theorem written_target {s : Shape} (hregion : isRegion s = true) {token : String}
    (hquote : s = .quote → ∃ text, Line.quote? token.toList = some text ∧ allBlank text = false)
    (target target' : State) (fresh : Bool) :
    Progress.written (table code) none
        { text := token, source := .block s, target, before := none, fresh } =
      Progress.written (table code) none
        { text := token, source := .block s, target := target', before := none, fresh } := by
  cases s with
  | fence | heading | rule => cases hregion
  | ordered | unordered | table => rfl
  | quote =>
    obtain ⟨text, htext, hblank⟩ := hquote rfl
    show quoteLine _ = quoteLine _
    simp [quoteLine, htext, hblank, joinedLine]

/-- Nothing is written of a region at the start of a line. -/
theorem write_left {pg : Page} {s : Shape} (hs : pg.state = .block s) (hregion : isRegion s = true)
    (htoken : pg.token = "") (target : State) : pg.write code target = pg := by
  have hwritten : ∀ fresh, Progress.written (table code) none
      { text := "", source := .block s, target, before := none, fresh } = "" := by
    intro fresh
    cases s with
    | fence | heading | rule => cases hregion
    | quote | ordered | unordered | table => rfl
  obtain ⟨done, state, content, token⟩ := pg
  cases hs
  cases htoken
  unfold Page.write Page.tokenTo
  rw [hwritten, String.append_empty]

/-- An empty line where no region is open changes nothing. -/
theorem line_empty_paragraph {pg : Page} (hs : pg.state = .paragraph)
    (following : Option (List Char)) : pg.line code [] following = pg := by
  have hnext : nextState [] following pg.state = none := by
    rw [hs]
    exact nextState_nil following .paragraph
  have hfence : pg.state ≠ .block .fence := by simp [hs]
  rw [Page.line, if_neg hfence, settle_of_none code hopLimit hnext, Page.keep_nil]

/-- An empty line leaves a region. -/
theorem line_empty_region {pg : Page} {s : Shape} (hs : pg.state = .block s)
    (hregion : isRegion s = true) (following : Option (List Char)) :
    pg.line code [] following = pg.move code .paragraph := by
  have hnext : nextState [] following pg.state = some .paragraph := by
    rw [hs, nextState_nil]
    exact if_pos hregion
  have hfence : pg.state ≠ .block .fence := by
    rw [hs]
    rintro ⟨⟩
    cases hregion
  rw [Page.line, if_neg hfence, hopLimit, settle_succ code 15 hnext (by simp),
    settle_of_none code 15 (nextState_nil following .paragraph), Page.keep_nil]

/-- **An empty line ends what a text before it ends with.** -/
theorem soFar_empty_line {pg : Page} (hfence : pg.state ≠ .block .fence)
    (hquote : pg.state = .block .quote →
      ∃ text, Line.quote? pg.token.toList = some text ∧ allBlank text = false)
    (following : Option (List Char)) :
    ((pg.endLine code).line code [] following).soFar code = pg.finish code := by
  have hmoved : pg.endLine code = pg.move code .paragraph →
      ((pg.endLine code).line code [] following).soFar code = pg.finish code := by
    intro hend
    rw [hend, line_empty_paragraph code rfl, Page.soFar_move]
    rfl
  have hregion : ∀ s, pg.state = .block s → isRegion s = true →
      pg.endLine code = pg.write code (.block s) →
      ((pg.endLine code).line code [] following).soFar code = pg.finish code := by
    intro s hs hregion hend
    have hwrite : pg.write code (.block s) = pg.write code .paragraph := by
      unfold Page.write Page.tokenTo
      rw [hs, written_target code hregion (fun h => hquote (h ▸ hs)) (.block s) .paragraph]
    have hstate : (pg.write code .paragraph).state = .block s := hs
    rw [hend, hwrite, line_empty_region code hstate hregion, Page.soFar_move,
      write_left code hstate hregion rfl .paragraph]
    rfl
  cases hs : pg.state with
  | paragraph =>
    have hend : pg.endLine code = pg.write code .paragraph := by rw [Page.endLine, hs]
    have hstate : (pg.write code .paragraph).state = .paragraph := hs
    rw [hend, line_empty_paragraph code hstate, Page.soFar_paragraph code hstate]
    rfl
  | block s =>
    cases s with
    | fence => exact absurd hs hfence
    | heading | rule => exact hmoved (by rw [Page.endLine, hs])
    | quote | ordered | unordered | table => exact hregion _ hs rfl (by rw [Page.endLine, hs])

/-- **What a text shows is the beginning of what it shows with lines after an empty one.** -/
theorem begins_finish_empty_line (before : List (List Char)) {l : List Char} (hl : l ≠ [])
    (hfence : (Page.scan code {} (before ++ [l])).state ≠ .block .fence)
    (hquote : ∀ text, Line.quote? l = some text → allBlank text = false)
    {after : List (List Char)} (hafter : after ≠ []) :
    Begins ((Page.scan code {} (before ++ [l])).finish code)
      ((Page.scan code {} (before ++ l :: [] :: after)).finish code) := by
  obtain ⟨pg, hstart, hscan⟩ := Page.scan_append code {} (fun _ => rfl) before l
  have hlast : Page.scan code {} (before ++ [l]) = pg.line code l (some []) := by
    rw [hscan, Page.scan, if_neg hl, line_none]
  rw [hlast] at hfence ⊢
  rw [hscan]
  cases after with
  | nil => exact absurd rfl hafter
  | cons l' after =>
    have hquoted : (pg.line code l (some [])).state = .block .quote →
        ∃ text, Line.quote? (pg.line code l (some [])).token.toList = some text ∧
          allBlank text = false := by
      intro hs
      obtain ⟨htoken, hgoes⟩ := Page.line_region code hstart hs rfl
      obtain ⟨text, htext⟩ := Option.isSome_iff_exists.1 hgoes
      exact ⟨text, by rw [htoken, String.toList_ofList, htext], hquote text htext⟩
    rw [← soFar_empty_line code hfence hquoted (some l')]
    exact (Page.begins_endLine code _).trans (Page.begins_finish_scan code _ _)

/-- The state in which the scan of a text ends. -/
def endState (text : String) : State :=
  ((table code).start.scan (table code) [] text.toList 0).current (table code)

theorem endState_eq (text : String) :
    endState code text = (Page.scan code {} (splitOn '\n' text.toList)).state :=
  (shows_scan code text).current_eq code

/-- The last line of a text. -/
def lastLine (text : String) : List Char := ((splitOn '\n' text.toList).getLast?).getD []

end Block

/-! ## Answers -/

/-- **What was rendered before a blank line stays rendered.**  The last line of the text before
it must not belong to a fence and must not be a blank line of a quote; newlines at its end do
not count as lines, because they are dropped before it is scanned. -/
theorem render_prefix_of_blank_line (highlightCode : Bool) {p : String} (q : String)
    (hreturn : p.toList.getLast? ≠ some '\r')
    (hfence : Block.endState (Options.code { typingCursor := false, highlightCode }) (prepare p) ≠
      .block .fence)
    (hquote : ∀ text, Line.quote? (Block.lastLine (prepare p)) = some text →
      allBlank text = false) :
    (render { typingCursor := false, highlightCode } p).toList <+:
      (render { typingCursor := false, highlightCode } (p ++ "\n\n" ++ q)).toList := by
  rw [render, render, if_neg (by simp), if_neg (by simp)]
  rcases prepare_append hreturn q with heq | ⟨after, hafter⟩
  · simp [heq]
  · have hlines : splitOn '\n' (prepare (p ++ "\n\n" ++ q)).toList =
        splitOn '\n' (prepare p).toList ++ [] :: splitOn '\n' after := by
      rw [hafter, splitOn_append, splitOn, if_pos rfl]
    have hlast := List.getLast?_eq_some_getLast (splitOn_ne_nil '\n' (prepare p).toList)
    rw [Block.lastLine, hlast, Option.getD_some] at hquote
    obtain ⟨before, hbefore⟩ := List.getLast?_eq_some_iff.1 hlast
    rw [Block.run_eq_finish, Block.run_eq_finish, hlines]
    by_cases hempty : (prepare p).toList = []
    · rw [hempty]
      exact List.nil_prefix
    · have hl : (splitOn '\n' (prepare p).toList).getLast (splitOn_ne_nil _ _) ≠ [] := by
        intro h
        exact getLast?_splitOn_ne hempty (getLast?_prepare p) (by rw [hlast, h])
      rw [Block.endState_eq, hbefore] at hfence
      rw [hbefore, List.append_assoc]
      exact Block.begins_finish_empty_line _ before hl hfence hquote (splitOn_ne_nil _ _)

/-- A list and a quote, and then a table. -/
theorem render_prefix_quote_table :
    (render { typingCursor := false, highlightCode := true } "1. a\n> b").toList <+:
      (render { typingCursor := false, highlightCode := true }
        ("1. a\n> b" ++ "\n\n" ++ "|c|\n|-|")).toList := by
  refine render_prefix_of_blank_line true "|c|\n|-|" (by decide) (by decide +kernel) ?_
  have hlast : Line.quote? (Block.lastLine (prepare "1. a\n> b")) = some ['b'] := by decide
  intro text htext
  rw [hlast] at htext
  cases htext
  decide

/-- The newlines at the end of a text are no lines.  A quote that ends with a blank line and
then newlines is open, and goes on with what comes after a blank line. -/
theorem not_render_prefix_quote_newlines :
    let p := "> a\n>\n\n"
    let options : Options := { typingCursor := false, highlightCode := true }
    p.toList.getLast? ≠ some '\r' ∧ Block.endState options.code (prepare p) ≠ .block .fence ∧
      (∀ text, Line.quote? (Block.lastLine p) = some text → allBlank text = false) ∧
      ¬ (render options p).toList <+: (render options (p ++ "\n\n" ++ "b")).toList := by
  refine ⟨by decide, by decide +kernel, ?_, by decide +kernel⟩
  have hlast : Line.quote? (Block.lastLine "> a\n>\n\n") = none := by decide
  intro text htext
  rw [hlast] at htext
  cases htext

end Markup
end AnswerStream
