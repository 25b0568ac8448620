import AnswerStream.Markup.Block
import AnswerStream.Proofs.Scan.Invariant
import AnswerStream.Proofs.Text.Lines

/-!
# A scan over blocks, where lines start

The rules of blocks are written for characters, and what they do is done for lines: where
a line starts, the scan moves between states without consuming anything until it stands
in the one that the line belongs to; the line then becomes the token; and its newline
finishes the token.  A `Page` is what a scan is at such a place, and `Page.line` and
`Page.endLine` are what a line and its newline do to it.

## What a page leaves out

Blocks do not nest, so a page has one open region.  A token of a block is written without
regard to the character before it, so a page does not remember that either.

## Cycles

A line may have two shapes that give way to each other: a row of a table that is also a
quote moves the scan from quote to table and back, until the hops at its first character
are spent.  `Page.settle` counts them as the scan does.
-/

namespace AnswerStream
namespace Markup

open Text Scan

namespace Block

/-! ## Pages -/

/-- A scan over blocks where a line starts or ends. -/
structure Page where
  /-- The markup of the regions that are closed. -/
  done : String := ""
  /-- The state of the open region. -/
  state : State := .paragraph
  /-- What was written in it. -/
  content : String := ""
  /-- The line that is being read; of a fence, all its lines so far. -/
  token : String := ""

/-- A block of this shape is a region of lines. -/
def isRegion : Shape → Bool
  | .quote | .unordered | .ordered | .table => true
  | .fence | .heading | .rule => false

/-- Whether a region of shape `s` goes on with a line that starts no other block. -/
def goesOn (line : List Char) : Shape → Bool
  | .quote => (Line.quote? line).isSome
  | .unordered => (Line.unordered? line).isSome
  | .ordered => (Line.ordered? line).isSome
  | .table => Line.isRow line
  | .fence | .heading | .rule => false

/-- The first shape of a line other than `current`. -/
def otherShape (line : List Char) (following : Option (List Char)) (current : Option Shape) :
    Option Shape :=
  (Shape.all.filter fun s => some s ≠ current).find? fun s => s.fits line following

/-- The state to which a scan moves from another one where a line starts, if it moves. -/
def nextState (line : List Char) (following : Option (List Char)) : State → Option State
  | .paragraph => (otherShape line following none).map .block
  | .block s =>
    if isRegion s then
      match otherShape line following (some s) with
      | some s' => some (.block s')
      | none => if goesOn line s then none else some .paragraph
    else none

namespace Page

variable (code : String → String → String)

/-- The token of a page, as it stands when the scan moves to the state `target`. -/
def tokenTo (target : State) (pg : Page) : Token State where
  text := pg.token
  source := pg.state
  target := target
  before := none
  fresh := pg.content = ""

/-- Finish the token on the way to the state `target`. -/
def write (target : State) (pg : Page) : Page :=
  { pg with
    content := pg.content ++ Progress.written (table code) none (pg.tokenTo target)
    token := "" }

/-- The markup of a page whose region is closed. -/
def closed (pg : Page) : String :=
  pg.done ++ (table code).wrap { state := pg.state, pair := none, content := pg.content }

/-- Finish the token, close the region and open another one. -/
def move (s : State) (pg : Page) : Page :=
  { done := (pg.write code s).closed code, state := s }

/-- Add text to the token. -/
def keep (text : List Char) (pg : Page) : Page :=
  { pg with token := pg.token ++ String.ofList text }

/-- Move to the state that a line belongs to, where it starts.  A fence is entered with
its whole line, so there is no moving on from it. -/
def settle (line : List Char) (following : Option (List Char)) : Nat → Page → Page
  | hops, pg =>
    match nextState line following pg.state with
    | none => pg
    | some (.block .fence) => pg.move code (.block .fence)
    | some s =>
      match hops with
      | 0 => pg
      | hops + 1 => settle line following hops (pg.move code s)

/-- Read a line.  The line that closes a fence is no part of anything. -/
def line (l : List Char) (following : Option (List Char)) (pg : Page) : Page :=
  if pg.state = .block .fence then
    if Line.closesFence l then pg.move code .paragraph else pg.keep l
  else (pg.settle code l following hopLimit).keep l

/-- Read the newline at the end of a line. -/
def endLine (pg : Page) : Page :=
  match pg.state with
  | .block .heading | .block .rule => pg.move code .paragraph
  | .block .fence => pg.keep ['\n']
  | s => pg.write code s

/-- Read lines.  An empty line at the end of a text has no character to be read. -/
def scan : Page → List (List Char) → Page
  | pg, [] => pg
  | pg, [l] => if l = [] then pg else pg.line code l none
  | pg, l :: l' :: ls => scan ((pg.line code l (some l')).endLine code) (l' :: ls)

/-- The markup of a page that ends. -/
def finish (pg : Page) : String := (pg.write code .paragraph).closed code

@[simp] theorem keep_nil (pg : Page) : pg.keep [] = pg := by
  simp [keep]

@[simp] theorem keep_keep (as bs : List Char) (pg : Page) :
    (pg.keep as).keep bs = pg.keep (as ++ bs) := by
  simp [keep, String.ofList_append, String.append_assoc]

@[simp] theorem state_keep (text : List Char) (pg : Page) : (pg.keep text).state = pg.state := rfl

end Page

/-! ## What a page shows of a scan -/

/-- A page shows what a scan is. -/
structure Shows (pg : Page) (p : Progress State) : Prop where
  outside : p.outside = pg.done
  regions : p.regions = [{ state := pg.state, pair := none, content := pg.content }]
  pending : p.pending = pg.token

/-- A transition from one block to another writes nothing of what it consumes. -/
structure Leads (tr : Transition State) (s : State) : Prop where
  target : tr.target = .state s
  nested : tr.nested = false
  pair : tr.pair = .none
  tokens : tr.tokens = none
  chars : tr.chars = none

variable (code : String → String → String)

/-- No token of a block depends on the character before it. -/
theorem written_before (k : Token State) (before : Option Char) :
    Progress.written (table code) none { k with before } =
      Progress.written (table code) none k := by
  obtain ⟨text, source, target, _, fresh⟩ := k
  cases source with
  | paragraph => rfl
  | block s => cases s <;> rfl

/-- The characters of a block are kept as they are. -/
theorem rewritten_eq (s : State) (cs : List Char) :
    Progress.rewritten (table code) s none cs = String.ofList cs := by
  have hchars : ((table code).rules s).chars = none := by
    cases s with
    | paragraph => rfl
    | block s => cases s <;> rfl
  have hsingle : cs.flatMap (fun c => (verbatim c).toList) = cs := by simp [verbatim]
  apply String.toList_injective
  rw [Progress.rewritten, hchars, String.toList_ofList]
  exact (toList_rewrite verbatim cs).trans hsingle

namespace Shows

variable {pg : Page} {p : Progress State}

theorem current_eq (h : Shows pg p) : p.current (table code) = pg.state := by
  rw [Progress.current, h.regions]

/-- A token that is finished is finished on the page. -/
theorem flush (h : Shows pg p) (target : State) :
    Shows (pg.write code target) (p.flush (table code) pg.state target none) := by
  have htoken : p.token pg.state target = { pg.tokenTo target with before := p.before } := by
    simp [Progress.token, Page.tokenTo, Progress.fresh, h.regions, h.pending]
  have hwritten : Progress.written (table code) none (p.token pg.state target) =
      Progress.written (table code) none (pg.tokenTo target) := by
    rw [htoken, written_before]
  unfold Progress.flush
  dsimp only
  rw [hwritten]
  exact ⟨by simp [Progress.write, h.regions, h.outside, Page.write],
    by simp [Progress.write, h.regions, Page.write], by simp [Page.write]⟩

/-- A region that is closed is closed on the page, and the next one is open. -/
theorem leave_enter (h : Shows pg p) (htoken : pg.token = "") (s : State) :
    Shows { done := pg.closed code, state := s }
      ((p.leave (table code)).enter s none) := by
  constructor <;>
    simp [Progress.leave, Progress.enter, Progress.write, h.regions, h.outside, h.pending, htoken,
      Page.closed]

/-- Characters that are kept are kept on the page. -/
theorem collect (h : Shows pg p) (cs : List Char) (before : List Char) :
    Shows (pg.keep cs) (p.collect (String.ofList cs) before) := by
  have hpending : (p.collect (String.ofList cs) before).pending = pg.token ++ String.ofList cs := by
    rw [Progress.pending_collect, h.pending]
  refine ⟨?_, ?_, hpending⟩
  all_goals unfold Progress.collect Page.keep
  · split
    · exact h.outside
    · split <;> exact h.outside
  · split
    · exact h.regions
    · split <;> exact h.regions

theorem keep (h : Shows pg p) (before : List Char) (ch : Char) :
    Shows (pg.keep [ch]) (p.keep (table code) before ch) := by
  rw [Progress.keep, rewritten_eq]
  exact h.collect [ch] before

/-- The way of a transition that leads to another block. -/
theorem follow_eq (h : Shows pg p) {tr : Transition State} {s : State} (hl : Leads tr s)
    (hclosing : tr.place ≠ .closing) (hbetween : tr.place ≠ .between) (before : List Char)
    (ch : Char) (cs : List Char) :
    p.follow (table code) tr before ch cs =
      (let q := ((p.flush (table code) pg.state s none).leave (table code)).enter s none
       let text := if tr.place = .drop then "" else
         Progress.rewritten (table code) pg.state none cs
       match tr.place with
       | .opening => q.write text
       | .carry => q.collect text before
       | _ => q) := by
  unfold Progress.follow Progress.writeAt
  simp only [hl.target, hl.nested, hl.tokens, hl.chars, Progress.destination, h.current_eq,
    Transition.delimiter, hl.pair, if_neg (Ne.symm hclosing), if_neg (Ne.symm hbetween)]
  rfl

/-- A transition that consumes nothing, or drops what it consumes, moves to another block. -/
theorem follow_move (h : Shows pg p) {tr : Transition State} {s : State} (hl : Leads tr s)
    {cs : List Char} (hplace : tr.place = .drop ∨ tr.place = .opening ∧ cs = [])
    (before : List Char) (ch : Char) :
    Shows (pg.move code s) (p.follow (table code) tr before ch cs) := by
  have hmoved := (h.flush code s).leave_enter code rfl s
  rcases hplace with hplace | ⟨hplace, rfl⟩
  · rw [h.follow_eq code hl (by simp [hplace]) (by simp [hplace]), hplace]
    exact hmoved
  · rw [h.follow_eq code hl (by simp [hplace]) (by simp [hplace]), hplace]
    -- nothing is written into the region that was entered
    simpa [Progress.rewritten, Progress.write, Progress.enter, Page.move] using hmoved

/-- A transition that carries what it consumes makes it the token of the next block. -/
theorem follow_carry (h : Shows pg p) {tr : Transition State} {s : State} (hl : Leads tr s)
    (hplace : tr.place = .carry) (before : List Char) (ch : Char) (cs : List Char) :
    Shows ((pg.move code s).keep cs) (p.follow (table code) tr before ch cs) := by
  have hmoved := (h.flush code s).leave_enter code rfl s
  rw [h.follow_eq code hl (by simp [hplace]) (by simp [hplace]), hplace, rewritten_eq]
  exact hmoved.collect cs before

/-- A newline finishes the token of a block that goes on. -/
theorem follow_newline (h : Shows pg p) (before : List Char) (ch : Char) (cs : List Char) :
    Shows (pg.write code pg.state) (p.follow (table code) newline before ch cs) := by
  have hplace : newline.place = .drop := rfl
  have htarget : newline.target = .stay := rfl
  have htokens : newline.tokens = none := rfl
  unfold Progress.follow Progress.writeAt
  simp only [hplace, htarget, htokens, Progress.destination, h.current_eq, reduceCtorEq, if_false]
  exact h.flush code pg.state

end Shows

/-! ## What fires where -/

/-- A line starts after this text, which is given nearest character first. -/
def StartsLine (before : List Char) : Prop := ∀ c ∈ before.head?, c = '\n'

instance (before : List Char) : Decidable (StartsLine before) :=
  inferInstanceAs (Decidable (∀ c ∈ before.head?, c = '\n'))

/-- The transition that a newline fires. -/
def lineEnd : State → Option (Transition State)
  | .block .heading | .block .rule => some endOfLine
  | .block .fence => none
  | _ => some newline

theorem atLineStart_iff (c : Context) : c.atLineStart = true ↔ StartsLine c.before := by
  unfold Context.atLineStart Context.prev StartsLine
  cases c.before.head? <;> simp

/-- No line starts in the middle of one. -/
theorem not_startsLine {l : List Char} (hne : l ≠ []) (hl : IsLine l) (before : List Char) :
    ¬ StartsLine (l.reverse ++ before) := by
  intro hstart
  cases hr : l.reverse with
  | nil => exact hne (List.reverse_eq_nil_iff.1 hr)
  | cons c cs =>
    have hmem : c ∈ l := by rw [← List.mem_reverse, hr]; exact List.mem_cons_self ..
    rw [hr] at hstart
    have hc : c = '\n' := hstart c rfl
    exact hl (hc ▸ hmem)

theorem fires_opener (s : Shape) : (opener s).fires = opens s := by
  unfold opener
  split <;> rfl

/-- The opener that fires is that of the first shape of the line. -/
theorem find?_openers (c : Context) (current : Option Shape) :
    (openers current).find? (fun tr => tr.fires c) =
      if c.atLineStart then (otherShape c.restOfLine c.followingLine current).map opener
      else none := by
  unfold openers otherShape
  rw [List.find?_map]
  split
  · rename_i hstart
    simp [fires_opener, opens, hstart]
  · rename_i hstart
    simp [fires_opener, opens, hstart]

theorem transitions_region {s : Shape} (h : isRegion s = true) :
    (rules code (.block s)).transitions =
      openers (some s) ++ [fallBack fun line => goesOn line s, newline] := by
  cases s with
  | quote | unordered | ordered | table => rfl
  | fence | heading | rule => cases h

theorem leads_endOfLine : Leads endOfLine .paragraph := ⟨rfl, rfl, rfl, rfl, rfl⟩

theorem leads_fenceClose : Leads fenceClose .paragraph := ⟨rfl, rfl, rfl, rfl, rfl⟩

theorem leads_fallBack (continues : List Char → Bool) :
    Leads (fallBack continues) .paragraph := ⟨rfl, rfl, rfl, rfl, rfl⟩

/-- An opener leads to its block, at once unless that is a fence. -/
theorem opener_spec (s : Shape) :
    Leads (opener s) (.block s) ∧
      if s = .fence then (opener s).zeroWidth = false ∧ (opener s).place = .carry ∧
        (opener s).measure = some Context.lineRemainder
      else (opener s).zeroWidth = true ∧ (opener s).place = .opening := by
  unfold opener
  split
  · exact ⟨⟨rfl, rfl, rfl, rfl, rfl⟩, rfl, rfl, rfl⟩
  · exact ⟨⟨rfl, rfl, rfl, rfl, rfl⟩, rfl, rfl⟩

/-- A block is left for another one only. -/
theorem nextState_ne {line : List Char} {following : Option (List Char)} {s s' : State}
    (h : nextState line following s = some s') : s' ≠ s := by
  have hother : ∀ current s, otherShape line following current = some s → some s ≠ current := by
    intro current s hs
    have hmem := List.mem_of_find?_eq_some hs
    simpa using (List.mem_filter.1 hmem).2
  cases s with
  | paragraph =>
    obtain ⟨s, _, rfl⟩ := Option.map_eq_some_iff.1 h
    simp
  | block s =>
    simp only [nextState] at h
    split at h
    · split at h
      · rename_i s₂ hs
        cases h
        simpa using hother _ _ hs
      · split at h
        · cases h
        · cases h
          simp
    · cases h

theorem nextState_region {line : List Char} {following : Option (List Char)} {s : Shape}
    (h : isRegion s = true) :
    nextState line following (.block s) =
      match otherShape line following (some s) with
      | some s' => some (.block s')
      | none => if goesOn line s then none else some .paragraph := by
  rw [nextState, if_pos h]

namespace Shows

variable {pg : Page} {p : Progress State} {before after : List Char} {ch : Char}
  {line : List Char} {following : Option (List Char)}

/-- A region is left by an opener, else for a paragraph, else its line ends. -/
theorem firing_region (h : Shows pg p) (hline : (p.look before ch after).restOfLine = line)
    (hfollowing : (p.look before ch after).followingLine = following) {s : Shape}
    (hs : pg.state = .block s) (hregion : isRegion s = true) :
    p.firing (table code) before ch after =
      if StartsLine before ∧ nextState line following pg.state ≠ none then
        match otherShape line following (some s) with
        | some s' => some (opener s')
        | none => some (fallBack fun line => goesOn line s)
      else if ch = '\n' then some newline else none := by
  have hstart := atLineStart_iff (p.look before ch after)
  have hlook : (p.look before ch after).before = before := rfl
  have hch : (p.look before ch after).ch = ch := rfl
  unfold Progress.firing
  rw [h.current_eq, hs]
  show (rules code (.block s)).transitions.find? _ = _
  rw [transitions_region code hregion, List.find?_append, find?_openers, hline, hfollowing,
    nextState_region hregion]
  rw [hlook] at hstart
  by_cases hat : StartsLine before
  · rw [if_pos (hstart.2 hat)]
    cases otherShape line following (some s) with
    | some s' => simp [hat]
    | none =>
      cases hgoes : goesOn line s <;>
        simp [List.find?_cons, fallBack, newline, hstart.2 hat, hline, hgoes, hat, hch]
      split <;> simp_all
  · have hnot : (p.look before ch after).atLineStart = false := by
      rw [Bool.eq_false_iff]
      exact fun h => hat (hstart.1 h)
    rw [if_neg (fun h => hat (hstart.1 h))]
    simp [List.find?_cons, fallBack, newline, hnot, hat, hch]
    split <;> simp_all

/-- A paragraph is left by an opener, else its line ends. -/
theorem firing_paragraph (h : Shows pg p) (hline : (p.look before ch after).restOfLine = line)
    (hfollowing : (p.look before ch after).followingLine = following)
    (hs : pg.state = .paragraph) :
    p.firing (table code) before ch after =
      if StartsLine before ∧ nextState line following pg.state ≠ none then
        (otherShape line following none).map opener
      else if ch = '\n' then some newline else none := by
  have hstart := atLineStart_iff (p.look before ch after)
  have hlook : (p.look before ch after).before = before := rfl
  have hch : (p.look before ch after).ch = ch := rfl
  unfold Progress.firing
  rw [h.current_eq, hs]
  show (openers none ++ [newline]).find? _ = _
  rw [List.find?_append, find?_openers, hline, hfollowing, nextState]
  rw [hlook] at hstart
  by_cases hat : StartsLine before
  · rw [if_pos (hstart.2 hat)]
    cases otherShape line following none with
    | some s' => simp [hat]
    | none => simp [newline, hch, List.find?_singleton]
  · rw [if_neg (fun h => hat (hstart.1 h))]
    simp [newline, hat, hch, List.find?_singleton]

/-- Where the scan moves to another block, the transition to it fires. -/
theorem firing_moves (h : Shows pg p) (hline : (p.look before ch after).restOfLine = line)
    (hfollowing : (p.look before ch after).followingLine = following) (hat : StartsLine before)
    {s : State} (hnext : nextState line following pg.state = some s) :
    ∃ tr, p.firing (table code) before ch after = some tr ∧ Leads tr s ∧
      if s = .block .fence then tr.zeroWidth = false ∧ tr.place = .carry ∧
        tr.measure = some Context.lineRemainder
      else tr.zeroWidth = true ∧ tr.place = .opening := by
  have hfires : StartsLine before ∧ nextState line following pg.state ≠ none :=
    ⟨hat, by rw [hnext]; simp⟩
  have hopener : ∀ s', .block s' = s → Leads (opener s') s ∧
      if s = .block .fence then (opener s').zeroWidth = false ∧ (opener s').place = .carry ∧
        (opener s').measure = some Context.lineRemainder
      else (opener s').zeroWidth = true ∧ (opener s').place = .opening := by
    rintro s' rfl
    simpa using opener_spec s'
  cases hs : pg.state with
  | paragraph =>
    have hfiring := h.firing_paragraph code hline hfollowing hs
    rw [if_pos hfires] at hfiring
    rw [hs, nextState] at hnext
    obtain ⟨s', hs', heq⟩ := Option.map_eq_some_iff.1 hnext
    exact ⟨opener s', by rw [hfiring, hs']; rfl, hopener s' heq⟩
  | block r =>
    have hregion : isRegion r = true := by
      rw [hs, nextState] at hnext
      split at hnext
      · assumption
      · cases hnext
    have hfiring := h.firing_region code hline hfollowing hs hregion
    rw [if_pos hfires] at hfiring
    rw [hs, nextState_region hregion] at hnext
    split at hnext
    · rename_i s' hs'
      exact ⟨opener s', by rw [hfiring, hs'], hopener s' (Option.some.inj hnext)⟩
    · rename_i hs'
      rw [hs'] at hfiring
      split at hnext
      · cases hnext
      · cases hnext
        exact ⟨_, hfiring, leads_fallBack _, rfl, rfl⟩

/-- Where it does not, only a newline fires. -/
theorem firing_quiet (h : Shows pg p) (hline : (p.look before ch after).restOfLine = line)
    (hfollowing : (p.look before ch after).followingLine = following)
    (hquiet : StartsLine before → nextState line following pg.state = none ∧
      (pg.state = .block .fence → Line.closesFence line = false)) :
    p.firing (table code) before ch after = if ch = '\n' then lineEnd pg.state else none := by
  have hfires : ¬ (StartsLine before ∧ nextState line following pg.state ≠ none) :=
    fun hf => hf.2 (hquiet hf.1).1
  have hch : (p.look before ch after).ch = ch := rfl
  cases hs : pg.state with
  | paragraph =>
    rw [h.firing_paragraph code hline hfollowing hs, if_neg hfires]
    rfl
  | block r =>
    cases hregion : isRegion r with
    | true =>
      rw [h.firing_region code hline hfollowing hs hregion, if_neg hfires]
      cases r with
      | quote | unordered | ordered | table => rfl
      | fence | heading | rule => cases hregion
    | false =>
      unfold Progress.firing
      rw [h.current_eq, hs]
      show (rules code (.block r)).transitions.find? _ = _
      cases r with
      | quote | unordered | ordered | table => cases hregion
      | heading | rule =>
        show [endOfLine].find? _ = _
        simp [endOfLine, lineEnd, hch, List.find?_singleton]
      | fence =>
        have hnot : fenceClose.fires (p.look before ch after) = false := by
          have hstart := atLineStart_iff (p.look before ch after)
          cases hat : (p.look before ch after).atLineStart with
          | false => simp [fenceClose, hat]
          | true => simp [fenceClose, hline, (hquiet (hstart.1 hat)).2 hs]
        show [fenceClose].find? _ = _
        simp [lineEnd, hnot]

end Shows

end Block
end Markup
end AnswerStream
