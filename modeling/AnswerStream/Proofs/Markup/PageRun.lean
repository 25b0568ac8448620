import AnswerStream.Proofs.Markup.Page
import AnswerStream.Proofs.Scan.Remaining

/-!
# Blocks are read line by line

A page that shows a scan goes on showing it: where a line starts the scan settles as the
page does (`visit_start`), the rest of the line is kept (`scan_rest`), and the newline ends
it (`visit_newline`).  An empty line is the case that needs care, because its first
character is its newline, so that the scan settles and ends the line in one visit.

`run_eq_finish` says the same of the whole scan: the markup of a text is that of its
lines, read one after the other.  What is to be said about blocks can then be proved by
induction on lines.
-/

namespace AnswerStream
namespace Markup

open Text Scan

namespace Block

variable (code : String → String → String)

/-! ## Settling -/

section Settle

variable {pg : Page} {l : List Char} {following : Option (List Char)}

theorem settle_of_none (hops : Nat) (h : nextState l following pg.state = none) :
    pg.settle code l following hops = pg := by
  cases hops <;> rw [Page.settle, h]

theorem settle_of_fence (hops : Nat) (h : nextState l following pg.state = some (.block .fence)) :
    pg.settle code l following hops = pg.move code (.block .fence) := by
  cases hops <;> rw [Page.settle, h]

theorem settle_zero {s : State} (h : nextState l following pg.state = some s)
    (hs : s ≠ .block .fence) : pg.settle code l following 0 = pg := by
  rw [Page.settle, h]
  split
  · rfl
  · rename_i heq
    exact absurd (Option.some.inj heq) hs
  · rfl

theorem settle_succ (hops : Nat) {s : State} (h : nextState l following pg.state = some s)
    (hs : s ≠ .block .fence) : pg.settle code l following (hops + 1) =
      (pg.move code s).settle code l following hops := by
  rw [Page.settle, h]
  split
  · rename_i heq
    cases heq
  · rename_i heq
    exact absurd (Option.some.inj heq) hs
  · rename_i heq
    rw [Option.some.inj heq]

end Settle

/-! ## Reading a line -/

namespace Shows

variable {pg : Page} {p : Progress State} {before after : List Char} {ch : Char}

/-- A character at which nothing fires is kept. -/
theorem visit_keep (h : Shows pg p) (hfire : p.firing (table code) before ch after = none)
    (hops : Nat) : (p.visit (table code) before ch after hops).2 = 0 ∧
      Shows (pg.keep [ch]) (p.visit (table code) before ch after hops).1 := by
  rw [Progress.visit_of_none hfire]
  exact ⟨rfl, h.keep code before ch⟩

/-- A newline ends the line of a page. -/
theorem visit_newline (h : Shows pg p)
    (hfire : p.firing (table code) before '\n' after = lineEnd pg.state) (hops : Nat) :
    (p.visit (table code) before '\n' after hops).2 = 0 ∧
      Shows (pg.endLine code) (p.visit (table code) before '\n' after hops).1 := by
  have hstays : lineEnd pg.state = some newline → pg.endLine code = pg.write code pg.state →
      (p.visit (table code) before '\n' after hops).2 = 0 ∧
        Shows (pg.endLine code) (p.visit (table code) before '\n' after hops).1 := by
    intro hend hpage
    have hvisit := Progress.visit_of_some (hfire.trans hend) rfl hops
    rw [hvisit, hpage]
    exact ⟨rfl, h.follow_newline code before '\n' ['\n']⟩
  have hleaves : lineEnd pg.state = some endOfLine → pg.endLine code = pg.move code .paragraph →
      (p.visit (table code) before '\n' after hops).2 = 0 ∧
        Shows (pg.endLine code) (p.visit (table code) before '\n' after hops).1 := by
    intro hend hpage
    have hvisit := Progress.visit_of_some (hfire.trans hend) rfl hops
    rw [hvisit, hpage]
    exact ⟨rfl, h.follow_move code leads_endOfLine (Or.inl rfl) before '\n'⟩
  cases hs : pg.state with
  | paragraph => exact hstays (by rw [hs]; rfl) (by rw [Page.endLine, hs])
  | block s =>
    cases s with
    | quote | unordered | ordered | table =>
      exact hstays (by rw [hs]; rfl) (by rw [Page.endLine, hs])
    | heading | rule => exact hleaves (by rw [hs]; rfl) (by rw [Page.endLine, hs])
    | fence =>
      -- the lines of a fence are one token
      have hpage : pg.endLine code = pg.keep ['\n'] := by rw [Page.endLine, hs]
      rw [hpage]
      exact h.visit_keep code (by rw [hfire, hs]; rfl) hops

/-- What the rules see where a line starts. -/
theorem look_line (p : Progress State) (before : List Char) {l : List Char} {c : Char}
    {lines : List (List Char)} (hlines : ∀ x ∈ (c :: l) :: lines, IsLine x) :
    (p.look before c (l ++ lines.flatMap ('\n' :: ·))).restOfLine = c :: l ∧
      (p.look before c (l ++ lines.flatMap ('\n' :: ·))).followingLine = lines.head? := by
  obtain ⟨hline, hrest⟩ := List.forall_mem_cons.1 hlines
  refine ⟨takeWhile_line hline lines, ?_⟩
  have hdrop : ((p.look before c (l ++ lines.flatMap ('\n' :: ·))).ch ::
      (p.look before c (l ++ lines.flatMap ('\n' :: ·))).after).dropWhile (· ≠ '\n') =
        lines.flatMap ('\n' :: ·) := dropWhile_line hline lines
  rw [Context.followingLine, hdrop]
  cases lines with
  | nil => rfl
  | cons line lines =>
    have hnext := takeWhile_line (hrest line (List.mem_cons_self ..)) lines
    rw [List.flatMap_cons, List.cons_append]
    exact congrArg some hnext

/-- A transition that leads to the state that a line calls for moves the scan. -/
theorem moves_of_nextState (h : Shows pg p) {tr : Transition State} {s : State}
    (hleads : Leads tr s) {line : List Char} {following : Option (List Char)}
    (hnext : nextState line following pg.state = some s) :
    tr.moves (p.current (table code)) = true := by
  simp [Transition.moves, hleads.target, h.current_eq, nextState_ne hnext]

/-- At the first character of a line the scan settles, and takes the character, or the whole
line if that opens a fence. -/
theorem visit_start {pg : Page} {p : Progress State} (h : Shows pg p)
    (hstate : pg.state ≠ .block .fence) (hstart : StartsLine before) {c : Char} {l : List Char}
    {lines : List (List Char)}
    (hlines : ∀ x ∈ (c :: l) :: lines, IsLine x) (hops : Nat) :
    let v := p.visit (table code) before c (l ++ lines.flatMap ('\n' :: ·)) hops
    let settled := pg.settle code (c :: l) lines.head? hops
    v.2 = l.length ∧ Shows (settled.keep (c :: l)) v.1 ∨
      v.2 = 0 ∧ Shows (settled.keep [c]) v.1 := by
  dsimp only
  have hc : c ≠ '\n' := by
    rintro rfl
    exact hlines _ (List.mem_cons_self ..) (List.mem_cons_self ..)
  obtain ⟨hline, hfollowing⟩ := look_line p before hlines
  cases hnext : nextState (c :: l) lines.head? pg.state with
  | none =>
    have hfire := h.firing_quiet code hline hfollowing
      fun _ => ⟨hnext, fun hs => absurd hs hstate⟩
    rw [if_neg hc] at hfire
    rw [settle_of_none code hops hnext]
    exact Or.inr (h.visit_keep code hfire hops)
  | some s =>
    obtain ⟨tr, hfire, hleads, htr⟩ := h.firing_moves code hline hfollowing hstart hnext
    by_cases hs : s = .block .fence
    · subst hs
      obtain ⟨hz, hplace, hmeasure⟩ := htr
      have hreach : tr.reach (p.look before c (l ++ lines.flatMap ('\n' :: ·))) = l.length := by
        simp [Transition.reach, hmeasure, Context.lineRemainder, hline]
      have hvisit := Progress.visit_of_some hfire hz hops
      rw [hreach, List.take_left] at hvisit
      rw [hvisit, settle_of_fence code hops hnext]
      exact Or.inl ⟨rfl, h.follow_carry code hleads hplace before c (c :: l)⟩
    · rw [if_neg hs] at htr
      obtain ⟨hz, hplace⟩ := htr
      have hmoves := h.moves_of_nextState code hleads hnext
      cases hops with
      | zero =>
        rw [Progress.visit_of_spent hfire hz fun _ => rfl, settle_zero code hnext hs]
        exact Or.inr ⟨rfl, h.keep code before c⟩
      | succ hops =>
        rw [Progress.visit_of_moves hfire hz hmoves, settle_succ code hops hnext hs]
        exact visit_start (h.follow_move code hleads (Or.inr ⟨hplace, rfl⟩) before c) hs hstart
          hlines hops

/-- Where no line starts, the rest of the line is kept. -/
theorem scan_rest {pg : Page} {p : Progress State} (h : Shows pg p) {before l : List Char}
    (hbefore : ¬ StartsLine before) (hl : IsLine l) (rest : List Char) :
    ∃ p', p.scan (table code) before (l ++ rest) 0 =
        p'.scan (table code) (l.reverse ++ before) rest 0 ∧ Shows (pg.keep l) p' := by
  induction l generalizing before pg p with
  | nil => exact ⟨p, rfl, by simpa using h⟩
  | cons c l ih =>
    have hc : c ≠ '\n' := fun heq => hl (by simp [heq])
    have hfire := h.firing_quiet code
      (rfl : (p.look before c (l ++ rest)).restOfLine = _) rfl fun hstart => absurd hstart hbefore
    rw [if_neg hc] at hfire
    obtain ⟨hskip, hkept⟩ := h.visit_keep code hfire hopLimit
    obtain ⟨p', hscan, hshows⟩ := ih hkept
      (by simpa [StartsLine] using hc : ¬ StartsLine (c :: before))
      fun hmem => hl (List.mem_cons_of_mem _ hmem)
    rw [Page.keep_keep] at hshows
    refine ⟨p', ?_, hshows⟩
    rw [List.cons_append, Progress.scan_cons, hskip, hscan]
    simp

/-- In a fence the scan takes a line that closes it whole, and of any other line its first
character. -/
theorem visit_fence (h : Shows pg p) (hfence : pg.state = .block .fence)
    (hstart : StartsLine before) {c : Char} {l : List Char} {lines : List (List Char)}
    (hlines : ∀ x ∈ (c :: l) :: lines, IsLine x) :
    let v := p.visit (table code) before c (l ++ lines.flatMap ('\n' :: ·)) hopLimit
    v.2 = l.length ∧ Shows (pg.line code (c :: l) lines.head?) v.1 ∨
      v.2 = 0 ∧ pg.line code (c :: l) lines.head? = pg.keep (c :: l) ∧
        Shows (pg.keep [c]) v.1 := by
  dsimp only
  have hc : c ≠ '\n' := by
    rintro rfl
    exact hlines _ (List.mem_cons_self ..) (List.mem_cons_self ..)
  obtain ⟨hrest, hfollowing⟩ := look_line p before hlines
  unfold Page.line
  rw [if_pos hfence]
  by_cases hcloses : Line.closesFence (c :: l) = true
  · have hfire : p.firing (table code) before c (l ++ lines.flatMap ('\n' :: ·)) =
        some fenceClose := by
      have hat := (atLineStart_iff
        (p.look before c (l ++ lines.flatMap ('\n' :: ·)))).2 hstart
      unfold Progress.firing
      rw [h.current_eq, hfence]
      show [fenceClose].find? _ = _
      simp [fenceClose, hat, hrest, hcloses]
    have hreach : fenceClose.reach (p.look before c (l ++ lines.flatMap ('\n' :: ·))) =
        l.length := by
      simp [Transition.reach, fenceClose, Context.lineRemainder, hrest]
    have hvisit := Progress.visit_of_some hfire rfl hopLimit
    rw [hreach, List.take_left] at hvisit
    rw [if_pos hcloses, hvisit]
    exact Or.inl ⟨rfl, h.follow_move code leads_fenceClose (Or.inl rfl) before c⟩
  · have hfire := h.firing_quiet code hrest hfollowing
      fun _ => ⟨by rw [hfence]; rfl, fun _ => by simpa using hcloses⟩
    rw [if_neg hc] at hfire
    obtain ⟨hskip, hshows⟩ := h.visit_keep code hfire hopLimit
    rw [if_neg hcloses]
    exact Or.inr ⟨hskip, rfl, hshows⟩

/-- The scan takes a line whole at its first character, or that character only and the page
keeps the line. -/
theorem visit_line (h : Shows pg p) (hstart : StartsLine before) {c : Char} {l : List Char}
    {lines : List (List Char)} (hlines : ∀ x ∈ (c :: l) :: lines, IsLine x) :
    let v := p.visit (table code) before c (l ++ lines.flatMap ('\n' :: ·)) hopLimit
    v.2 = l.length ∧ Shows (pg.line code (c :: l) lines.head?) v.1 ∨
      v.2 = 0 ∧ ∃ settled : Page, pg.line code (c :: l) lines.head? = settled.keep (c :: l) ∧
        Shows (settled.keep [c]) v.1 := by
  dsimp only
  by_cases hfence : pg.state = .block .fence
  · exact (h.visit_fence code hfence hstart hlines).imp_right fun hkept => ⟨hkept.1, pg, hkept.2⟩
  · have hline : pg.line code (c :: l) lines.head? =
        (pg.settle code (c :: l) lines.head? hopLimit).keep (c :: l) := if_neg hfence
    rw [hline]
    exact (h.visit_start code hfence hstart hlines hopLimit).imp_right
      fun hkept => ⟨hkept.1, _, rfl, hkept.2⟩

/-- A line is read as the page reads it. -/
theorem scan_line (h : Shows pg p) (hstart : StartsLine before) {l : List Char} (hne : l ≠ [])
    {lines : List (List Char)} (hlines : ∀ x ∈ l :: lines, IsLine x) :
    ∃ p', p.scan (table code) before (l ++ lines.flatMap ('\n' :: ·)) 0 =
        p'.scan (table code) (l.reverse ++ before) (lines.flatMap ('\n' :: ·)) 0 ∧
      Shows (pg.line code l lines.head?) p' := by
  cases l with
  | nil => exact absurd rfl hne
  | cons c l =>
    have hline : IsLine (c :: l) := hlines _ (List.mem_cons_self ..)
    have hreverse : (c :: l).reverse ++ before = l.reverse ++ c :: before := by simp
    rw [List.cons_append, Progress.scan_cons, hreverse]
    rcases h.visit_line code hstart hlines with ⟨hskip, hshows⟩ | ⟨hskip, settled, hkeeps, hshows⟩
    · rw [hskip, Progress.scan_skip]
      exact ⟨_, rfl, hshows⟩
    · have hc : c ≠ '\n' := fun heq => hline (by simp [heq])
      have hinside : ¬ StartsLine (c :: before) := by simpa [StartsLine] using hc
      obtain ⟨p', hscan, hp'⟩ := scan_rest code hshows hinside
        (fun hmem => hline (List.mem_cons_of_mem _ hmem)) (lines.flatMap ('\n' :: ·))
      rw [Page.keep_keep] at hp'
      rw [hskip, hscan, hkeeps]
      exact ⟨p', rfl, hp'⟩

end Shows

/-! ## Empty lines -/

/-- An empty line has no shape. -/
theorem fits_nil (following : Option (List Char)) (s : Shape) : s.fits [] following = false := by
  cases s <;> rfl

theorem otherShape_nil (following : Option (List Char)) (current : Option Shape) :
    otherShape [] following current = none := by
  unfold otherShape
  rw [List.find?_eq_none]
  intro s _
  simp [fits_nil]

/-- An empty line leaves every region for a paragraph. -/
theorem nextState_nil (following : Option (List Char)) (s : State) :
    nextState [] following s = match s with
      | .paragraph => none
      | .block s => if isRegion s then some .paragraph else none := by
  cases s with
  | paragraph => rw [nextState, otherShape_nil]; rfl
  | block s =>
    rw [nextState, otherShape_nil]
    cases s <;> rfl

theorem eq_paragraph_of_nextState_nil {following : Option (List Char)} {s s' : State}
    (h : nextState [] following s = some s') : s' = .paragraph := by
  rw [nextState_nil] at h
  split at h
  · cases h
  · split at h
    · exact (Option.some.inj h).symm
    · cases h

namespace Shows

variable {pg : Page} {p : Progress State} {before after : List Char}

/-- An empty line is read with its newline. -/
theorem visit_empty (h : Shows pg p) (hstart : StartsLine before) {following : Option (List Char)}
    (hfollowing : (p.look before '\n' after).followingLine = following) :
    (p.visit (table code) before '\n' after hopLimit).2 = 0 ∧
      Shows ((pg.line code [] following).endLine code)
        (p.visit (table code) before '\n' after hopLimit).1 := by
  have hrest : ∀ q : Progress State, (q.look before '\n' after).restOfLine = [] :=
    fun q => Context.restOfLine_of_newline _ rfl
  have hquiet : ∀ {pg : Page} {q : Progress State}, Shows pg q →
      nextState [] following pg.state = none → ∀ hops,
        (q.visit (table code) before '\n' after hops).2 = 0 ∧
          Shows (pg.endLine code) (q.visit (table code) before '\n' after hops).1 := by
    intro pg q hq hnext hops
    have hfire := hq.firing_quiet code (hrest q) hfollowing fun _ => ⟨hnext, fun _ => rfl⟩
    exact hq.visit_newline code (by rwa [if_pos rfl] at hfire) hops
  unfold Page.line
  by_cases hfence : pg.state = .block .fence
  · have hcloses : ¬ Line.closesFence [] = true := by decide
    rw [if_pos hfence, if_neg hcloses, Page.keep_nil]
    exact hquiet h (by rw [hfence]; rfl) hopLimit
  · rw [if_neg hfence, Page.keep_nil]
    cases hnext : nextState [] following pg.state with
    | none =>
      rw [settle_of_none code hopLimit hnext]
      exact hquiet h hnext hopLimit
    | some s =>
      -- the region is left, and the paragraph goes on
      obtain rfl := eq_paragraph_of_nextState_nil hnext
      obtain ⟨tr, hfire, hleads, hz, hplace⟩ :=
        h.firing_moves code (hrest p) hfollowing hstart hnext
      have hmoves := h.moves_of_nextState code hleads hnext
      have hvisit := Progress.visit_of_moves hfire hz hmoves 15
      have hsettle : pg.settle code [] following hopLimit = pg.move code .paragraph := by
        rw [hopLimit, settle_succ code 15 hnext (by simp), settle_of_none code]
        exact nextState_nil following .paragraph
      rw [hsettle, hopLimit, hvisit]
      exact hquiet (h.follow_move code hleads (Or.inr ⟨hplace, rfl⟩) before '\n')
        (nextState_nil following .paragraph) 15

/-- **The lines of a text are read as the page reads them.** -/
theorem scan_unlines {lines : List (List Char)} (hlines : ∀ l ∈ lines, IsLine l)
    (h : Shows pg p) (hstart : StartsLine before) :
    Shows (pg.scan code lines) (p.scan (table code) before (unlines lines) 0) := by
  induction lines generalizing before pg p with
  | nil => exact h
  | cons l lines ih =>
    have hrest : ∀ x ∈ lines, IsLine x := fun x hx => hlines x (List.mem_cons_of_mem _ hx)
    cases lines with
    | nil =>
      rw [Page.scan]
      split
      · rename_i hl
        rw [hl]
        exact h
      · rename_i hl
        obtain ⟨p', hscan, hshows⟩ := h.scan_line code hstart hl hlines
        rw [unlines, hscan]
        exact hshows
    | cons l' lines =>
      have htail : (l' :: lines).flatMap ('\n' :: ·) = '\n' :: unlines (l' :: lines) := rfl
      rw [Page.scan, unlines]
      by_cases hl : l = []
      · subst hl
        have hfollowing : (p.look before '\n' (unlines (l' :: lines))).followingLine = some l' := by
          rw [Context.followingLine_of_newline _ rfl]
          exact congrArg some (takeWhile_line (hrest l' (List.mem_cons_self ..)) lines)
        obtain ⟨hskip, hshows⟩ := h.visit_empty code hstart hfollowing
        rw [htail, List.nil_append, Progress.scan_cons, hskip]
        exact ih hrest hshows (by simp [StartsLine])
      · obtain ⟨p', hscan, hshows⟩ := h.scan_line code hstart hl hlines
        have hinside : ¬ StartsLine (l.reverse ++ before) :=
          not_startsLine hl (hlines l (List.mem_cons_self ..)) before
        have hfire := hshows.firing_quiet code
          (rfl : (p'.look (l.reverse ++ before) '\n' (unlines (l' :: lines))).restOfLine = _) rfl
          fun hs => absurd hs hinside
        rw [if_pos rfl] at hfire
        obtain ⟨hskip, hended⟩ := hshows.visit_newline code hfire hopLimit
        rw [hscan, htail, Progress.scan_cons, hskip]
        exact ih hrest hended (by simp [StartsLine])

end Shows

/-- A scan of a text is shown by a page that reads its lines. -/
theorem shows_scan (text : String) :
    Shows (Page.scan code {} (splitOn '\n' text.toList))
      ((table code).start.scan (table code) [] text.toList 0) := by
  have hstart : Shows {} (table code).start := ⟨rfl, rfl, rfl⟩
  have hscan := hstart.scan_unlines code
    (fun l (hl : l ∈ splitOn '\n' text.toList) => isLine_of_mem_splitOn hl)
    (by simp [StartsLine] : StartsLine [])
  rwa [unlines_splitOn] at hscan

/-- **The markup of a text is that of its lines, read one after the other.** -/
theorem run_eq_finish (text : String) :
    (table code).run text = (Page.scan code {} (splitOn '\n' text.toList)).finish code := by
  have hscan := shows_scan code text
  have hend := hscan.flush code .paragraph
  unfold Table.run Table.finish
  dsimp only
  rw [hscan.current_eq]
  show Progress.close _ (Progress.outside (Progress.flush _ _ State.paragraph none _))
    (Progress.regions (Progress.flush _ _ State.paragraph none _)) "" = _
  rw [hend.regions, hend.outside]
  simp [Progress.close, Page.finish, Page.closed]

end Block
end Markup
end AnswerStream
