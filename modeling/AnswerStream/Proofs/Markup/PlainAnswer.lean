import AnswerStream.Proofs.Markup.PageRun
import AnswerStream.Proofs.Markup.Prepare
import AnswerStream.Proofs.Markup.Regions

/-!
# Answers without tables

The markup of an answer without bars and carriage returns is that of its regions
(`render_eq_plain`), with code marked up or not.

A page stands in a region of some kind, with the markup of the regions before it and what
was written of the region so far.  A line of that kind is added to the region, a line of
another kind closes it, and a heading, a rule or a fence closes it and itself; `finish_scan`
follows the page from region to region, by induction on the lines that are left.
-/

namespace AnswerStream
namespace Markup

open Text Scan

namespace Block

/-! ## Lines as tokens -/

/-- A line is joined to those before it, unless it is empty and the region is left. -/
theorem joinedLine_eq {t : Token State} {body : Option String}
    (h : t.target = t.source ∨ body ≠ none) : joinedLine t body = joined t.fresh body := by
  cases body with
  | some body => rfl
  | none =>
    have htarget : t.target = t.source := h.resolve_right fun hne => hne rfl
    simp [joinedLine, joined, htarget]

/-- A line with an item is not blank. -/
theorem not_allBlank_of_item {l : List Char}
    (h : (Line.ordered? l).isSome = true ∨ (Line.unordered? l).isSome = true) :
    allBlank l = false := by
  rw [Bool.eq_false_iff]
  intro hblank
  have hall : ∀ c ∈ l, isBlank c = true := List.all_eq_true.1 hblank
  have htrim : trimStart (l ++ []) = [] := List.dropWhile_append_of_pos hall
  rw [List.append_nil] at htrim
  rcases h with h | h
  · obtain ⟨c, hc, -⟩ := head_of_ordered h
    rw [htrim] at hc
    cases hc
  · obtain ⟨c, hc, -⟩ := head_of_unordered h
    rw [htrim] at hc
    cases hc

/-- The shape that the kind of a line promises. -/
theorem isSome_of_kindOf {l : List Char} :
    (kindOf l = .heading → (Line.heading? l).isSome = true) ∧
      (kindOf l = .quote → (Line.quote? l).isSome = true) ∧
      (kindOf l = .ordered → (Line.ordered? l).isSome = true) ∧
      (kindOf l = .unordered → (Line.unordered? l).isSome = true) := by
  unfold kindOf
  grind

/-- A line that is finished in its region, or shows where a text ends, is written as a line
of its kind. -/
theorem written_line (code : String → String → String) {l : List Char} {k : Kind}
    (hl : kindOf l = k) (hk : k ≠ .fence) {target : State} (fresh : Bool)
    (htarget : target = k.state ∨ l ≠ [] ∧ k.shown [l] = [l]) :
    Progress.written (table code) none
        { text := String.ofList l, source := k.state, target, before := none, fresh } =
      k.line fresh l := by
  obtain ⟨hheading, hquote, hordered, hunordered⟩ := isSome_of_kindOf (l := l)
  cases k with
  | fence => exact absurd rfl hk
  | rule => rfl
  | heading =>
    obtain ⟨h, hh⟩ := Option.isSome_iff_exists.1 (hheading hl)
    show headingLine _ = heading l
    simp only [headingLine, heading, String.toList_ofList, hh]
  | paragraph =>
    show joinedLine _ _ = joined fresh _
    rw [joinedLine_eq]
    · simp [inline]
    · rcases htarget with h | ⟨h, -⟩
      · exact Or.inl h
      · right
        simpa using h
  | quote =>
    obtain ⟨text, htext⟩ := Option.isSome_iff_exists.1 (hquote hl)
    have hne : String.ofList l ≠ "" := by
      intro h
      rw [String.ofList_eq_empty_iff] at h
      rw [h] at htext
      cases htext
    show quoteLine _ = joined fresh _
    simp only [quoteLine, quoteText, String.toList_ofList, htext, Option.getD_some, if_neg hne]
    rw [joinedLine_eq]
    rcases htarget with h | ⟨-, h⟩
    · exact Or.inl h
    · right
      simpa [Kind.shown, quoteText, htext] using h
  | ordered =>
    obtain ⟨text, htext⟩ := Option.isSome_iff_exists.1 (hordered hl)
    have hblank := not_allBlank_of_item (Or.inl (hordered hl))
    show itemLine Line.ordered? _ = _
    simp [itemLine, hblank, htext, Kind.line, item]
  | unordered =>
    obtain ⟨text, htext⟩ := Option.isSome_iff_exists.1 (hunordered hl)
    have hblank := not_allBlank_of_item (Or.inr (hunordered hl))
    show itemLine Line.unordered? _ = _
    simp [itemLine, hblank, htext, Kind.line, item]

/-- Where a text ends, a line that does not show is not written. -/
theorem written_unshown (code : String → String → String) {l : List Char} {k : Kind}
    (hl : kindOf l = k) (hshown : k.shown [l] ≠ [l]) {target : State} (htarget : target ≠ k.state)
    (fresh : Bool) :
    Progress.written (table code) none
        { text := String.ofList l, source := k.state, target, before := none, fresh } = "" := by
  obtain ⟨-, hquote, -, -⟩ := isSome_of_kindOf (l := l)
  have hk : k = .quote ∧ allBlank (quoteText l) = true := by
    unfold Kind.shown at hshown
    split at hshown
    · rename_i h
      simpa using h
    · exact absurd rfl hshown
  obtain ⟨rfl, hblank⟩ := hk
  obtain ⟨text, htext⟩ := Option.isSome_iff_exists.1 (hquote hl)
  have hblank' : allBlank text = true := by simpa [quoteText, htext] using hblank
  show quoteLine _ = _
  simp [quoteLine, joinedLine, htext, hblank', htarget]

/-- Nothing is written where a region is left at the start of a line. -/
theorem written_empty (code : String → String → String) {k : Kind} (hk : k.runs = true)
    {target : State} (htarget : target ≠ k.state) (fresh : Bool) :
    Progress.written (table code) none
      { text := "", source := k.state, target, before := none, fresh } = "" := by
  cases k with
  | fence | heading | rule => cases hk
  | quote | ordered | unordered => rfl
  | paragraph =>
    show joinedLine _ none = ""
    simp [joinedLine, htarget]

/-! ## Pages in a region -/

/-- A page where a line starts in a region. -/
def Kind.page (k : Kind) (done content : String) : Page := { done, state := k.state, content }

section Pages

variable (code : String → String → String) {l : List Char} {k : Kind}
  {following : Option (List Char)}

theorem closed_eq (k : Kind) (done content token : String) :
    Page.closed code { done, state := k.state, content, token } = done ++ k.wrap content := by
  unfold Page.closed Table.wrap
  cases k with
  | quote | ordered | unordered =>
    simp [Kind.wrap, enclosed, Kind.state, Kind.shape, table, rules, Rules.tagged,
      String.append_assoc]
  | fence | heading | rule | paragraph =>
    show done ++ (if content = "" then "" else "" ++ content ++ "") = done ++ content
    split
    · rename_i h
      rw [h]
    · simp

/-- A region that is left where a line starts is closed as it is. -/
theorem move_page (hk : k.runs = true) {k' : Kind} (hne : k' ≠ k) (done content : String) :
    (k.page done content).move code k'.state = k'.page (done ++ k.wrap content) "" := by
  have htarget : k'.state ≠ k.state := fun h => hne (Kind.state_injective h)
  have hwritten := written_empty code hk htarget (content = "")
  have hwrite : (k.page done content).write code k'.state = k.page done content := by
    unfold Page.write Page.tokenTo Kind.page
    dsimp only
    rw [hwritten]
    simp
  rw [Page.move, hwrite]
  unfold Kind.page
  rw [closed_eq]

/-- Where a line starts the scan settles in the state of its kind. -/
theorem settle_page (hbar : '|' ∉ l) (hk : k.runs = true) (done content : String) :
    (k.page done content).settle code l following hopLimit =
      if kindOf l = k then k.page done content else (kindOf l).page (done ++ k.wrap content) "" := by
  have hnext := nextState_of_kindOf hbar following hk
  split
  · rename_i hl
    rw [if_pos hl] at hnext
    exact settle_of_none code hopLimit hnext
  · rename_i hl
    rw [if_neg hl] at hnext
    have hmove := move_page code hk hl done content
    by_cases hfence : kindOf l = .fence
    · rw [hfence] at hnext hmove ⊢
      rw [settle_of_fence code hopLimit hnext]
      exact hmove
    · have hstays : nextState l following (kindOf l).state = none := by
        cases hruns : (kindOf l).runs with
        | true => rw [nextState_of_kindOf hbar following hruns, if_pos rfl]
        | false =>
          revert hfence hruns
          cases kindOf l with
          | fence => intro h; exact absurd rfl h
          | heading | rule => intros; rfl
          | quote | ordered | unordered | paragraph => intro _ h; cases h
      have hstate : (kindOf l).state ≠ .block .fence :=
        fun h => hfence (Kind.state_injective (h.trans rfl))
      rw [hopLimit, settle_succ code 15 hnext hstate, hmove]
      exact settle_of_none code 15 hstays

theorem line_page (hbar : '|' ∉ l) (hk : k.runs = true) (done content : String) :
    (k.page done content).line code l following =
      if kindOf l = k then { k.page done content with token := String.ofList l }
      else { (kindOf l).page (done ++ k.wrap content) "" with token := String.ofList l } := by
  have hstate : (k.page done content).state ≠ .block .fence := by
    intro h
    have hfence : k = .fence := Kind.state_injective (h.trans rfl)
    rw [hfence] at hk
    cases hk
  rw [Page.line, if_neg hstate, settle_page code hbar hk]
  split <;> simp [Page.keep, Kind.page]

/-- A line of the region is added to it. -/
theorem endLine_page (hk : k.runs = true) (hl : kindOf l = k) (done content : String) :
    Page.endLine code { k.page done content with token := String.ofList l } =
      k.page done (content ++ k.line (content = "") l) := by
  have hwrite : Page.endLine code { k.page done content with token := String.ofList l } =
      Page.write code k.state { k.page done content with token := String.ofList l } := by
    cases k with
    | fence | heading | rule => cases hk
    | quote | ordered | unordered | paragraph => rfl
  have hfence : k ≠ .fence := by
    rintro rfl
    cases hk
  have hwritten := written_line code hl hfence (content = "") (Or.inl rfl)
  rw [hwrite]
  unfold Page.write Page.tokenTo Kind.page
  dsimp only
  rw [hwritten]

/-- A line of another kind starts another region. -/
theorem line_page_other (hbar : '|' ∉ l) (hk : k.runs = true) (hruns : (kindOf l).runs = true)
    (hl : kindOf l ≠ k) (done content : String) :
    (k.page done content).line code l following =
      ((kindOf l).page (done ++ k.wrap content) "").line code l following := by
  rw [line_page code hbar hk, line_page code hbar hruns, if_neg hl, if_pos rfl]

/-- The last line of a text is written as far as it is shown. -/
theorem finish_page (hl : kindOf l = k) (hk : k ≠ .fence) (hne : l ≠ []) (done content : String) :
    Page.finish code { k.page done content with token := String.ofList l } =
      done ++ k.wrap (k.content content (k.shown [l])) := by
  have hwritten : Progress.written (table code) none
      { text := String.ofList l, source := k.state, target := .paragraph, before := none,
        fresh := content = "" } = if k.shown [l] = [l] then k.line (content = "") l else "" := by
    split
    · rename_i hshown
      exact written_line code hl hk _ (Or.inr ⟨hne, hshown⟩)
    · rename_i hshown
      have htarget : State.paragraph ≠ k.state := by
        intro h
        have hpar : k = .paragraph := Kind.state_injective (h.symm.trans rfl)
        exact hshown (by rw [hpar]; simp [Kind.shown])
      exact written_unshown code hl hshown htarget _
  unfold Page.finish Page.write Page.tokenTo Kind.page
  dsimp only
  rw [hwritten, closed_eq]
  unfold Kind.content
  by_cases hshown : k.shown [l] = [l]
  · rw [if_pos hshown, hshown]
    rfl
  · have hnone : k.shown [l] = [] := by
      unfold Kind.shown at hshown ⊢
      split at hshown
      · rename_i h
        rw [if_pos h]
        rfl
      · exact absurd rfl hshown
    rw [if_neg hshown, hnone]
    simp

/-- A heading and a rule end with their line. -/
theorem endLine_single (hl : kindOf l = k) (hk : k = .heading ∨ k = .rule) (done : String) :
    Page.endLine code { k.page done "" with token := String.ofList l } =
      Kind.paragraph.page (done ++ k.wrap (k.content "" [l])) "" := by
  have hmove : Page.endLine code { k.page done "" with token := String.ofList l } =
      Page.move code .paragraph { k.page done "" with token := String.ofList l } := by
    rcases hk with rfl | rfl <;> rfl
  have hshown : k.shown [l] = [l] := by
    rcases hk with rfl | rfl <;> simp [Kind.shown]
  have hfence : k ≠ .fence := by
    rcases hk with rfl | rfl <;> simp
  have hne : l ≠ [] := by
    rintro rfl
    rcases hk with rfl | rfl <;> exact absurd hl (by decide)
  have hfinish := finish_page code hl hfence hne done ""
  rw [hshown] at hfinish
  rw [hmove, ← hfinish]
  rfl

end Pages

/-! ## Fences -/

section Fences

variable (code : String → String → String) {opening : List Char}

/-- The newline before the line that closes a fence is no part of its body. -/
theorem dropNewline_closed (body : List (List Char)) :
    dropNewline (unlines (body ++ [[]])) = unlines body := by
  rw [unlines_concat]
  split
  · rename_i hbody
    rw [hbody]
    rfl
  · simp [dropNewline]

/-- A line that is not empty does not end in a newline. -/
theorem dropNewline_open (body : List (List Char)) {l : List Char} (hl : IsLine l) (hne : l ≠ []) :
    dropNewline (unlines (body ++ [l])) = unlines (body ++ [l]) := by
  rw [dropNewline, if_neg (getLast?_unlines_ne body hl hne)]

/-- The fence of a token that is made of lines. -/
theorem ofToken_lines (hopening : IsLine opening) (body : List (List Char)) :
    Fence.ofToken (String.ofList (opening ++ body.flatMap ('\n' :: ·))) =
      { label := String.ofList (Line.fenceLabel opening)
        body := String.ofList (dropNewline (unlines body)) } := by
  have hbody : (body.flatMap ('\n' :: ·)).drop 1 = unlines body := by cases body <;> rfl
  unfold Fence.ofToken
  dsimp only
  rw [String.toList_ofList, takeWhile_line hopening, dropWhile_line hopening, hbody]

/-- The token of a fence is written when the fence is left. -/
theorem finish_fence (done : String) (token : List Char) :
    Page.finish code { Kind.fence.page done "" with token := String.ofList token } =
      done ++ (Fence.ofToken (String.ofList token)).markup code := by
  unfold Page.finish Page.write Kind.page
  rw [closed_eq]
  show done ++ ("" ++ (Fence.ofToken (String.ofList token)).markup code) = _
  simp

/-- The last line of a text is read without a newline. -/
theorem scan_last {l : List Char} (hl : l ≠ []) (pg : Page) :
    pg.scan code [l] = pg.line code l none := by
  rw [Page.scan, if_neg hl]

/-- A page inside a fence: what was read of it, as lines. -/
def fencePage (done : String) (opening : List Char) (body : List (List Char)) : Page :=
  { Kind.fence.page done "" with
    token := String.ofList (opening ++ body.flatMap ('\n' :: ·)) }

/-- A line of a fence closes it or goes into its body. -/
theorem line_fence (hopening : IsLine opening) (done : String) (body : List (List Char))
    (l : List Char) (following : Option (List Char)) :
    (fencePage done opening (body ++ [[]])).line code l following =
      if Line.closesFence l then
        Kind.paragraph.page (done ++ fenceMarkup code (opening :: body)) ""
      else fencePage done opening (body ++ [l]) := by
  have hclosed : (fencePage done opening (body ++ [[]])).finish code =
      done ++ fenceMarkup code (opening :: body) := by
    rw [fencePage, finish_fence, ofToken_lines hopening, dropNewline_closed]
    rfl
  unfold Page.line
  rw [if_pos (show (fencePage done opening (body ++ [[]])).state = .block .fence from rfl)]
  split
  · rw [← hclosed]
    rfl
  · simp [fencePage, Page.keep, Kind.page, String.ofList_append, String.append_assoc]

/-- A newline in a fence is kept. -/
theorem endLine_fence (done : String) (body : List (List Char)) :
    (fencePage done opening body).endLine code = fencePage done opening (body ++ [[]]) := by
  show (fencePage done opening body).keep ['\n'] = _
  simp [fencePage, Page.keep, Kind.page, String.ofList_append, String.append_assoc]

/-- A text may end where a paragraph could start. -/
theorem finish_blank (done : String) : (Kind.paragraph.page done "").finish code = done := by
  show done ++ "" = done
  simp

/-- The rest of the line that closes a fence adds nothing. -/
theorem endLine_closed (done : String) :
    (Kind.paragraph.page done "").endLine code = Kind.paragraph.page done "" := rfl

/-- The lines of a fence are its body, up to one that closes it or to the end of the text. -/
theorem finish_scan_fence (hopening : IsLine opening) {lines : List (List Char)}
    (hlines : ∀ x ∈ lines, IsLine x) (hne : lines ≠ []) (hlast : lines.getLast? ≠ some [])
    (body : List (List Char)) (done : String) :
    (Page.scan code (fencePage done opening (body ++ [[]])) lines).finish code =
      (Page.scan code (Kind.paragraph.page
        (done ++ fenceMarkup code (opening :: (body ++ lines.takeWhile Kind.fence.takes))) "")
        (Kind.fence.rest lines)).finish code := by
  induction lines generalizing body with
  | nil => exact absurd rfl hne
  | cons l lines ih =>
    have hline : IsLine l := hlines l (List.mem_cons_self ..)
    cases hcloses : Line.closesFence l with
    | true =>
      -- the fence ends here
      have htakes : Kind.fence.takes l = false := by simp [Kind.takes, hcloses]
      have hrest : Kind.fence.rest (l :: lines) = lines := by simp [Kind.rest, htakes]
      have hbody : (l :: lines).takeWhile Kind.fence.takes = [] := by simp [htakes]
      rw [hrest, hbody, List.append_nil]
      cases lines with
      | nil =>
        have hl : l ≠ [] := by simpa using hlast
        rw [scan_last code hl, line_fence code hopening, if_pos hcloses]
        rfl
      | cons l' lines =>
        rw [Page.scan, line_fence code hopening, if_pos hcloses, endLine_closed]
    | false =>
      have htakes : Kind.fence.takes l = true := by simp [Kind.takes, hcloses]
      have hcloses' : ¬ Line.closesFence l = true := by simp [hcloses]
      have hrest : Kind.fence.rest (l :: lines) = Kind.fence.rest lines := by
        simp [Kind.rest, htakes]
      have hbody : body ++ (l :: lines).takeWhile Kind.fence.takes =
          body ++ [l] ++ lines.takeWhile Kind.fence.takes := by simp [htakes]
      rw [hrest, hbody]
      cases lines with
      | nil =>
        have hl : l ≠ [] := by simpa using hlast
        rw [scan_last code hl, line_fence code hopening, if_neg hcloses', fencePage,
          finish_fence, ofToken_lines hopening, dropNewline_open body hline hl]
        simp only [List.takeWhile_nil, List.append_nil]
        exact (finish_blank code _).symm
      | cons l' lines =>
        rw [Page.scan, line_fence code hopening, if_neg hcloses', endLine_fence]
        exact ih (fun x hx => hlines x (List.mem_cons_of_mem _ hx)) (by simp)
          (by simpa [List.getLast?_cons_cons] using hlast) (body ++ [l])

end Fences

/-! ## From region to region -/

section Regions

variable (code : String → String → String)

theorem regions_cons (l : List Char) (lines : List (List Char)) :
    regions (l :: lines) =
      { kind := kindOf l, lines := l :: lines.takeWhile (kindOf l).takes } ::
        regions ((kindOf l).rest lines) := by
  rw [regions]

theorem takes_of_runs {k : Kind} (hk : k.runs = true) (l : List Char) :
    k.takes l = decide (kindOf l = k) := by
  cases k with
  | fence | heading | rule => cases hk
  | quote | ordered | unordered | paragraph => rfl

theorem rest_of_runs {k : Kind} (hk : k.runs = true) (lines : List (List Char)) :
    k.rest lines = lines.dropWhile k.takes := by
  cases k with
  | fence | heading | rule => cases hk
  | quote | ordered | unordered | paragraph => rfl

/-- The lines that a region goes on with, as far as they are shown. -/
def Kind.own (k : Kind) (lines : List (List Char)) : List (List Char) :=
  if lines.dropWhile k.takes = [] then k.shown (lines.takeWhile k.takes)
  else lines.takeWhile k.takes

theorem own_nil (k : Kind) : k.own [] = [] := by
  simp [Kind.own, Kind.shown]

theorem own_of_takes {k : Kind} {l : List Char} (hl : k.takes l = true) {lines : List (List Char)}
    (hne : lines ≠ []) : k.own (l :: lines) = l :: k.own lines := by
  unfold Kind.own
  rw [List.dropWhile_cons_of_pos hl, List.takeWhile_cons_of_pos hl]
  split
  · rename_i hdrop
    -- all lines are taken, so the last one is among those after `l`
    have htake : lines.takeWhile k.takes = lines := by
      have happend := List.takeWhile_append_dropWhile (p := k.takes) (l := lines)
      rwa [hdrop, List.append_nil] at happend
    rw [htake]
    cases lines with
    | nil => exact absurd rfl hne
    | cons l' lines =>
      unfold Kind.shown
      rw [List.getLast?_cons_cons]
      split <;> rfl
  · rfl

theorem own_of_not_takes {k : Kind} {l : List Char} (hl : k.takes l = false)
    (lines : List (List Char)) : k.own (l :: lines) = [] := by
  simp [Kind.own, hl]

theorem wrap_empty (k : Kind) : k.wrap "" = "" := by
  cases k <;> rfl

theorem markup_of_ne_fence {k : Kind} (hk : k ≠ .fence) (lines : List (List Char)) :
    LineRegion.markup code { kind := k, lines } = k.wrap (k.content "" lines) := by
  cases k with
  | fence => exact absurd rfl hk
  | heading | rule | quote | ordered | unordered | paragraph => rfl

/-- A region is cut where the text ends with it. -/
theorem regionsMarkup_cons (r : LineRegion) (lines : List (List Char)) :
    regionsMarkup code (r :: regions lines) =
      (if lines = [] then { r with lines := r.kind.shown r.lines : LineRegion } else r).markup code ++
        regionsMarkup code (regions lines) := by
  cases lines with
  | nil => simp [regions, regionsMarkup]
  | cons l lines =>
    rw [regions_cons]
    rfl

/-- Lines start with those of a region that is not there yet. -/
theorem regionsMarkup_split {k : Kind} (hk : k.runs = true) (lines : List (List Char)) :
    regionsMarkup code (regions lines) =
      k.wrap (k.content "" (k.own lines)) ++
        regionsMarkup code (regions (lines.dropWhile k.takes)) := by
  have hfence : k ≠ .fence := by
    rintro rfl
    cases hk
  have hnone : k.wrap (k.content "" []) = "" := wrap_empty k
  cases lines with
  | nil => simp [own_nil, hnone]
  | cons l lines =>
    have htakes := takes_of_runs hk l
    by_cases hl : kindOf l = k
    · rw [decide_eq_true hl] at htakes
      rw [regions_cons, hl, rest_of_runs hk, regionsMarkup_cons,
        List.dropWhile_cons_of_pos htakes]
      unfold Kind.own
      rw [List.dropWhile_cons_of_pos htakes, List.takeWhile_cons_of_pos htakes]
      split <;> rw [markup_of_ne_fence code hfence]
    · rw [decide_eq_false hl] at htakes
      rw [own_of_not_takes htakes, hnone, List.dropWhile_cons_of_neg (by simp [htakes])]
      simp

/-- The markup of a region of its own is followed by that of the rest. -/
theorem regionsMarkup_block {l : List Char} (hl : (kindOf l).runs = false)
    (lines : List (List Char)) :
    regionsMarkup code (regions (l :: lines)) =
      LineRegion.markup code
          { kind := kindOf l, lines := l :: lines.takeWhile (kindOf l).takes } ++
        regionsMarkup code (regions ((kindOf l).rest lines)) := by
  have hshown : ∀ ls, (kindOf l).shown ls = ls := by
    intro ls
    have hquote : kindOf l ≠ .quote := by
      intro h
      rw [h] at hl
      cases hl
    simp [Kind.shown, hquote]
  rw [regions_cons, regionsMarkup_cons]
  split
  · rw [hshown]
  · rfl

/-- A region of its own closes the one before it. -/
theorem finish_scan_block {l : List Char} {lines : List (List Char)}
    (hlines : ∀ x ∈ l :: lines, IsLine x) (hbar : '|' ∉ l)
    (hlast : (l :: lines).getLast? ≠ some [])
    (hl : (kindOf l).runs = false) {k : Kind} (hk : k.runs = true) (done content : String) :
    (Page.scan code (k.page done content) (l :: lines)).finish code =
      (Page.scan code (Kind.paragraph.page (done ++ k.wrap content ++
        LineRegion.markup code
          { kind := kindOf l, lines := l :: lines.takeWhile (kindOf l).takes }) "")
        ((kindOf l).rest lines)).finish code := by
  have hother : kindOf l ≠ k := by
    rintro rfl
    rw [hl] at hk
    cases hk
  obtain ⟨hline, hrest⟩ := List.forall_mem_cons.1 hlines
  have hpage : ∀ following, (k.page done content).line code l following =
      { (kindOf l).page (done ++ k.wrap content) "" with token := String.ofList l } := by
    intro following
    rw [line_page code hbar hk, if_neg hother]
  by_cases hfence : kindOf l = .fence
  · rw [hfence] at hpage ⊢
    have hopens : { Kind.fence.page (done ++ k.wrap content) "" with token := String.ofList l } =
        fencePage (done ++ k.wrap content) l [] := by
      simp [fencePage]
    cases lines with
    | nil =>
      have hl : l ≠ [] := by simpa using hlast
      rw [scan_last code hl, hpage, hopens, fencePage, finish_fence, ofToken_lines hline]
      exact (finish_blank code _).symm
    | cons l' lines =>
      rw [Page.scan, hpage, hopens, endLine_fence]
      exact finish_scan_fence code hline hrest (by simp)
        (by simpa [List.getLast?_cons_cons] using hlast) [] _
  · have hsingle : kindOf l = .heading ∨ kindOf l = .rule := by
      revert hl hfence
      cases kindOf l <;> simp [Kind.runs]
    have hown : lines.takeWhile (kindOf l).takes = [] ∧ (kindOf l).rest lines = lines := by
      rcases hsingle with h | h <;> rw [h] <;> cases lines <;> simp [Kind.takes, Kind.rest]
    rw [hown.1, hown.2, markup_of_ne_fence code hfence]
    cases lines with
    | nil =>
      have hl : l ≠ [] := by simpa using hlast
      have hshown : (kindOf l).shown [l] = [l] := by
        rcases hsingle with h | h <;> rw [h] <;> simp [Kind.shown]
      rw [scan_last code hl, hpage, finish_page code rfl hfence hl, hshown]
      exact (finish_blank code _).symm
    | cons l' lines =>
      rw [Page.scan, hpage, endLine_single code rfl hsingle]

/-- What is left after a region is the end of the lines. -/
theorem rest_suffix (k : Kind) (lines : List (List Char)) : k.rest lines <:+ lines := by
  have hdrop : lines.dropWhile k.takes <:+ lines := List.dropWhile_suffix _
  cases k with
  | fence => exact (List.drop_suffix 1 _).trans hdrop
  | heading | rule | quote | ordered | unordered | paragraph => exact hdrop

/-- What is left after a region ends as the lines do. -/
theorem getLast?_of_suffix {α : Type} {xs ys : List α} (h : xs <:+ ys) (hne : xs ≠ []) :
    xs.getLast? = ys.getLast? := by
  obtain ⟨zs, rfl⟩ := h
  rw [List.getLast?_append, List.getLast?_eq_some_getLast hne, Option.some_or]

/-- A line of another kind starts its region as if the one before were closed. -/
theorem scan_page_other {l : List Char} {lines : List (List Char)} (hbar : '|' ∉ l)
    (hlast : (l :: lines).getLast? ≠ some []) {k : Kind} (hk : k.runs = true)
    (hruns : (kindOf l).runs = true) (hl : kindOf l ≠ k) (done content : String) :
    Page.scan code (k.page done content) (l :: lines) =
      Page.scan code ((kindOf l).page (done ++ k.wrap content) "") (l :: lines) := by
  cases lines with
  | nil =>
    have hl' : l ≠ [] := by simpa using hlast
    rw [scan_last code hl', scan_last code hl', line_page_other code hbar hk hruns hl]
  | cons l' lines => rw [Page.scan, Page.scan, line_page_other code hbar hk hruns hl]

/-- A page shows the open region with the lines that belong to it, and the regions of the
lines after them. -/
def ShowsRegions (code : String → String → String) (lines : List (List Char)) : Prop :=
  ∀ k : Kind, k.runs = true → ∀ done content : String,
    (Page.scan code (k.page done content) lines).finish code =
      done ++ k.wrap (k.content content (k.own lines)) ++
        regionsMarkup code (regions (lines.dropWhile k.takes))

/-- A line of the open region belongs to it. -/
theorem finish_scan_same {l : List Char} {lines : List (List Char)} (hbar : '|' ∉ l)
    (hlast : (l :: lines).getLast? ≠ some []) (hrest : lines ≠ [] → ShowsRegions code lines)
    {k : Kind} (hk : k.runs = true) (hl : kindOf l = k) (done content : String) :
    (Page.scan code (k.page done content) (l :: lines)).finish code =
      done ++ k.wrap (k.content content (k.own (l :: lines))) ++
        regionsMarkup code (regions ((l :: lines).dropWhile k.takes)) := by
  have htakes : k.takes l = true := by rw [takes_of_runs hk, decide_eq_true hl]
  have hfence : k ≠ .fence := by
    rintro rfl
    cases hk
  rw [List.dropWhile_cons_of_pos htakes]
  cases lines with
  | nil =>
    have hl' : l ≠ [] := by simpa using hlast
    rw [scan_last code hl', line_page code hbar hk, if_pos hl, finish_page code hl hfence hl']
    simp [Kind.own, htakes, regions, regionsMarkup]
  | cons l' lines =>
    rw [Page.scan, line_page code hbar hk, if_pos hl, endLine_page code hk hl,
      own_of_takes htakes (by simp)]
    exact hrest (by simp) k hk _ _

/-- **A page shows its regions**, the open one first. -/
theorem finish_scan {lines : List (List Char)} (hlines : ∀ l ∈ lines, IsLine l ∧ '|' ∉ l)
    (hne : lines ≠ []) (hlast : lines.getLast? ≠ some []) : ShowsRegions code lines := by
  -- a region of its own takes several lines at once, so the induction is on their number
  induction hn : lines.length using Nat.strongRecOn generalizing lines with
  | ind n ih =>
  intro k hk done content
  cases lines with
  | nil => exact absurd rfl hne
  | cons l lines =>
    have hbar := (hlines l (List.mem_cons_self ..)).2
    have hafter : ∀ {after}, after <:+ lines → after ≠ [] → ShowsRegions code after := by
      intro after hsuffix hne
      have hlt : after.length < n := by
        have hle := hsuffix.length_le
        rw [← hn, List.length_cons]
        omega
      have hends := getLast?_of_suffix (hsuffix.trans (List.suffix_cons l lines)) hne
      exact ih _ hlt (fun x hx => hlines x (List.mem_cons_of_mem _ (hsuffix.mem hx))) hne
        (by rwa [hends]) rfl
    have hrest := hafter (List.suffix_refl lines)
    by_cases hl : kindOf l = k
    · exact finish_scan_same code hbar hlast hrest hk hl done content
    · have htakes : k.takes l = false := by rw [takes_of_runs hk, decide_eq_false hl]
      rw [own_of_not_takes htakes, List.dropWhile_cons_of_neg (by simp [htakes])]
      cases hruns : (kindOf l).runs with
      | true =>
        rw [scan_page_other code hbar hlast hk hruns hl,
          finish_scan_same code hbar hlast hrest hruns rfl, String.append_assoc,
          ← regionsMarkup_split code hruns]
        rfl
      | false =>
        rw [finish_scan_block code (fun x hx => (hlines x hx).1) hbar hlast hruns hk,
          regionsMarkup_block code hruns]
        by_cases hnil : (kindOf l).rest lines = []
        · rw [hnil]
          show (Kind.paragraph.page _ "").finish code = _
          rw [finish_blank]
          simp [Kind.content, regions, regionsMarkup, String.append_assoc]
        · rw [hafter (rest_suffix _ _) hnil .paragraph rfl, String.append_assoc, ← regionsMarkup_split code rfl]
          simp [Kind.content, String.append_assoc]

end Regions

/-- Blocks of lines without bars are their regions. -/
theorem run_eq_regionsMarkup (code : String → String → String) {text : String}
    (hbar : '|' ∉ text.toList) (hlast : text.toList.getLast? ≠ some '\n') :
    (table code).run text = regionsMarkup code (regions (splitOn '\n' text.toList)) := by
  rw [run_eq_finish]
  by_cases hne : text.toList = []
  · have hregions : regions (splitOn '\n' []) = [{ kind := .paragraph, lines := [[]] }] := by
      simp [splitOn, regions, show kindOf [] = .paragraph by decide, Kind.rest]
    rw [hne, hregions]
    exact finish_blank code ""
  · have hlines : ∀ l ∈ splitOn '\n' text.toList, IsLine l ∧ '|' ∉ l := fun l hl =>
      ⟨isLine_of_mem_splitOn hl, fun hmem => hbar (mem_of_mem_line hl hmem)⟩
    have hscan := finish_scan code hlines (splitOn_ne_nil _ _)
      (getLast?_splitOn_ne hne hlast) .paragraph rfl "" ""
    rw [String.append_assoc, ← regionsMarkup_split code rfl, String.empty_append] at hscan
    exact hscan

end Block

/-- **An answer without bars is rendered line by line**: its markup is that of its regions. -/
theorem render_eq_plain (highlightCode : Bool) {text : String} (hbar : '|' ∉ text.toList)
    (hreturn : '\r' ∉ text.toList) :
    render { typingCursor := false, highlightCode } text =
      Block.plain (Options.code { typingCursor := false, highlightCode }) text := by
  have hprepare : (prepare text).toList = dropEndWhile (· == '\n') text.toList := by
    rw [prepare, String.toList_ofList, unifyLineEnds_of_not_mem hreturn]
  have hbar' : '|' ∉ (prepare text).toList := by
    obtain ⟨tail, htail, -⟩ := dropEndWhile_append (· == '\n') text.toList
    rw [hprepare]
    intro h
    exact hbar (by rw [htail]; exact List.mem_append_left _ h)
  have hrun := Block.run_eq_regionsMarkup
    (Options.code { typingCursor := false, highlightCode }) hbar' (getLast?_prepare text)
  rw [hprepare] at hrun
  rw [render, if_neg (by simp), hrun, Block.plain]

/-- A heading, joined lines, and a quote that ends with the text and a blank line. -/
theorem plain_heading_paragraph_quote :
    Block.plain (Options.code { typingCursor := false, highlightCode := true })
        "# a\nb\n\n*c*\n> d\n>\n> e\n>" =
      "<h1>a</h1>b<br><br><em>c</em><blockquote>d<br><br>e</blockquote>" :=
  (render_eq_plain true (by decide) (by decide)).symm.trans (by decide +kernel)

end Markup
end AnswerStream
