import AnswerStream.Proofs.Markup.Tag

/-!
# Nesting of tags

A reader of markup keeps the elements that are open, the innermost first.  An
opening tag adds its element, unless the element is void, and a closing tag takes
the innermost one away, which has to have its name.  `WellNested m` says that a
reader who starts with nothing open never meets a wrong closing tag and ends with
nothing open.

## What surrounds markup does not matter

Well nested markup leaves whatever is open as it was (`wellNested_iff_neutral`), so
it can be put together and wrapped.  The converse needs care: markup that is not well
nested might be mended by what surrounds it, when its closing tags meet elements that
were opened before.  Here they never do: inside a line no element is opened that also
stands around a line.  `Nests c m` therefore says of markup that it is well nested if
`c` holds, and that otherwise a reader fails in it whatever block elements are open.
This is kept by concatenation and wrapping, and from it `c` is the exact condition
under which the whole is well nested (`Nests.wellNested_iff`).
-/

namespace AnswerStream
namespace Markup

/-- The elements that have no closing tag. -/
def voidNames : List (List Char) := ["br", "hr", "img"].map String.toList

namespace Segment

/-- The name of the element that an opening tag opens. -/
def name (inside : List Char) : List Char := inside.takeWhile (· ≠ ' ')

/-- What reading a segment makes of the open elements, the innermost first.  A closing
tag has to close the innermost one. -/
def step (opened : List (List Char)) : Segment → Option (List (List Char))
  | char _ => some opened
  | tag ('/' :: closed) =>
    match opened with
    | [] => none
    | top :: rest => if top = closed then some rest else none
  | tag inside => some (if name inside ∈ voidNames then opened else name inside :: opened)

end Segment

/-- What reading segments makes of the open elements. -/
def walk (opened : List (List Char)) (segs : List Segment) : Option (List (List Char)) :=
  segs.foldlM Segment.step opened

/-- The tags of markup are properly nested: every closing tag closes the element that
was opened last and is still open, and nothing is left open. -/
def WellNested (m : List Char) : Prop := walk [] (segments m) = some []

instance (m : List Char) : Decidable (WellNested m) :=
  inferInstanceAs (Decidable (walk [] (segments m) = some []))

@[simp] theorem walk_nil (opened : List (List Char)) : walk opened [] = some opened := rfl

@[simp] theorem walk_cons (opened : List (List Char)) (s : Segment) (segs : List Segment) :
    walk opened (s :: segs) = (s.step opened).bind fun o => walk o segs := rfl

theorem walk_append (opened : List (List Char)) (as bs : List Segment) :
    walk opened (as ++ bs) = (walk opened as).bind fun o => walk o bs := by
  simp only [walk, List.foldlM_append]
  rfl

/-- Text changes nothing. -/
@[simp] theorem walk_text (opened : List (List Char)) (cs : List Char) :
    walk opened (cs.map .char) = some opened := by
  induction cs with
  | nil => rfl
  | cons c cs ih => simpa [Segment.step] using ih

/-! ## Elements that were open before -/

/-- What a reader does with the elements opened last does not depend on those that
were open before. -/
theorem step_append {opened rest : List (List Char)} {s : Segment}
    {o : List (List Char)} (h : s.step opened = some o) :
    s.step (opened ++ rest) = some (o ++ rest) := by
  unfold Segment.step at h ⊢
  split at h
  · rw [← Option.some.inj h]
  · cases opened with
    | nil => simp at h
    | cons top opened =>
      simp only [List.cons_append] at h ⊢
      split at h
      · rw [← Option.some.inj h, if_pos ‹_›]
      · simp at h
  · rw [← Option.some.inj h]
    split <;> rfl

theorem walk_append_opened (rest : List (List Char)) {opened : List (List Char)}
    {segs : List Segment} {o : List (List Char)} (h : walk opened segs = some o) :
    walk (opened ++ rest) segs = some (o ++ rest) := by
  induction segs generalizing opened with
  | nil =>
    rw [← Option.some.inj h]
    rfl
  | cons s segs ih =>
    obtain ⟨p, hp, ho⟩ := Option.bind_eq_some_iff.1 h
    rw [walk_cons, step_append hp]
    exact ih ho

/-- Markup that leaves the open elements as they were. -/
def Neutral (m : List Char) : Prop := ∀ opened, walk opened (segments m) = some opened

/-- Well nested markup leaves whatever is open as it was. -/
theorem wellNested_iff_neutral {m : List Char} : WellNested m ↔ Neutral m := by
  constructor
  · intro h opened
    simpa using walk_append_opened opened h
  · intro h
    exact h []

/-- A segment closes the element `n`. -/
def Segment.Closes (n : List Char) (s : Segment) : Prop := s = .tag ('/' :: n)

/-- A reader that does not close the element that was opened last before does with the
others what it would do without the ones opened before. -/
theorem walk_append_of_not_closes (opened : List (List Char)) {rest : List (List Char)}
    {segs : List Segment} (h : ∀ n ∈ rest.head?, ∀ s ∈ segs, ¬ s.Closes n) :
    walk (opened ++ rest) segs = (walk opened segs).map (· ++ rest) := by
  induction segs generalizing opened with
  | nil => rfl
  | cons s segs ih =>
    have ih := fun o => ih o fun n hn q hq => h n hn q (List.mem_cons_of_mem _ hq)
    cases hs : s.step opened with
    | some o =>
      rw [walk_cons, walk_cons, step_append hs, hs]
      exact ih o
    | none =>
      -- with nothing open, only a closing tag for the head of `rest` could go on
      have hfail : s.step (opened ++ rest) = none := by
        unfold Segment.step at hs ⊢
        split at hs
        · simp at hs
        · rename_i n
          cases opened with
          | nil =>
            cases rest with
            | nil => rfl
            | cons top rest =>
              have hne : top ≠ n := by
                rintro rfl
                exact h top rfl _ (List.mem_cons_self ..) rfl
              simp [hne]
          | cons top opened =>
            simp only [List.cons_append] at hs ⊢
            split at hs
            · simp at hs
            · rw [if_neg ‹_›]
        · simp at hs
      rw [walk_cons, walk_cons, hs, hfail]
      rfl

/-! ## Elements that are opened -/

/-- A segment opens the element `n`. -/
def Segment.Opens (n : List Char) (s : Segment) : Prop :=
  ∃ inside, s = .tag inside ∧ s.isOpening = true ∧ name inside = n

theorem isOpening_of_not_slash {inside : List Char} (h : ∀ closed, inside ≠ '/' :: closed) :
    (Segment.tag inside).isOpening = true ∧ (Segment.tag inside).isClosing = false := by
  unfold Segment.isOpening Segment.isClosing
  constructor
  · split
    · exact absurd (Segment.tag.inj ‹_›) (h _)
    · rfl
    · cases ‹Segment.tag inside = .char _›
  · split
    · exact absurd (Segment.tag.inj ‹_›) (h _)
    · rfl

/-- The elements that are open after a segment were open before, or are opened by it. -/
theorem mem_of_step {opened o : List (List Char)} {s : Segment} (h : s.step opened = some o) :
    ∀ n ∈ o, n ∈ opened ∨ s.Opens n := by
  intro n hn
  unfold Segment.step at h
  split at h
  · rw [← Option.some.inj h] at hn
    exact Or.inl hn
  · cases opened with
    | nil => simp at h
    | cons top opened =>
      simp only at h
      split at h
      · rw [← Option.some.inj h] at hn
        exact Or.inl (List.mem_cons_of_mem _ hn)
      · simp at h
  · rename_i inside hclosing
    rw [← Option.some.inj h] at hn
    split at hn
    · exact Or.inl hn
    · rcases List.mem_cons.1 hn with rfl | hn
      · have hslash : ∀ closed, inside ≠ '/' :: closed := fun closed heq => hclosing closed heq
        exact Or.inr ⟨inside, rfl, (isOpening_of_not_slash hslash).1, rfl⟩
      · exact Or.inl hn

theorem mem_of_walk {opened o : List (List Char)} {segs : List Segment}
    (h : walk opened segs = some o) : ∀ n ∈ o, n ∈ opened ∨ ∃ s ∈ segs, s.Opens n := by
  induction segs generalizing opened with
  | nil =>
    rw [← Option.some.inj h]
    exact fun n hn => Or.inl hn
  | cons s segs ih =>
    obtain ⟨p, hp, ho⟩ := Option.bind_eq_some_iff.1 h
    intro n hn
    rcases ih ho n hn with hn | ⟨q, hq, hn⟩
    · rcases mem_of_step hp n hn with hn | hn
      · exact Or.inl hn
      · exact Or.inr ⟨s, List.mem_cons_self .., hn⟩
    · exact Or.inr ⟨q, List.mem_cons_of_mem _ hq, hn⟩

/-- Without void elements, every opening tag adds an element and every closing tag takes
one away. -/
theorem length_of_step {opened o : List (List Char)} {s : Segment} (h : s.step opened = some o)
    (hvoid : ∀ n, s.Opens n → n ∉ voidNames) :
    o.length + [s].countP Segment.isClosing = opened.length + [s].countP Segment.isOpening := by
  unfold Segment.step at h
  split at h
  · rw [← Option.some.inj h]
    rfl
  · cases opened with
    | nil => simp at h
    | cons top opened =>
      simp only at h
      split at h
      · rw [← Option.some.inj h]
        simp [Segment.isClosing, Segment.isOpening]
      · simp at h
  · rename_i inside hclosing
    obtain ⟨hopening, hnot⟩ := isOpening_of_not_slash fun closed heq => hclosing closed heq
    rw [if_neg (hvoid _ ⟨inside, rfl, hopening, rfl⟩)] at h
    rw [← Option.some.inj h]
    simp [hopening, hnot]

theorem length_of_walk {opened o : List (List Char)} {segs : List Segment}
    (h : walk opened segs = some o) (hvoid : ∀ s ∈ segs, ∀ n, s.Opens n → n ∉ voidNames) :
    o.length + segs.countP Segment.isClosing =
      opened.length + segs.countP Segment.isOpening := by
  induction segs generalizing opened with
  | nil =>
    rw [← Option.some.inj h]
    rfl
  | cons s segs ih =>
    obtain ⟨p, hp, ho⟩ := Option.bind_eq_some_iff.1 h
    have hfirst := length_of_step hp (hvoid s (List.mem_cons_self ..))
    have hrest := ih ho fun q hq => hvoid q (List.mem_cons_of_mem _ hq)
    rw [← List.singleton_append, List.countP_append, List.countP_append]
    omega

/-! ## Parts of markup -/

/-- The names of elements hold neither white space nor a slash. -/
theorem name_not_space : ∀ n ∈ Tag.bareNames ++ Tag.closedNames ++ ["img"],
    ∀ c ∈ n.toList, c ≠ ' ' ∧ c ≠ '/' := by
  simp [Tag.bareNames, Tag.closedNames]

/-- An opening tag opens the element it names, unless that is void. -/
theorem step_opening {n : String} (hn : ∀ c ∈ n.toList, c ≠ ' ' ∧ c ≠ '/')
    (attributes : List (String × List Char)) (opened : List (List Char)) :
    (Segment.tag (Tag.opening n attributes).inside).step opened =
      some (if n.toList ∈ voidNames then opened else n.toList :: opened) := by
  have hspace : attributes.flatMap Tag.attributeText = [] ∨
      ∃ rest, attributes.flatMap Tag.attributeText = ' ' :: rest := by
    cases attributes with
    | nil => exact Or.inl rfl
    | cons a as => exact Or.inr ⟨_, rfl⟩
  have hname : Segment.name (Tag.opening n attributes).inside = n.toList := by
    have hall : ∀ c ∈ n.toList, decide (c ≠ ' ') = true := fun c hc => by simp [(hn c hc).1]
    rw [Segment.name, Tag.inside, List.takeWhile_append_of_pos hall]
    rcases hspace with h | ⟨rest, h⟩ <;> simp [h]
  have hslash : ∀ closed, (Tag.opening n attributes).inside ≠ '/' :: closed := by
    intro closed h
    rw [Tag.inside] at h
    cases hc : n.toList with
    | nil => rcases hspace with hs | ⟨rest, hs⟩ <;> simp [hc, hs] at h
    | cons c cs =>
      rw [hc, List.cons_append] at h
      exact (hn c (by simp [hc])).2 (List.cons.inj h).1
  unfold Segment.step
  split
  · rename_i heq
    cases heq
  · rename_i heq
    exact absurd (Segment.tag.inj heq) (hslash _)
  · rename_i heq
    rw [← Segment.tag.inj heq, hname]

/-- A closing tag closes its element if that was opened last. -/
theorem step_closing (n : String) (opened : List (List Char)) :
    (Segment.tag (Tag.closing n).inside).step (n.toList :: opened) = some opened := by
  simp [Tag.inside, Segment.step]

/-- An opening tag, whatever follows it. -/
theorem walk_opening {n : String} {attributes : List (String × List Char)}
    (h : (Tag.opening n attributes).Known)
    (hn : ∀ c ∈ n.toList, c ≠ ' ' ∧ c ≠ '/') (opened : List (List Char)) (rest : List Char) :
    walk opened (segments ((Tag.opening n attributes).source ++ rest)) =
      walk (if n.toList ∈ voidNames then opened else n.toList :: opened) (segments rest) := by
  have hread := segments_source_append (a := .tag (.opening n attributes)) h rest
  rw [Atom.source, Atom.segments] at hread
  rw [hread, List.singleton_append, walk_cons, step_opening hn]
  rfl

/-- A closing tag that closes the element opened last, whatever follows it. -/
theorem walk_closing {n : String} (h : (Tag.closing n).Known) (opened : List (List Char))
    (rest : List Char) :
    walk (n.toList :: opened) (segments ((Tag.closing n).source ++ rest)) =
      walk opened (segments rest) := by
  have hread := segments_source_append (a := .tag (.closing n)) h rest
  rw [Atom.source, Atom.segments] at hread
  rw [hread, List.singleton_append, walk_cons, step_closing]
  rfl

/-- A closing tag can only be read when the element opened last has its name. -/
theorem eq_of_walk_closing {n : String} (h : (Tag.closing n).Known) {top : List Char}
    {opened o : List (List Char)} {rest : List Char}
    (hread : walk (top :: opened) (segments ((Tag.closing n).source ++ rest)) = some o) :
    top = n.toList := by
  have hsegs := segments_source_append (a := .tag (.closing n)) h rest
  rw [Atom.source, Atom.segments] at hsegs
  rw [hsegs, List.singleton_append, walk_cons] at hread
  obtain ⟨p, hp, _⟩ := Option.bind_eq_some_iff.1 hread
  by_cases htop : top = n.toList
  · exact htop
  · simp [Segment.step, Tag.inside, htop] at hp

theorem MadeOf.walk_append {m : List Char} (h : MadeOf Tag.Known m)
    (opened : List (List Char)) (rest : List Char) :
    walk opened (segments (m ++ rest)) =
      (walk opened (segments m)).bind fun o => walk o (segments rest) := by
  rw [h.segments_append, Markup.walk_append]

/-- Two texts that are read alike are read alike after the same part. -/
theorem MadeOf.walk_append_congr {m l r : List Char} (h : MadeOf Tag.Known m)
    (hlr : ∀ o, walk o (segments l) = walk o (segments r)) (opened : List (List Char)) :
    walk opened (segments (m ++ l)) = walk opened (segments (m ++ r)) := by
  rw [h.walk_append, h.walk_append]
  congr 1
  funext o
  exact hlr o

/-- Text without left brackets leaves the open elements as they were. -/
theorem neutral_text {cs : List Char} (h : ∀ c ∈ cs, c ≠ '<') : Neutral cs := by
  intro opened
  have hread := segments_text_append h []
  rw [List.append_nil] at hread
  rw [hread]
  simp [segments, Segment.read]

/-! ## Tidy markup -/

/-- Markup whose tags satisfy `T` and are properly nested. -/
structure Tidy (T : Tag → Prop) (m : List Char) : Prop where
  /-- It is made of known parts. -/
  made : MadeOf T m
  /-- It leaves the open elements as they were. -/
  neutral : Neutral m

namespace Tidy

variable {T : Tag → Prop} (hT : ∀ t, T t → t.Known)
include hT

theorem append {m n : List Char} (hm : Tidy T m) (hn : Tidy T n) : Tidy T (m ++ n) := by
  refine ⟨hm.made.append hn.made, fun opened => ?_⟩
  rw [(hm.made.mono hT).walk_append, hm.neutral opened]
  exact hn.neutral opened

/-- Tidy markup inside an element. -/
theorem wrap {n : String} {attributes : List (String × List Char)} {m : List Char}
    (ho : T (.opening n attributes)) (hc : T (.closing n))
    (hn : n ∈ Tag.closedNames) (h : Tidy T m) :
    Tidy T ((Tag.opening n attributes).source ++ m ++ (Tag.closing n).source) := by
  have hvoid : n.toList ∉ voidNames :=
    (by decide : ∀ n ∈ Tag.closedNames, n.toList ∉ voidNames) n hn
  refine ⟨((MadeOf.tag ho).append h.made).append (MadeOf.tag hc), fun opened => ?_⟩
  rw [List.append_assoc, walk_opening (hT _ ho) (name_not_space n (by simp [hn])), if_neg hvoid,
    (h.made.mono hT).walk_append, h.neutral]
  have hend := walk_closing (hT _ hc) opened []
  rw [List.append_nil] at hend
  exact hend

omit hT in
theorem mono {S : Tag → Prop} (hST : ∀ t, S t → T t) {m : List Char} (h : Tidy S m) : Tidy T m :=
  ⟨h.made.mono hST, h.neutral⟩

omit hT in
theorem nil : Tidy T [] := ⟨MadeOf.nil, fun _ => rfl⟩

omit hT in
/-- Text without brackets and ampersands is tidy. -/
theorem text {cs : List Char} (h : ∀ c ∈ cs, c ≠ '<' ∧ c ≠ '>' ∧ c ≠ '&') : Tidy T cs :=
  ⟨MadeOf.text h, neutral_text fun c hc => (h c hc).1⟩

omit hT in
/-- Escaped text is tidy. -/
theorem escape (s : String) : Tidy T (Text.escape s).toList := by
  refine ⟨MadeOf.escape s, neutral_text ?_⟩
  rintro c hc rfl
  exact (Text.not_bracket_mem_escape s).1 hc

/-- Tidy markup can take the place of a literal word. -/
theorem substitute {w : List Char} (hw : ∀ c ∈ w, Literal T c) (hne : w ≠ [])
    {l r m : List Char} (h : Tidy T (l ++ w ++ r)) (hm : Tidy T m) : Tidy T (l ++ m ++ r) := by
  obtain ⟨hl, hr⟩ := h.made.of_append_word hw hne
  have hword : MadeOf Tag.Known w := MadeOf.text fun c hc => (hw c hc).plain
  have hneutral : Neutral w := neutral_text fun c hc => (hw c hc).plain.1
  refine ⟨(hl.append hm.made).append hr, fun opened => ?_⟩
  rw [← h.neutral opened, List.append_assoc, List.append_assoc]
  refine (hl.mono hT).walk_append_congr (fun o => ?_) opened
  rw [(hm.made.mono hT).walk_append, hm.neutral, hword.walk_append, hneutral]

end Tidy

/-! ## Markup that nests under a condition -/

/-- The elements that stand around the markup of a line. -/
def blockNames : List String :=
  ["blockquote", "ul", "ol", "li", "table", "thead", "tr", "th", "td", "h1", "h2", "h3", "h4",
   "h5", "h6"]

/-- Markup that is properly nested if `c` holds, and in which a reader fails if `c`
does not, whatever block elements are open. -/
structure Nests (c : Prop) (m : List Char) : Prop where
  /-- It is made of known parts. -/
  made : MadeOf Tag.Known m
  /-- Under the condition it leaves the open elements as they were. -/
  neutral : c → Neutral m
  /-- Without it, a reader fails. -/
  jams : ¬ c → ∀ opened : List (List Char),
    (∀ n ∈ opened, n ∈ blockNames.map String.toList) → walk opened (segments m) = none

namespace Nests

/-- The condition is exact. -/
theorem wellNested_iff {c : Prop} {m : List Char} (h : Nests c m) : WellNested m ↔ c := by
  constructor
  · intro hm
    by_cases hc : c
    · exact hc
    · have hfail := h.jams hc [] (by simp)
      rw [WellNested, hfail] at hm
      cases hm
  · intro hc
    exact wellNested_iff_neutral.2 (h.neutral hc)

theorem congr {c d : Prop} {m : List Char} (h : Nests c m) (hcd : c ↔ d) : Nests d m := by
  rw [propext hcd] at h
  exact h

/-- Tidy markup nests under no condition. -/
theorem of_tidy {m : List Char} (h : Tidy Tag.Known m) : Nests True m :=
  ⟨h.made, fun _ => h.neutral, fun hn => absurd trivial hn⟩

theorem append {c d : Prop} {m n : List Char} (hm : Nests c m) (hn : Nests d n) :
    Nests (c ∧ d) (m ++ n) := by
  refine ⟨hm.made.append hn.made, fun h opened => ?_, fun h opened ho => ?_⟩
  · rw [hm.made.walk_append, hm.neutral h.1 opened]
    exact hn.neutral h.2 opened
  · rw [hm.made.walk_append]
    -- the reader gets to the first of the two that does not nest
    by_cases hc : c
    · rw [hm.neutral hc opened]
      exact hn.jams (fun hd => h ⟨hc, hd⟩) opened ho
    · rw [hm.jams hc opened ho]
      rfl

/-- Tidy markup can be taken off the end. -/
theorem of_append_tidy {c : Prop} {m n : List Char} (hn : Tidy Tag.Known n)
    (hb : Between Tag.Known m n) (h : Nests c (m ++ n)) : Nests c m := by
  obtain ⟨hmade, _⟩ := h.made.of_append hb
  have hwalk : ∀ opened, walk opened (segments (m ++ n)) = walk opened (segments m) := by
    intro opened
    rw [hmade.walk_append]
    cases hread : walk opened (segments m) with
    | none => rfl
    | some o => exact hn.neutral o
  refine ⟨hmade, fun hc opened => ?_, fun hc opened ho => ?_⟩
  · rw [← hwalk]
    exact h.neutral hc opened
  · rw [← hwalk]
    exact h.jams hc opened ho

/-- A block element around markup changes nothing of the condition. -/
theorem wrap {c : Prop} {n : String} (hn : n ∈ blockNames) {m : List Char} (h : Nests c m) :
    Nests c ((Tag.opening n []).source ++ m ++ (Tag.closing n).source) := by
  have hbare : n ∈ Tag.bareNames := (by decide : ∀ n ∈ blockNames, n ∈ Tag.bareNames) n hn
  have hclosed : n ∈ Tag.closedNames := (by decide : ∀ n ∈ blockNames, n ∈ Tag.closedNames) n hn
  have hvoid : n.toList ∉ voidNames :=
    (by decide : ∀ n ∈ Tag.closedNames, n.toList ∉ voidNames) n hclosed
  have hmade : MadeOf Tag.Known ((Tag.opening n []).source ++ m ++ (Tag.closing n).source) :=
    ((MadeOf.tag (.bare hbare)).append h.made).append (MadeOf.tag (.closing hclosed))
  refine ⟨hmade, fun hc => ?_, fun hc opened ho => ?_⟩
  · exact (Tidy.wrap (fun _ ht => ht) (.bare hbare) (.closing hclosed) hclosed
      ⟨h.made, h.neutral hc⟩).neutral
  · rw [List.append_assoc, walk_opening (.bare hbare) (name_not_space n (by simp [hbare])),
      if_neg hvoid, h.made.walk_append, h.jams hc]
    · rfl
    · intro o ho'
      rcases List.mem_cons.1 ho' with rfl | ho'
      · exact List.mem_map_of_mem hn
      · exact ho o ho'

end Nests

end Markup
end AnswerStream
