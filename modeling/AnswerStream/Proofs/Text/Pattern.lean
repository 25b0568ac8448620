import AnswerStream.Text.Search

/-!
# Patterns

A pattern says what to look for in a text: words, runs of characters of a kind, one thing after the
other, one thing or another, and parts that are remembered under a number.  There may be several
ways in which a pattern fits the beginning of a text, and they are tried in a fixed order: the first
of two alternatives before the second, a long run before a short one if the run is greedy, and the
short one first if it is not.  `Pattern.ways` lists them in that order, and `Pattern.first?` is the
one that counts.

## Order

The order matters only if there is more than one way.  What the ways are, apart from their order, is
said by one lemma for each kind of pattern (`mem_ways_word` and those after it).  A pattern that
fits in one way only is thus known without a look at the order (`first?_eq_some_of_unique`).

## Replacing

`Replaces` describes what comes out if all that a pattern finds is replaced: a text is read from
left to right, a character is copied where the pattern does not fit, and where it fits what was
found is replaced and the reading goes on behind it.  What comes out is determined
(`Replaces.unique`).
-/

namespace AnswerStream
namespace Text

/-- What is looked for at the beginning of a text. -/
inductive Pattern where
  /-- The characters `w`. -/
  | word (w : List Char)
  /-- At least `least` characters that satisfy `p`: as many as there are if the run is greedy, and
  otherwise as few. -/
  | run (greedy : Bool) (least : Nat) (p : Char → Bool)
  /-- First `a` and then `b`. -/
  | andThen (a b : Pattern)
  /-- Either `a` or `b`, and rather `a`. -/
  | orElse (a b : Pattern)
  /-- What `a` finds, which is remembered under the number `n`. -/
  | group (n : Nat) (a : Pattern)

/-- What a pattern found at the beginning of a text. -/
structure Match where
  /-- What was found. -/
  text : List Char
  /-- The parts that are remembered. -/
  groups : List (Nat × List Char)
  /-- What follows. -/
  rest : List Char

namespace Match

/-- The part remembered under the number `n`, if that part of the pattern was used. -/
def group? (m : Match) (n : Nat) : Option (List Char) := m.groups.lookup n

/-- A match, and another one that was found behind it. -/
def append (m k : Match) : Match where
  text := m.text ++ k.text
  groups := m.groups ++ k.groups
  rest := k.rest

/-- A match that starts one character before. -/
def cons (c : Char) (m : Match) : Match := { m with text := c :: m.text }

end Match

namespace Pattern

/-- The ways to cut a text after a run of characters that satisfy `p`, the preferred one first. -/
def cuts (greedy : Bool) (p : Char → Bool) : List Char → List (List Char × List Char)
  | [] => [([], [])]
  | c :: cs =>
    let longer := if p c then (cuts greedy p cs).map fun s => (c :: s.1, s.2) else []
    if greedy then longer ++ [([], c :: cs)] else ([], c :: cs) :: longer

/-- The ways in which a pattern fits the beginning of a text, the preferred one first. -/
def ways : Pattern → List Char → List Match
  | word w, cs =>
    if w.isPrefixOf cs then [{ text := w, groups := [], rest := cs.drop w.length }] else []
  | run greedy least p, cs =>
    ((cuts greedy p cs).filter fun s => decide (least ≤ s.1.length)).map fun s =>
      { text := s.1, groups := [], rest := s.2 }
  | andThen a b, cs => (a.ways cs).flatMap fun m => (b.ways m.rest).map m.append
  | orElse a b, cs => a.ways cs ++ b.ways cs
  | group n a, cs => (a.ways cs).map fun m => { m with groups := (n, m.text) :: m.groups }

/-- What a pattern finds at the beginning of a text. -/
def first? (P : Pattern) (cs : List Char) : Option Match := (P.ways cs).head?

/-! ## The ways apart from their order -/

theorem mem_cuts_cons {greedy : Bool} {p : Char → Bool} {c : Char} {cs as bs : List Char} :
    (as, bs) ∈ cuts greedy p (c :: cs) ↔ as = [] ∧ bs = c :: cs ∨
      p c = true ∧ ∃ as', as = c :: as' ∧ (as', bs) ∈ cuts greedy p cs := by
  have hlonger :
      (as, bs) ∈ (if p c then (cuts greedy p cs).map fun s => (c :: s.1, s.2) else []) ↔
        p c = true ∧ ∃ as', as = c :: as' ∧ (as', bs) ∈ cuts greedy p cs := by
    by_cases hc : p c = true
    · rw [if_pos hc, List.mem_map, and_iff_right hc]
      constructor
      · rintro ⟨⟨as', bs'⟩, h, heq⟩
        cases heq
        exact ⟨as', rfl, h⟩
      · rintro ⟨as', rfl, h⟩
        exact ⟨(as', bs), h, rfl⟩
    · simp [hc]
  rw [cuts, ← hlonger, ← Prod.mk.injEq]
  cases greedy with
  | false => exact List.mem_cons
  | true => exact List.mem_append.trans (or_comm.trans (or_congr_left List.mem_singleton))

theorem mem_cuts {greedy : Bool} {p : Char → Bool} {cs as bs : List Char} :
    (as, bs) ∈ cuts greedy p cs ↔ cs = as ++ bs ∧ ∀ c ∈ as, p c = true := by
  induction cs generalizing as with
  | nil =>
    rw [cuts, List.mem_singleton, Prod.mk.injEq]
    constructor
    · rintro ⟨rfl, rfl⟩
      exact ⟨rfl, by simp⟩
    · intro h
      exact List.append_eq_nil_iff.1 h.1.symm
  | cons c cs ih =>
    rw [mem_cuts_cons]
    constructor
    · rintro (⟨rfl, rfl⟩ | ⟨hc, as', rfl, h⟩)
      · exact ⟨rfl, by simp⟩
      · obtain ⟨rfl, has⟩ := ih.1 h
        exact ⟨rfl, List.forall_mem_cons.2 ⟨hc, has⟩⟩
    · rintro ⟨h, has⟩
      cases as with
      | nil => exact Or.inl ⟨rfl, h.symm⟩
      | cons a as =>
        obtain ⟨rfl, rfl⟩ := List.cons.inj h
        obtain ⟨hc, has⟩ := List.forall_mem_cons.1 has
        exact Or.inr ⟨hc, as, rfl, ih.2 ⟨rfl, has⟩⟩

variable {cs w : List Char} {m : Match}

theorem mem_ways_word :
    m ∈ (word w).ways cs ↔ ∃ rest, cs = w ++ rest ∧ m = { text := w, groups := [], rest } := by
  rw [ways]
  split
  · rename_i hw
    obtain ⟨rest, rfl⟩ := List.isPrefixOf_iff_prefix.1 hw
    simp
  · rename_i hw
    refine ⟨fun h => absurd h (List.not_mem_nil), ?_⟩
    rintro ⟨rest, rfl, -⟩
    exact absurd (List.isPrefixOf_iff_prefix.2 (List.prefix_append ..)) hw

theorem mem_ways_run {greedy : Bool} {least : Nat} {p : Char → Bool} :
    m ∈ (run greedy least p).ways cs ↔ ∃ as bs, cs = as ++ bs ∧ (∀ c ∈ as, p c = true) ∧
      least ≤ as.length ∧ m = { text := as, groups := [], rest := bs } := by
  rw [ways, List.mem_map]
  constructor
  · rintro ⟨⟨as, bs⟩, h, rfl⟩
    obtain ⟨hcut, hleast⟩ := List.mem_filter.1 h
    obtain ⟨rfl, has⟩ := mem_cuts.1 hcut
    exact ⟨as, bs, rfl, has, of_decide_eq_true hleast, rfl⟩
  · rintro ⟨as, bs, rfl, has, hleast, rfl⟩
    exact ⟨(as, bs), List.mem_filter.2 ⟨mem_cuts.2 ⟨rfl, has⟩, decide_eq_true hleast⟩, rfl⟩

theorem mem_ways_andThen {a b : Pattern} :
    m ∈ (andThen a b).ways cs ↔ ∃ k ∈ a.ways cs, ∃ l ∈ b.ways k.rest, m = k.append l := by
  simp [ways, eq_comm]

theorem mem_ways_orElse {a b : Pattern} :
    m ∈ (orElse a b).ways cs ↔ m ∈ a.ways cs ∨ m ∈ b.ways cs := by
  simp [ways]

theorem mem_ways_group {n : Nat} {a : Pattern} :
    m ∈ (group n a).ways cs ↔
      ∃ k ∈ a.ways cs, m = { k with groups := (n, k.text) :: k.groups } := by
  simp [ways, eq_comm]

/-- A word, and the ways to go on behind it. -/
theorem mem_ways_word_andThen {b : Pattern} :
    m ∈ (andThen (word w) b).ways cs ↔ ∃ rest, ∃ k ∈ b.ways rest, cs = w ++ rest ∧
      m = { text := w ++ k.text, groups := k.groups, rest := k.rest } := by
  rw [mem_ways_andThen]
  constructor
  · rintro ⟨_, hword, k, hk, rfl⟩
    obtain ⟨rest, rfl, rfl⟩ := mem_ways_word.1 hword
    exact ⟨rest, k, hk, rfl, rfl⟩
  · rintro ⟨rest, k, hk, rfl, rfl⟩
    exact ⟨_, mem_ways_word.2 ⟨rest, rfl, rfl⟩, k, hk, rfl⟩

/-- A run that is remembered, and the ways to go on behind it. -/
theorem mem_ways_run_andThen {n least : Nat} {greedy : Bool} {p : Char → Bool} {b : Pattern} :
    m ∈ (andThen (group n (run greedy least p)) b).ways cs ↔ ∃ as rest, ∃ k ∈ b.ways rest,
      cs = as ++ rest ∧ (∀ c ∈ as, p c = true) ∧ least ≤ as.length ∧
        m = { text := as ++ k.text, groups := (n, as) :: k.groups, rest := k.rest } := by
  rw [mem_ways_andThen]
  constructor
  · rintro ⟨_, hgroup, k, hk, rfl⟩
    obtain ⟨_, hrun, rfl⟩ := mem_ways_group.1 hgroup
    obtain ⟨as, rest, rfl, has, hleast, rfl⟩ := mem_ways_run.1 hrun
    exact ⟨as, rest, k, hk, rfl, has, hleast, rfl⟩
  · rintro ⟨as, rest, k, hk, rfl, has, hleast, rfl⟩
    exact ⟨_, mem_ways_group.2 ⟨_, mem_ways_run.2 ⟨as, rest, rfl, has, hleast, rfl⟩, rfl⟩, k, hk,
      rfl⟩

/-- What a pattern finds is what the text begins with. -/
theorem append_rest_of_mem {P : Pattern} (h : m ∈ P.ways cs) : m.text ++ m.rest = cs := by
  induction P generalizing cs m with
  | word w =>
    obtain ⟨rest, rfl, rfl⟩ := mem_ways_word.1 h
    rfl
  | run greedy least p =>
    obtain ⟨as, bs, rfl, -, -, rfl⟩ := mem_ways_run.1 h
    rfl
  | andThen a b iha ihb =>
    obtain ⟨k, hk, l, hl, rfl⟩ := mem_ways_andThen.1 h
    rw [← iha hk, ← ihb hl]
    exact List.append_assoc ..
  | orElse a b iha ihb => exact (mem_ways_orElse.1 h).elim iha ihb
  | group n a ih =>
    obtain ⟨k, hk, rfl⟩ := mem_ways_group.1 h
    have hcut := ih hk
    exact hcut

/-! ## The way that counts -/

theorem mem_of_first? {P : Pattern} (h : P.first? cs = some m) : m ∈ P.ways cs :=
  List.mem_of_head? h

theorem first?_eq_none {P : Pattern} : P.first? cs = none ↔ P.ways cs = [] :=
  List.head?_eq_none_iff

/-- Where all ways find the same, that is what is found. -/
theorem first?_eq_some_of_unique {P : Pattern} (h : m ∈ P.ways cs)
    (hall : ∀ k ∈ P.ways cs, k = m) : P.first? cs = some m := by
  rw [first?]
  cases hways : P.ways cs with
  | nil => rw [hways] at h; cases h
  | cons k ks => rw [List.head?_cons, hall k (hways ▸ List.mem_cons_self ..)]

/-- The first alternative is taken if it fits. -/
theorem first?_orElse (a b : Pattern) (cs : List Char) :
    (orElse a b).first? cs = (a.first? cs).or (b.first? cs) := by
  rw [first?, ways, List.head?_append]
  rfl

/-- The first way to go on is taken. -/
theorem first?_andThen (a b : Pattern) (cs : List Char) :
    (andThen a b).first? cs =
      (a.ways cs).findSome? fun m => (b.first? m.rest).map m.append := by
  rw [first?, ways, List.head?_flatMap]
  simp only [List.head?_map]
  rfl

theorem first?_word (w cs : List Char) :
    (word w).first? cs =
      if w.isPrefixOf cs then some { text := w, groups := [], rest := cs.drop w.length }
      else none := by
  rw [first?, ways]
  split <;> rfl

theorem ways_andThen (a b : Pattern) (cs : List Char) :
    (andThen a b).ways cs = (a.ways cs).flatMap fun m => (b.ways m.rest).map m.append := rfl

/-- A run that is not greedy ends at once if what follows it fits, and otherwise takes a character
more. -/
theorem ways_reluctant_cons (p : Char → Bool) (b : Pattern) (c : Char) (cs : List Char) :
    (andThen (run false 0 p) b).ways (c :: cs) = b.ways (c :: cs) ++
      if p c then ((andThen (run false 0 p) b).ways cs).map (Match.cons c) else [] := by
  have hruns : ∀ ds, (run false 0 p).ways ds = (cuts false p ds).map fun s =>
      { text := s.1, groups := [], rest := s.2 } := by
    intro ds
    rw [ways, List.filter_eq_self.2 (by simp)]
  have hnext : (run false 0 p).ways (c :: cs) = { text := [], groups := [], rest := c :: cs } ::
      if p c then ((run false 0 p).ways cs).map (Match.cons c) else [] := by
    rw [hruns, hruns, cuts]
    by_cases hc : p c = true <;> simp [hc, Match.cons]
  rw [ways_andThen, ways_andThen, hnext, List.flatMap_cons]
  -- either the run ends here, or every way to go on is one character longer
  congr 1
  · exact List.map_id _
  · split
    · have heach : ∀ m : Match, (b.ways (m.cons c).rest).map (m.cons c).append =
          ((b.ways m.rest).map m.append).map (Match.cons c) := by
        intro m
        rw [List.map_map]
        rfl
      rw [List.flatMap_map, List.map_flatMap]
      simp only [heach]
    · rfl

theorem ways_reluctant_nil (p : Char → Bool) (b : Pattern) :
    (andThen (run false 0 p) b).ways [] = b.ways [] := by
  rw [ways_andThen, ways, cuts]
  simp only [List.length_nil, Nat.le_refl, decide_true, List.filter_cons_of_pos, List.filter_nil,
    List.map_cons, List.map_nil, List.flatMap_cons, List.flatMap_nil, List.append_nil]
  exact List.map_id _

/-- A run of any characters that is not greedy ends where the word behind it is found first. -/
theorem first?_upTo (hw : w ≠ []) (cs : List Char) :
    (andThen (run false 0 fun _ => true) (word w)).first? cs =
      if (splitAtText w cs).2 = [] then none
      else some {
        text := (splitAtText w cs).1 ++ w
        groups := []
        rest := (splitAtText w cs).2.drop w.length } := by
  induction cs with
  | nil =>
    have hno : w.isPrefixOf [] = false := by
      cases w with
      | nil => exact absurd rfl hw
      | cons d ds => rfl
    rw [first?, ways_reluctant_nil, ← first?, first?_word, hno]
    rfl
  | cons c cs ih =>
    have hsplit : splitAtText w (c :: cs) = if w.isPrefixOf (c :: cs) then ([], c :: cs)
        else (c :: (splitAtText w cs).1, (splitAtText w cs).2) := rfl
    rw [first?, ways_reluctant_cons, List.head?_append, ← first?, first?_word, if_pos rfl,
      List.head?_map, ← first?, ih, hsplit]
    cases w.isPrefixOf (c :: cs) with
    | true => rfl
    | false =>
      rw [if_neg Bool.false_ne_true, if_neg Bool.false_ne_true, Option.none_or]
      by_cases hnone : (splitAtText w cs).2 = []
      · rw [if_pos hnone, if_pos hnone]
        rfl
      · rw [if_neg hnone, if_neg hnone]
        rfl

example : ((andThen (run false 0 fun _ => true) (word ['b'])).first? ['a', 'b', 'b']).map
    Match.text = some ['a', 'b'] := by decide

end Pattern

/-! ## Replacing -/

/-- What comes out of a text, read from left to right, if whatever `P` finds is replaced by `f`. -/
inductive Replaces (P : Pattern) (f : Match → List Char) : List Char → List Char → Prop
  | nil : Replaces P f [] []
  /-- Where nothing is found a character is copied. -/
  | copy {c : Char} {cs out : List Char} (none : P.first? (c :: cs) = none)
    (rest : Replaces P f cs out) : Replaces P f (c :: cs) (c :: out)
  /-- What is found is replaced, and not read again. -/
  | replace {m : Match} {cs out : List Char} (first : P.first? cs = some m) (found : m.text ≠ [])
    (rest : Replaces P f m.rest out) : Replaces P f cs (f m ++ out)

/-- What comes out is determined. -/
theorem Replaces.unique {P : Pattern} {f : Match → List Char} {cs out out' : List Char}
    (h : Replaces P f cs out) (h' : Replaces P f cs out') : out = out' := by
  induction h generalizing out' with
  | nil =>
    cases h' with
    | nil => rfl
    | replace first found _ =>
      have hcut := Pattern.append_rest_of_mem (Pattern.mem_of_first? first)
      exact absurd (List.append_eq_nil_iff.1 hcut).1 found
  | copy none _ ih =>
    cases h' with
    | copy _ rest => rw [ih rest]
    | replace first _ _ => rw [none] at first; cases first
  | replace first found _ ih =>
    cases h' with
    | nil =>
      have hcut := Pattern.append_rest_of_mem (Pattern.mem_of_first? first)
      exact absurd (List.append_eq_nil_iff.1 hcut).1 found
    | copy none _ => rw [none] at first; cases first
    | replace first' _ rest =>
      rw [first] at first'
      cases first'
      rw [ih rest]

end Text
end AnswerStream
