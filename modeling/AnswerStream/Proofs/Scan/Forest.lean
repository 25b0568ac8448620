import AnswerStream.Proofs.Scan.Invariant

/-!
# A run as a forest

What a run writes has a shape that its text no longer shows: some of it was written
as a finished token, some as consumed characters, and some as a region with entry
and exit text around it.  A `Forest` keeps that shape.  `Table.exists_forest` says
that every run is one, so what is to be said about the markup of a text can be
proved by induction on a forest, and nothing need be known of the scan itself.

## What a forest remembers

A leaf remembers how it was written: by the rules of a state, or by a transition of
that state that has a way of its own.  `Forest.Obeys` says that both are those of
the table.  The tokens of the forest are those of the run, in order, and those of
an empty region are among them although the region has no markup.

## What a shape does not depend on

The texts around the regions are written, never read: which transition fires and what a
token looks like is the same for all of them.  So one forest serves for a table and for
all tables that differ from it in these texts only (`Table.exists_shape`).  It is found by
running the table on forests in place of texts, which is what a `Grove` is.
-/

namespace AnswerStream
namespace Scan

open Text

variable {σ : Type}

/-- Whether a transition may write the characters `cs` where it moves to: it neither
drops them nor carries them into the next token, and there are none if it consumes
nothing. -/
structure Transition.Shows (tr : Transition σ) (cs : List Char) : Prop where
  not_drop : tr.place ≠ .drop
  not_carry : tr.place ≠ .carry
  eq_nil : tr.zeroWidth = true → cs = []

/-- What was written inside one region, in order.  It grows at its end. -/
inductive Forest (σ : Type) where
  /-- Nothing. -/
  | empty
  /-- A finished token, and the way of its own in which a transition wrote it. -/
  | token (before : Forest σ) (own : Option (Token σ → String)) (k : Token σ)
  /-- Characters consumed in the state `s`, and the way of its own in which a
  transition rewrote them. -/
  | taken (before : Forest σ) (s : σ) (own : Option (Char → String)) (cs : List Char)
  /-- A region of the state `s`. -/
  | region (before : Forest σ) (s : σ) (inside : Forest σ)

namespace Forest

/-- The markup of a forest. -/
def markup (t : Table σ) : Forest σ → String
  | empty => ""
  | token before own k => before.markup t ++ Progress.written t own k
  | taken before s own cs => before.markup t ++ Progress.rewritten t s own cs
  | region before s inside =>
    before.markup t ++ t.wrap { state := s, pair := none, content := inside.markup t }

/-- The tokens of a forest, in order. -/
def tokens : Forest σ → List (Token σ)
  | empty => []
  | token before _ k => before.tokens ++ [k]
  | taken before _ _ _ => before.tokens
  | region before _ inside => before.tokens ++ inside.tokens

/-- Every leaf was written as the rules of its state say, or as a transition of
that state says, and the characters of a leaf are some that the transition takes. -/
def Obeys (t : Table σ) : Forest σ → Prop
  | empty => True
  | token before own k =>
    before.Obeys t ∧ (own = none ∨ ∃ tr ∈ (t.rules k.source).transitions, own = tr.tokens)
  | taken before s own cs =>
    before.Obeys t ∧ ∃ tr ∈ (t.rules s).transitions, own = tr.chars ∧ tr.Shows cs
  | region before _ inside => before.Obeys t ∧ inside.Obeys t

end Forest

/-! ## Other wrappers -/

/-- The texts around the regions of each state. -/
structure Wrapper (σ : Type) where
  /-- The text that opens a region. -/
  entry : σ → String
  /-- The text that closes a region. -/
  exit : σ → String

namespace Table

/-- The same table with other texts around its regions. -/
def wrapped (t : Table σ) (w : Wrapper σ) : Table σ :=
  { t with rules := fun s => { t.rules s with entry := w.entry s, exit := w.exit s } }

/-- The texts that a table puts around its regions. -/
def wrapper (t : Table σ) : Wrapper σ where
  entry s := (t.rules s).entry
  exit s := (t.rules s).exit

@[simp] theorem wrapped_wrapper (t : Table σ) : t.wrapped t.wrapper = t := rfl

@[simp] theorem rewritten_wrapped (t : Table σ) (w : Wrapper σ) :
    Progress.rewritten (t.wrapped w) = Progress.rewritten t := rfl

/-- Only an empty region leaves nothing. -/
@[simp] theorem wrap_eq_empty {t : Table σ} {r : Region σ} : t.wrap r = "" ↔ r.content = "" := by
  unfold Table.wrap
  split
  · simp [*]
  · simp [*, String.append_eq_empty_iff]

end Table

/-- Whether a forest has markup does not depend on the texts around its regions. -/
theorem Forest.markup_wrapped_eq_empty (t : Table σ) (w : Wrapper σ) (f : Forest σ) :
    f.markup (t.wrapped w) = "" ↔ f.markup t = "" := by
  induction f with
  | empty => exact Iff.rfl
  | token before own k ih =>
    simp only [Forest.markup, String.append_eq_empty_iff]
    exact and_congr ih Iff.rfl
  | taken before s own cs ih =>
    simp only [Forest.markup, String.append_eq_empty_iff]
    exact and_congr ih Iff.rfl
  | region before s inside ihb ihi =>
    simp only [Forest.markup, String.append_eq_empty_iff, Table.wrap_eq_empty]
    exact and_congr ihb ihi

/-! ## A scan as a grove -/

/-- An open region with the forest of what was written inside it. -/
structure Bed (σ : Type) where
  /-- Its state. -/
  state : σ
  /-- The delimiter that opened it. -/
  pair : Option Char
  /-- What was written inside it. -/
  inside : Forest σ

/-- A scan under way with a forest in place of each text. -/
structure Grove (σ : Type) where
  /-- What was written outside every region. -/
  outside : Forest σ := .empty
  /-- The open regions, innermost first. -/
  beds : List (Bed σ) := []
  /-- The token being collected. -/
  pending : String := ""
  /-- The character of the input before that token. -/
  before : Option Char := none

namespace Grove

/-- The region of a bed, where regions are written as the table says. -/
def region (t : Table σ) (b : Bed σ) : Region σ where
  state := b.state
  pair := b.pair
  content := b.inside.markup t

/-- The scan of a grove, where regions are written as the table says. -/
def progress (t : Table σ) (g : Grove σ) : Progress σ where
  outside := g.outside.markup t
  regions := g.beds.map (region t)
  pending := g.pending
  before := g.before
  finished := g.beds.flatMap (fun b => b.inside.tokens.reverse) ++ g.outside.tokens.reverse

/-- Every forest of a grove obeys the table. -/
structure Obeys (t : Table σ) (g : Grove σ) : Prop where
  outside : g.outside.Obeys t
  inside : ∀ b ∈ g.beds, b.inside.Obeys t

end Grove

/-- A scan, given for all texts around its regions, grows: it is one grove, whatever
these texts are. -/
def Grows (t : Table σ) (P : Wrapper σ → Progress σ) : Prop :=
  ∃ g : Grove σ, g.Obeys t ∧ ∀ w, P w = g.progress (t.wrapped w)

namespace Grows

variable {t : Table σ} {P : Wrapper σ → Progress σ}

/-- Writing adds a leaf to the innermost forest.  The leaf may be a token that is
finished with it. -/
theorem write (h : Grows t P) (text : String) (ks : List (Token σ))
    (leaf : Forest σ → Forest σ)
    (hm : ∀ w f, (leaf f).markup (t.wrapped w) = f.markup (t.wrapped w) ++ text)
    (hk : ∀ f, (leaf f).tokens = f.tokens ++ ks) (ho : ∀ f, f.Obeys t → (leaf f).Obeys t) :
    Grows t fun w => { P w with finished := ks.reverse ++ (P w).finished }.write text := by
  obtain ⟨⟨outside, beds, pending, before⟩, ⟨hout, hin⟩, hg⟩ := h
  cases beds with
  | nil =>
    refine ⟨⟨leaf outside, [], pending, before⟩, ⟨ho _ hout, by simp⟩, fun w => ?_⟩
    simp [hg, Grove.progress, Progress.write, hm, hk]
  | cons b bs =>
    obtain ⟨s, pair, f⟩ := b
    refine ⟨⟨outside, ⟨s, pair, leaf f⟩ :: bs, pending, before⟩, ⟨hout, ?_⟩, fun w => ?_⟩
    · exact List.forall_mem_cons.2
        ⟨ho _ (List.forall_mem_cons.1 hin).1, (List.forall_mem_cons.1 hin).2⟩
    · simp [hg, Grove.progress, Grove.region, Progress.write, hm, hk]

/-- The token being collected is no part of a forest. -/
theorem collecting (h : Grows t P) (f : String → Option Char → String × Option Char) :
    Grows t fun w => { P w with
      pending := (f (P w).pending (P w).before).1
      before := (f (P w).pending (P w).before).2 } := by
  obtain ⟨g, ⟨hout, hin⟩, hg⟩ := h
  exact ⟨{ g with pending := (f g.pending g.before).1, before := (f g.pending g.before).2 },
    ⟨hout, hin⟩, fun w => by dsimp only; rw [hg w]; rfl⟩

/-- Entering a region starts an empty forest. -/
theorem enter (h : Grows t P) (s : σ) (pair : Option Char) :
    Grows t fun w => (P w).enter s pair := by
  obtain ⟨⟨outside, beds, pending, before⟩, ⟨hout, hin⟩, hg⟩ := h
  refine ⟨⟨outside, ⟨s, pair, .empty⟩ :: beds, pending, before⟩, ⟨hout, ?_⟩, fun w => ?_⟩
  · exact List.forall_mem_cons.2 ⟨trivial, hin⟩
  · simp [hg, Grove.progress, Grove.region, Progress.enter, Forest.markup, Forest.tokens]

/-- Leaving a region makes its forest a tree of the forest around it. -/
theorem leave (h : Grows t P) : Grows t fun w => (P w).leave (t.wrapped w) := by
  obtain ⟨⟨outside, beds, pending, before⟩, ⟨hout, hin⟩, hg⟩ := h
  have hw : ∀ w (b : Bed σ), (t.wrapped w).wrap
      { state := b.state, pair := b.pair, content := b.inside.markup (t.wrapped w) } =
        (t.wrapped w).wrap
          { state := b.state, pair := none, content := b.inside.markup (t.wrapped w) } :=
    fun w b => rfl
  cases beds with
  | nil =>
    refine ⟨⟨outside, [], pending, before⟩, ⟨hout, by simp⟩, fun w => ?_⟩
    simp [hg, Grove.progress, Progress.leave]
  | cons b bs =>
    obtain ⟨hb, hbs⟩ := List.forall_mem_cons.1 hin
    cases bs with
    | nil =>
      -- the last open region becomes a tree of the outer forest
      refine ⟨⟨.region outside b.state b.inside, [], pending, before⟩, ⟨⟨hout, hb⟩, by simp⟩,
        fun w => ?_⟩
      simp [hg, Grove.progress, Grove.region, Progress.leave, Progress.write, Forest.markup,
        Forest.tokens, hw]
    | cons b' bs =>
      obtain ⟨hb', hbs'⟩ := List.forall_mem_cons.1 hbs
      refine ⟨⟨outside, ⟨b'.state, b'.pair, .region b'.inside b.state b.inside⟩ :: bs, pending,
        before⟩, ⟨hout, List.forall_mem_cons.2 ⟨⟨hb', hb⟩, hbs'⟩⟩, fun w => ?_⟩
      simp [hg, Grove.progress, Grove.region, Progress.leave, Progress.write, Forest.markup,
        Forest.tokens, hw]

section Look

variable (g : Grove σ) (w : Wrapper σ)

/-! Where a scan stands does not depend on the texts around its regions. -/

theorem current_progress :
    (g.progress (t.wrapped w)).current (t.wrapped w) = (g.progress t).current t := by
  unfold Progress.current Grove.progress
  cases g.beds <;> rfl

theorem pair_progress : (g.progress (t.wrapped w)).pair = (g.progress t).pair := by
  unfold Progress.pair Grove.progress
  cases g.beds <;> rfl

theorem look_progress (before : List Char) (ch : Char) (after : List Char) :
    (g.progress (t.wrapped w)).look before ch after = (g.progress t).look before ch after := by
  unfold Progress.look
  rw [pair_progress]

/-- The same transition fires. -/
theorem firing_progress (before : List Char) (ch : Char) (after : List Char) :
    (g.progress (t.wrapped w)).firing (t.wrapped w) before ch after =
      (g.progress t).firing t before ch after := by
  unfold Progress.firing
  rw [current_progress, look_progress]
  rfl

theorem destination_progress (target : Target σ) :
    (g.progress (t.wrapped w)).destination (t.wrapped w) target =
      (g.progress t).destination t target := by
  cases target with
  | stay => exact current_progress g w
  | state s => rfl
  | pop =>
    unfold Progress.destination Grove.progress
    rcases g.beds with _ | ⟨b, _ | ⟨b', bs⟩⟩ <;> rfl

end Look

/-- What a token is does not depend on the texts around the regions. -/
theorem token_progress (g : Grove σ) (w : Wrapper σ) (source target : σ) :
    (g.progress (t.wrapped w)).token source target = (g.progress t).token source target := by
  have hfresh : (g.progress (t.wrapped w)).fresh = (g.progress t).fresh := by
    obtain ⟨outside, beds, pending, before⟩ := g
    cases beds with
    | nil => rfl
    | cons b bs =>
      simp [Grove.progress, Grove.region, Progress.fresh, Forest.markup_wrapped_eq_empty]
  unfold Progress.token
  rw [hfresh]
  rfl

/-- A finished token becomes a leaf. -/
theorem flush (h : Grows t P) (source target : σ) {own : Option (Token σ → String)}
    (ho : own = none ∨ ∃ tr ∈ (t.rules source).transitions, own = tr.tokens) :
    Grows t fun w => (P w).flush (t.wrapped w) source target own := by
  obtain ⟨g, hobeys, hg⟩ := h
  have hempty : Grows t fun w => { P w with pending := "", before := none } :=
    collecting ⟨g, hobeys, hg⟩ fun _ _ => ("", none)
  have hwrite := hempty.write (Progress.written t own ((g.progress t).token source target))
    [(g.progress t).token source target]
    (fun f => .token f own ((g.progress t).token source target)) (fun _ _ => rfl)
    (fun _ => rfl) (fun _ hf => ⟨hf, ho⟩)
  have heq : (fun w => (P w).flush (t.wrapped w) source target own) = fun w =>
      { P w with pending := "", before := none, finished :=
        [(g.progress t).token source target].reverse ++ (P w).finished }.write
          (Progress.written t own ((g.progress t).token source target)) := by
    funext w
    rw [hg w, Progress.flush, token_progress]
    rfl
  rw [heq]
  exact hwrite

/-- Consumed characters become a leaf of the place where they are written. -/
theorem taken (h : Grows t P) {s : σ} {tr : Transition σ}
    (htr : tr ∈ (t.rules s).transitions) {cs : List Char} (hcs : tr.Shows cs) :
    Grows t fun w => (P w).write (Progress.rewritten t s tr.chars cs) :=
  h.write _ [] (fun f => .taken f s tr.chars cs) (fun _ _ => rfl)
    (fun _ => (List.append_nil _).symm) (fun _ hf => ⟨hf, tr, htr, rfl, hcs⟩)

theorem reenter (h : Grows t P) : Grows t fun w => (P w).reenter (t.wrapped w) := by
  obtain ⟨g, ho, hg⟩ := h
  obtain rfl : P = fun w => g.progress (t.wrapped w) := funext hg
  have h : Grows t fun w => g.progress (t.wrapped w) := ⟨g, ho, fun _ => rfl⟩
  cases hb : g.beds with
  | nil =>
    have heq : (fun w => (g.progress (t.wrapped w)).reenter (t.wrapped w)) =
        fun w => (g.progress (t.wrapped w)).enter t.initial none := by
      funext w
      simp [Progress.reenter, Grove.progress, hb, Table.wrapped]
    rw [heq]
    exact h.enter _ _
  | cons b bs =>
    have heq : (fun w => (g.progress (t.wrapped w)).reenter (t.wrapped w)) =
        fun w => g.progress (t.wrapped w) := by
      funext w
      simp [Progress.reenter, Grove.progress, hb]
    rw [heq]
    exact h

theorem collect (h : Grows t P) (text : String) (before : List Char) :
    Grows t fun w => (P w).collect text before := by
  have heq : (fun w => (P w).collect text before) = fun w => { P w with
      pending := if text = "" then (P w).pending else (P w).pending ++ text
      before := if text ≠ "" ∧ (P w).pending = "" then before.head? else (P w).before } := by
    funext w
    unfold Progress.collect
    split
    · simp [*]
    · split <;> simp [*]
  rw [heq]
  exact h.collecting fun pending prev => (if text = "" then pending else pending ++ text,
    if text ≠ "" ∧ pending = "" then before.head? else prev)

/-- The text that a transition writes for the characters it consumes: none, if it
drops them. -/
theorem writeAt (h : Grows t P) {s : σ} {tr : Transition σ}
    (htr : tr ∈ (t.rules s).transitions) (here : Placement) (hd : here ≠ .drop)
    (hc : here ≠ .carry) {cs : List Char} (hz : tr.zeroWidth = true → cs = []) :
    Grows t fun w => (P w).writeAt here tr.place
      (if tr.place = .drop then "" else Progress.rewritten t s tr.chars cs) := by
  unfold Progress.writeAt
  split
  · rename_i hp
    rw [← hp, if_neg hd]
    exact h.taken htr ⟨hp ▸ hd, hp ▸ hc, hz⟩
  · exact h

/-- Moving to the target of a transition, with the characters it consumes written
between the regions if that is their place. -/
theorem move (h : Grows t P) (tr : Transition σ) (ch : Char) {text : String}
    (hw : ∀ Q, Grows t Q → Grows t fun w => (Q w).writeAt .between tr.place text) :
    Grows t fun w =>
      match tr.target with
      | .stay => (P w).writeAt .between tr.place text
      | .pop => (((P w).leave (t.wrapped w)).writeAt .between tr.place text).reenter (t.wrapped w)
      | .state s =>
        ((if tr.nested then P w else (P w).leave (t.wrapped w)).writeAt .between
          tr.place text).enter s (tr.delimiter ch) := by
  cases tr.target with
  | stay => exact hw P h
  | pop => exact (hw _ h.leave).reenter
  | state s =>
    cases tr.nested with
    | true => exact (hw P h).enter _ _
    | false => exact (hw _ h.leave).enter _ _

/-- The end of a transition: consumed characters open the region that was entered,
or the next token. -/
theorem land (h : Grows t P) (tr : Transition σ) (before : List Char) {text : String}
    (hw : tr.place = .opening → ∀ Q, Grows t Q → Grows t fun w => (Q w).write text) :
    Grows t fun w =>
      match tr.place with
      | .opening => (P w).write text
      | .carry => (P w).collect text before
      | _ => P w := by
  cases hp : tr.place with
  | opening => exact hw hp P h
  | carry => exact h.collect text before
  | closing | between | drop => exact h

/-- Following a transition of the state in which the scan stands keeps it one
grove. -/
theorem follow {g : Grove σ} (ho : g.Obeys t) {tr : Transition σ}
    (htr : tr ∈ (t.rules ((g.progress t).current t)).transitions) (before : List Char) (ch : Char)
    {cs : List Char} (hz : tr.zeroWidth = true → cs = []) :
    Grows t fun w => (g.progress (t.wrapped w)).follow (t.wrapped w) tr before ch cs := by
  have hdest : ∀ w, (g.progress (t.wrapped w)).destination (t.wrapped w) tr.target =
      (g.progress t).destination t tr.target := fun w => destination_progress g w tr.target
  have hcurrent : ∀ w, (g.progress (t.wrapped w)).current (t.wrapped w) =
      (g.progress t).current t := fun w => current_progress g w
  have hstart : Grows t fun w => g.progress (t.wrapped w) := ⟨g, ho, fun _ => rfl⟩
  have hflush := (hstart.flush ((g.progress t).current t) ((g.progress t).destination t tr.target)
    (Or.inr ⟨tr, htr, rfl⟩)).writeAt htr .closing (by decide) (by decide) hz
  have hmove := hflush.move tr ch fun Q hQ => hQ.writeAt htr .between (by decide) (by decide) hz
  unfold Progress.follow
  simp only [hdest, hcurrent, Table.rewritten_wrapped]
  refine hmove.land tr before fun hp Q hQ => ?_
  rw [if_neg (by rw [hp]; decide)]
  exact hQ.taken htr ⟨by rw [hp]; decide, by rw [hp]; decide, hz⟩

/-- Keeping a character adds to the token alone. -/
theorem keep {g : Grove σ} (ho : g.Obeys t) (before : List Char) (ch : Char) :
    Grows t fun w => (g.progress (t.wrapped w)).keep (t.wrapped w) before ch := by
  have hstart : Grows t fun w => g.progress (t.wrapped w) := ⟨g, ho, fun _ => rfl⟩
  have hcollect := hstart.collect (Progress.rewritten t ((g.progress t).current t) none [ch]) before
  unfold Progress.keep
  simp only [current_progress g]
  exact hcollect

end Grows

/-! ## A run as one forest -/

namespace Grows

variable {t : Table σ} {P : Wrapper σ → Progress σ}

/-- The groves of a scan become one forest when its regions are closed. -/
theorem close (h : Grows t P) :
    ∃ f : Forest σ, f.Obeys t ∧ ∀ w, f.tokens = (P w).finished.reverse ∧
      f.markup (t.wrapped w) = Progress.close (t.wrapped w) (P w).outside (P w).regions "" := by
  induction hn : (P t.wrapper).regions.length generalizing P with
  | zero =>
    obtain ⟨g, ho, hg⟩ := h
    have hb : g.beds = [] := by simpa [hg, Grove.progress] using hn
    refine ⟨g.outside, ho.outside, fun w => ⟨?_, ?_⟩⟩
    · simp [hg, Grove.progress, hb]
    · simp [hg, Grove.progress, hb, Progress.close]
  | succ n ih =>
    have hlength : ∀ w, (P w).regions.length = n + 1 := by
      obtain ⟨g, -, hg⟩ := h
      intro w
      simpa [hg, Grove.progress] using hn
    have hne : ∀ w, (P w).regions ≠ [] := fun w => List.ne_nil_of_length_eq_add_one (hlength w)
    obtain ⟨f, ho, hf⟩ := ih h.leave (by
      obtain ⟨r, rs, hr⟩ := List.exists_cons_of_ne_nil (hne t.wrapper)
      simpa [Progress.leave, hr] using hn)
    refine ⟨f, ho, fun w => ⟨?_, ?_⟩⟩
    · rw [(hf w).1, Progress.finished_leave]
    · rw [(hf w).2, Progress.close_eq_close_leave (hne w)]

variable [DecidableEq σ]

/-- Visiting a character keeps a scan one grove, and consumes the same characters
whatever the texts around the regions are. -/
theorem visit (h : Grows t P) (before : List Char) (ch : Char) (after : List Char) (hops : Nat) :
    ∃ n, Grows t (fun w => ((P w).visit (t.wrapped w) before ch after hops).1) ∧
      ∀ w, ((P w).visit (t.wrapped w) before ch after hops).2 = n := by
  induction hops using Nat.strongRecOn generalizing P with
  | ind hops ih =>
    obtain ⟨g, ho, hg⟩ := h
    obtain rfl : P = fun w => g.progress (t.wrapped w) := funext hg
    -- the same transition fires whatever is written around the regions
    have hfiring : ∀ w, (g.progress (t.wrapped w)).firing (t.wrapped w) before ch after =
        (g.progress t).firing t before ch after := fun w => firing_progress g w before ch after
    cases hfire : (g.progress t).firing t before ch after with
    | none =>
      simp only [fun w => Progress.visit_of_none ((hfiring w).trans hfire) hops]
      exact ⟨0, keep ho before ch, fun _ => rfl⟩
    | some tr =>
      have htr := List.mem_of_find?_eq_some hfire
      cases hz : tr.zeroWidth with
      | false =>
        simp only [fun w => Progress.visit_of_some ((hfiring w).trans hfire) hz hops,
          look_progress]
        exact ⟨_, follow ho htr before ch (by simp [hz]), fun _ => rfl⟩
      | true =>
        by_cases hspent : tr.moves ((g.progress t).current t) = true → hops = 0
        · simp only [fun w => Progress.visit_of_spent ((hfiring w).trans hfire) hz
            (by rwa [current_progress])]
          exact ⟨0, keep ho before ch, fun _ => rfl⟩
        · obtain ⟨hmoves, hleft⟩ := Classical.not_imp.1 hspent
          obtain ⟨hops, rfl⟩ := Nat.exists_eq_succ_of_ne_zero hleft
          simp only [fun w => Progress.visit_of_moves ((hfiring w).trans hfire) hz
            (by rwa [current_progress]) hops]
          exact ih hops (Nat.lt_succ_self hops) (follow ho htr before ch fun _ => rfl)

/-- A scan stays one grove to the end. -/
theorem scan (h : Grows t P) (before text : List Char) (skip : Nat) :
    Grows t fun w => (P w).scan (t.wrapped w) before text skip := by
  induction text generalizing before skip P with
  | nil => simpa [Progress.scan] using h
  | cons ch after ih =>
    cases skip with
    | succ skip => exact ih h _ _
    | zero =>
      obtain ⟨n, hv, hn⟩ := h.visit before ch after hopLimit
      unfold Progress.scan
      simp only [hn]
      exact ih hv _ _

end Grows

/-- A forest is the shape of the run of a text: its markup is that of the run whatever the
texts around the regions are, its tokens are those of the run, and it obeys the table. -/
structure Forest.IsShape [DecidableEq σ] (t : Table σ) (text : String) (f : Forest σ) :
    Prop where
  markup_eq : ∀ w, f.markup (t.wrapped w) = (t.wrapped w).run text
  tokens_eq : f.tokens = t.tokens text
  obeys : f.Obeys t

namespace Table

variable (t : Table σ) [DecidableEq σ]

/-- **Every run is a forest**, and which forest it is does not depend on the texts around
the regions. -/
theorem exists_shape (text : String) : ∃ f : Forest σ, f.IsShape t text := by
  have hstart : Grows t fun w => (t.wrapped w).start :=
    Grows.enter ⟨{}, ⟨trivial, by simp⟩, fun _ => rfl⟩ t.initial none
  obtain ⟨g, ho, hg⟩ := hstart.scan [] text.toList 0
  have hfinish : Grows t fun w => (t.wrapped w).finish text := by
    have hflush := Grows.flush ⟨g, ho, fun _ => rfl⟩ ((g.progress t).current t) t.initial
      (Or.inl rfl)
    unfold Table.finish
    simp only [hg, Grows.current_progress]
    exact hflush
  obtain ⟨f, hobeys, hf⟩ := hfinish.close
  exact ⟨f, fun w => (hf w).2, (hf t.wrapper).1, hobeys⟩

/-- The forest of a run. -/
theorem exists_forest (text : String) :
    ∃ f : Forest σ, f.markup t = t.run text ∧ f.tokens = t.tokens text ∧ f.Obeys t := by
  obtain ⟨f, hm, hk, ho⟩ := t.exists_shape text
  exact ⟨f, hm t.wrapper, hk, ho⟩

/-- **What holds of leaves holds of runs.**  `R c m` relates markup to a condition.
If it is kept when markup is put together, the conditions with it, and when markup
becomes the content of a region, and if it relates what is written for a token to a
condition on the token, and consumed characters to no condition, then it relates a
run to the conditions on all its tokens. -/
theorem run_of_tokens {R : Prop → String → Prop} {C : Token σ → Prop} (text : String)
    (hempty : R True "") (happend : ∀ c d a b, R c a → R d b → R (c ∧ d) (a ++ b))
    (hregion : ∀ s c content, R c content →
      R c ((t.rules s).entry ++ content ++ (t.rules s).exit))
    (htoken : ∀ k ∈ t.tokens text, ∀ own,
      (own = none ∨ ∃ tr ∈ (t.rules k.source).transitions, own = tr.tokens) →
        R (C k) (Progress.written t own k))
    (htaken : ∀ s, ∀ tr ∈ (t.rules s).transitions, ∀ cs, tr.Shows cs →
      R True (Progress.rewritten t s tr.chars cs)) :
    R (∀ k ∈ t.tokens text, C k) (t.run text) := by
  obtain ⟨f, hm, hk, ho⟩ := t.exists_forest text
  rw [← hm, ← hk]
  rw [← hk] at htoken
  clear hm hk
  induction f with
  | empty => simpa [Forest.tokens, Forest.markup] using hempty
  | token before own k ih =>
    have hb := ih (fun k' hk' => htoken k' (List.mem_append_left _ hk')) ho.1
    have hl := htoken k (List.mem_append_right _ (List.mem_singleton_self k)) own ho.2
    simpa [Forest.tokens, Forest.markup, or_imp, forall_and] using happend _ _ _ _ hb hl
  | taken before s own cs ih =>
    obtain ⟨hb, tr, htr, rfl, hcs⟩ := ho
    simpa [Forest.tokens, Forest.markup] using
      happend _ _ _ _ (ih htoken hb) (htaken s tr htr cs hcs)
  | region before s inside ihb ihi =>
    have hb := ihb (fun k hk => htoken k (List.mem_append_left _ hk)) ho.1
    have hi := ihi (fun k hk => htoken k (List.mem_append_right _ hk)) ho.2
    -- an empty region is not written, but its tokens count
    have hw : R (∀ k ∈ inside.tokens, C k)
        (t.wrap { state := s, pair := none, content := inside.markup t }) := by
      unfold Table.wrap
      split
      · rename_i hcontent
        dsimp only at hcontent
        rwa [hcontent] at hi
      · exact hregion s _ _ hi
    simpa [Forest.tokens, Forest.markup, or_imp, forall_and] using happend _ _ _ _ hb hw

/-- A property of markup that is kept when markup is put together, and when it
becomes the content of a region, holds of a run if it holds of what is written for
its tokens and of consumed characters. -/
theorem run_of {P : String → Prop} (text : String) (hempty : P "")
    (happend : ∀ a b, P a → P b → P (a ++ b))
    (hregion : ∀ s content, P content → P ((t.rules s).entry ++ content ++ (t.rules s).exit))
    (htoken : ∀ k ∈ t.tokens text, ∀ own,
      (own = none ∨ ∃ tr ∈ (t.rules k.source).transitions, own = tr.tokens) →
        P (Progress.written t own k))
    (htaken : ∀ s, ∀ tr ∈ (t.rules s).transitions, ∀ cs, tr.Shows cs →
      P (Progress.rewritten t s tr.chars cs)) : P (t.run text) :=
  t.run_of_tokens (R := fun _ => P) (C := fun _ => True) text hempty
    (fun _ _ => happend) (fun s _ => hregion s) htoken htaken

end Table

end Scan
end AnswerStream
