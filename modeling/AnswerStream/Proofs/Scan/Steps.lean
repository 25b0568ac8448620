import AnswerStream.Proofs.Scan.Reading
import AnswerStream.Proofs.Scan.Remaining

/-!
# A run step by step

`Progress.scan` goes from character to character, and a visit follows all transitions of its
character before it returns.  Here the same run is cut finer.  A `Stage` is where a run is
between two steps, and each step does one thing (`Step`): a character joins the token, a
transition is followed that consumes nothing, or one is followed that consumes characters.  So it
can be said at which step something happens, and how many steps there are.

The stages of a run are found by counting from its first one (`Table.stage?`), and the last of
them is the scan with which `Table.run` ends (`Table.exists_stage?_last`).

## How many steps there are

A step either consumes a character or raises the number of moves at the character it is on.  These
are no more than `hopLimit`, so `Stage.worth`, the number of characters read times the number of
steps that one can cost, plus the moves made since, is at least the number of steps.
-/

namespace AnswerStream
namespace Scan

/-! ## Several steps -/

section

variable {α β : Type} {f : α → Option α} {a b : α}

/-- `n` steps in a row. -/
def steps? (f : α → Option α) : Nat → α → Option α
  | 0, a => some a
  | n + 1, a => (f a).bind (steps? f n)

@[simp] theorem steps?_zero (f : α → Option α) (a : α) : steps? f 0 a = some a := rfl

theorem steps?_succ (f : α → Option α) (n : Nat) (a : α) :
    steps? f (n + 1) a = (f a).bind (steps? f n) := rfl

theorem steps?_one (f : α → Option α) (a : α) : steps? f 1 a = f a := by
  rw [steps?_succ]
  cases f a <;> rfl

theorem steps?_add (f : α → Option α) (m n : Nat) (a : α) :
    steps? f (m + n) a = (steps? f m a).bind (steps? f n) := by
  induction m generalizing a with
  | zero => rw [Nat.zero_add, steps?_zero, Option.bind_some]
  | succ m ih =>
    rw [Nat.add_right_comm, steps?_succ, steps?_succ, Option.bind_assoc]
    exact congrArg _ (funext ih)

/-- What every step keeps is kept by several. -/
theorem steps?_invariant {I : α → Prop} (hstep : ∀ a b, f a = some b → I a → I b) {n : Nat}
    (h : steps? f n a = some b) (ha : I a) : I b := by
  induction n generalizing a with
  | zero =>
    rw [steps?_zero, Option.some.injEq] at h
    exact h ▸ ha
  | succ n ih =>
    rw [steps?_succ, Option.bind_eq_some_iff] at h
    obtain ⟨c, hc, h⟩ := h
    exact ih h (hstep a c hc ha)

/-- If `g` follows `f` step by step wherever `I` holds, then it follows it for several steps. -/
theorem steps?_simulates {g : β → Option β} {φ : α → β} {I : α → Prop}
    (hstep : ∀ a b, f a = some b → I a → g (φ a) = some (φ b))
    (hkeep : ∀ a b, f a = some b → I a → I b) {n : Nat} (h : steps? f n a = some b) (ha : I a) :
    steps? g n (φ a) = some (φ b) := by
  induction n generalizing a with
  | zero =>
    rw [steps?_zero, Option.some.injEq] at h
    rw [h, steps?_zero]
  | succ n ih =>
    rw [steps?_succ, Option.bind_eq_some_iff] at h
    obtain ⟨c, hc, h⟩ := h
    rw [steps?_succ, hstep a c hc ha, Option.bind_some]
    exact ih h (hkeep a c hc ha)

end

/-! ## Stages -/

variable {σ : Type}

/-- Where a run is between two of its steps. -/
structure Stage (σ : Type) where
  /-- The text that was read, nearest character first. -/
  before : List Char
  /-- The text that is still to be read. -/
  text : List Char
  /-- How many transitions that consume nothing were followed since the last character. -/
  hops : Nat
  /-- The scan. -/
  scan : Progress σ

namespace Stage

variable (t : Table σ)

/-- The stage after the character `ch` has joined the token. -/
def kept (s : Stage σ) (ch : Char) (after : List Char) : Stage σ where
  before := ch :: s.before
  text := after
  hops := 0
  scan := s.scan.keep t s.before ch

/-- The stage after a transition that consumes nothing. -/
def hopped (s : Stage σ) (tr : Transition σ) (ch : Char) : Stage σ :=
  { s with hops := s.hops + 1, scan := s.scan.follow t tr s.before ch [] }

/-- How many characters a transition takes after the first. -/
def more (s : Stage σ) (tr : Transition σ) (ch : Char) (after : List Char) : Nat :=
  tr.reach (s.scan.look s.before ch after)

/-- The stage after a transition that consumes characters. -/
def taken (s : Stage σ) (tr : Transition σ) (ch : Char) (after : List Char) : Stage σ where
  before := (ch :: after.take (s.more tr ch after)).reverse ++ s.before
  text := after.drop (s.more tr ch after)
  hops := 0
  scan := s.scan.follow t tr s.before ch (ch :: after.take (s.more tr ch after))

/-- What a step does. -/
inductive Step (s : Stage σ) : Stage σ → Prop
  /-- Nothing that fires here consumes anything, and the character joins the token. -/
  | keep {ch : Char} {after : List Char} (htext : s.text = ch :: after)
      (hstall : s.scan.Stalls t s.before ch after) : Step s (s.kept t ch after)
  /-- A transition moves the scan, and the character is looked at again. -/
  | hop {ch : Char} {after : List Char} {tr : Transition σ} (htext : s.text = ch :: after)
      (hfire : s.scan.firing t s.before ch after = some tr) (hz : tr.zeroWidth = true)
      (hhops : s.hops < hopLimit) : Step s (s.hopped t tr ch)
  /-- A transition takes the character. -/
  | take {ch : Char} {after : List Char} {tr : Transition σ} (htext : s.text = ch :: after)
      (hfire : s.scan.firing t s.before ch after = some tr) (hz : tr.zeroWidth = false) :
      Step s (s.taken t tr ch after)

/-- The number of steps that the text read so far allows for. -/
def worth (s : Stage σ) : Nat := (hopLimit + 1) * s.before.length + s.hops

section

variable {t} {s s' : Stage σ}

/-- A step reads on in the same text. -/
theorem Step.whole_eq (h : Step t s s') :
    s'.before.reverse ++ s'.text = s.before.reverse ++ s.text := by
  cases h with
  | keep htext _ => simp [kept, htext]
  | hop htext _ _ _ => rfl
  | take htext _ _ => simp [taken, htext]

/-- No step makes more moves than are allowed. -/
theorem Step.hops_le (h : Step t s s') : s'.hops ≤ hopLimit := by
  cases h with
  | keep => exact Nat.zero_le _
  | hop _ _ _ hhops => exact hhops
  | take => exact Nat.zero_le _

theorem Step.worth_lt (h : Step t s s') (hhops : s.hops ≤ hopLimit) : s.worth < s'.worth := by
  unfold worth
  cases h with
  | keep =>
    rw [kept, List.length_cons, Nat.mul_succ]
    omega
  | hop =>
    show _ < _ * s.before.length + (s.hops + 1)
    omega
  | take =>
    rw [taken, List.length_append, List.length_reverse, List.length_cons, Nat.add_right_comm,
      Nat.mul_succ, Nat.mul_add]
    omega

/-- A region is open after a step if one was open before it. -/
theorem Step.frames_ne_nil (h : Step t s s') (hframes : s.scan.frames ≠ []) :
    s'.scan.frames ≠ [] := by
  have hfollow : ∀ tr ch cs, (s.scan.follow t tr s.before ch cs).frames ≠ [] := by
    intro tr ch cs
    rw [Progress.frames_follow, Progress.framesAfter]
    split
    · exact hframes
    · split
      · exact List.cons_ne_nil _ _
      · assumption
    · exact List.cons_ne_nil _ _
  cases h with
  | keep =>
    rw [kept, Progress.keep, Progress.frames_collect]
    exact hframes
  | hop => exact hfollow _ _ _
  | take => exact hfollow _ _ _

/-- The stage after a visit has made of the scan what `v` says. -/
def visited (before : List Char) (ch : Char) (after : List Char) (v : Progress σ × Nat) :
    Stage σ where
  before := (ch :: after.take v.2).reverse ++ before
  text := after.drop v.2
  hops := 0
  scan := v.1

theorem kept_eq_visited (s : Stage σ) (ch : Char) (after : List Char) :
    s.kept t ch after = visited s.before ch after (s.scan.keep t s.before ch, 0) := by
  simp [kept, visited]

theorem taken_eq_visited (s : Stage σ) (tr : Transition σ) (ch : Char) (after : List Char) :
    s.taken t tr ch after = visited s.before ch after
      (s.scan.follow t tr s.before ch (ch :: after.take (s.more tr ch after)),
        (after.take (s.more tr ch after)).length) := by
  have htake : ∀ n, after.take (after.take n).length = after.take n := by simp
  have hdrop : ∀ n, after.drop (after.take n).length = after.drop n := by
    intro n
    rw [List.length_take]
    rcases Nat.le_total n after.length with hn | hn
    · rw [Nat.min_eq_left hn]
    · rw [Nat.min_eq_right hn, List.drop_length, List.drop_eq_nil_of_le hn]
  simp only [taken, visited, htake, hdrop]

end

/-! ## The steps of a run -/

variable [DecidableEq σ]

/-- The next stage, unless the text is at its end. -/
def next (s : Stage σ) : Option (Stage σ) :=
  match s.text with
  | [] => none
  | ch :: after =>
    match s.scan.firing t s.before ch after with
    | none => some (s.kept t ch after)
    | some tr =>
      if tr.zeroWidth then
        if tr.moves (s.scan.current t) ∧ s.hops < hopLimit then some (s.hopped t tr ch)
        else some (s.kept t ch after)
      else some (s.taken t tr ch after)

variable {t} {s s' : Stage σ}

/-- There is a next stage as long as there is text. -/
theorem next_eq_none_iff : s.next t = none ↔ s.text = [] := by
  unfold next
  split
  · simp [*]
  · rename_i htext
    split
    · simp [htext]
    · split
      · split <;> simp [htext]
      · simp [htext]

theorem step_of_next (h : s.next t = some s') : Step t s s' := by
  unfold next at h
  split at h
  · cases h
  · rename_i ch after htext
    split at h
    · rename_i hfire
      cases h
      exact .keep htext (Progress.stalls_of_eq_none hfire)
    · rename_i tr hfire
      by_cases hz : tr.zeroWidth = true
      · rw [if_pos hz] at h
        by_cases hmoves : tr.moves (s.scan.current t) = true ∧ s.hops < hopLimit
        · rw [if_pos hmoves] at h
          cases h
          exact .hop htext hfire hz hmoves.2
        · rw [if_neg hmoves] at h
          cases h
          exact .keep htext (Progress.stalls_of_eq_some hfire hz)
      · rw [if_neg hz] at h
        cases h
        exact .take htext hfire (by simpa using hz)

theorem next_of_none {ch : Char} {after : List Char} (htext : s.text = ch :: after)
    (hfire : s.scan.firing t s.before ch after = none) :
    s.next t = some (s.kept t ch after) := by
  unfold next
  simp only [htext, hfire]

theorem next_of_take {ch : Char} {after : List Char} {tr : Transition σ}
    (htext : s.text = ch :: after) (hfire : s.scan.firing t s.before ch after = some tr)
    (hz : tr.zeroWidth = false) : s.next t = some (s.taken t tr ch after) := by
  unfold next
  simp only [htext, hfire, hz, Bool.false_eq_true, if_false]

theorem next_of_hop {ch : Char} {after : List Char} {tr : Transition σ}
    (htext : s.text = ch :: after) (hfire : s.scan.firing t s.before ch after = some tr)
    (hz : tr.zeroWidth = true) :
    s.next t =
      if tr.moves (s.scan.current t) ∧ s.hops < hopLimit then some (s.hopped t tr ch)
      else some (s.kept t ch after) := by
  unfold next
  simp only [htext, hfire, hz, if_true]

/-- No step is left at the end of the text. -/
theorem eq_zero_of_steps? (hnil : s.text = []) {n : Nat} (h : steps? (next t) n s = some s') :
    n = 0 := by
  cases n with
  | zero => rfl
  | succ n =>
    rw [steps?_succ, next_eq_none_iff.2 hnil, Option.bind_none] at h
    cases h

/-- Every step adds to what the text read so far allows for. -/
theorem worth_steps? {n : Nat} (h : steps? (next t) n s = some s') (hhops : s.hops ≤ hopLimit) :
    s.worth + n ≤ s'.worth := by
  induction n generalizing s with
  | zero =>
    rw [steps?_zero, Option.some.injEq] at h
    exact h ▸ Nat.le_refl _
  | succ n ih =>
    rw [steps?_succ, Option.bind_eq_some_iff] at h
    obtain ⟨s₁, hnext, h⟩ := h
    have hstep := step_of_next hnext
    have hlt := hstep.worth_lt hhops
    have hle := ih h hstep.hops_le
    omega

/-- From `s` to `e` the run stays in one region: it lets characters join the token, and follows
only transitions that stay. -/
inductive Within (t : Table σ) : Stage σ → Stage σ → Prop
  | refl (s : Stage σ) : Within t s s
  | step {s s' e : Stage σ} (hnext : s.next t = some s')
      (hstay : ∀ ch after tr, s.text = ch :: after →
        s.scan.firing t s.before ch after = some tr → tr.target = .stay)
      (h : Within t s' e) : Within t s e

/-! ## Visits and scans -/

/-- A visit that does not move the scan is one step. -/
theorem next_eq_visited {hops : Nat} (before : List Char) (ch : Char) (after : List Char)
    {p : Progress σ} (hstay : ∀ tr, p.firing t before ch after = some tr → tr.zeroWidth = true →
      tr.moves (p.current t) = true → hops = 0) :
    next t { before, text := ch :: after, hops := hopLimit - hops, scan := p } =
      some (visited before ch after (p.visit t before ch after hops)) := by
  cases hfire : p.firing t before ch after with
  | none => rw [next_of_none rfl hfire, kept_eq_visited, Progress.visit_of_none hfire]
  | some tr =>
    cases hz : tr.zeroWidth with
    | false =>
      rw [next_of_take rfl hfire hz, taken_eq_visited, Progress.visit_of_some hfire hz]
      rfl
    | true =>
      have hspent : ¬ (tr.moves (p.current t) = true ∧ hopLimit - hops < hopLimit) := by
        rintro ⟨hmoves, hlt⟩
        rw [hstay tr hfire hz hmoves] at hlt
        exact Nat.lt_irrefl _ hlt
      rw [next_of_hop rfl hfire hz, if_neg hspent, kept_eq_visited,
        Progress.visit_of_spent hfire hz (hstay tr hfire hz)]

/-- A visit that has `hops` moves to spend is made of steps: of its moves, and of the step after
the last of them. -/
theorem exists_steps?_visit {hops : Nat} (hle : hops ≤ hopLimit) (before : List Char) (ch : Char)
    (after : List Char) (p : Progress σ) :
    ∃ n, steps? (next t) n { before, text := ch :: after, hops := hopLimit - hops, scan := p } =
      some (visited before ch after (p.visit t before ch after hops)) := by
  induction hops generalizing p with
  | zero => exact ⟨1, (steps?_one _ _).trans (next_eq_visited _ _ _ fun _ _ _ _ => rfl)⟩
  | succ hops ih =>
    by_cases hhop : ∃ tr, p.firing t before ch after = some tr ∧ tr.zeroWidth = true ∧
        tr.moves (p.current t) = true
    · obtain ⟨tr, hfire, hz, hmoves⟩ := hhop
      obtain ⟨n, hn⟩ := ih (Nat.le_of_succ_le hle) (p.follow t tr before ch [])
      have hlt : hopLimit - (hops + 1) < hopLimit := by omega
      have hspent : hopLimit - (hops + 1) + 1 = hopLimit - hops := by omega
      have hvisit := Progress.visit_of_moves hfire hz hmoves hops
      refine ⟨n + 1, ?_⟩
      rw [steps?_succ, next_of_hop rfl hfire hz, if_pos ⟨hmoves, hlt⟩, Option.bind_some, hvisit,
        ← hn]
      simp only [hopped, hspent]
    · refine ⟨1, (steps?_one _ _).trans (next_eq_visited _ _ _ fun tr hfire hz hmoves => ?_)⟩
      exact absurd ⟨tr, hfire, hz, hmoves⟩ hhop

/-- A scan is made of steps. -/
theorem exists_steps?_scan (before text : List Char) (p : Progress σ) :
    ∃ n, steps? (next t) n { before, text, hops := 0, scan := p } =
      some { before := text.reverse ++ before, text := [], hops := 0,
             scan := p.scan t before text 0 } := by
  induction hlength : text.length using Nat.strongRecOn generalizing before text p with
  | ind length ih =>
    cases text with
    | nil => exact ⟨0, rfl⟩
    | cons ch after =>
      obtain ⟨m, hm⟩ := exists_steps?_visit (t := t) (Nat.le_refl hopLimit) before ch after p
      rw [Nat.sub_self] at hm
      generalize hv : p.visit t before ch after hopLimit = v at hm
      have hlt : (after.drop v.2).length < length := by
        rw [← hlength, List.length_drop, List.length_cons]
        omega
      obtain ⟨n, hn⟩ := ih _ hlt ((ch :: after.take v.2).reverse ++ before) (after.drop v.2) v.1 rfl
      refine ⟨m + n, ?_⟩
      rw [steps?_add, hm, Option.bind_some, visited, hn, Progress.scan_cons, hv,
        Progress.scan_eq_scan_drop v.1 (ch :: before) after]
      have hwhole : (after.drop v.2).reverse ++ ((ch :: after.take v.2).reverse ++ before) =
          (ch :: after).reverse ++ before := by
        rw [← List.append_assoc, ← List.reverse_append, List.cons_append, List.take_append_drop]
      have hread : (ch :: after.take v.2).reverse ++ before =
          (after.take v.2).reverse ++ ch :: before := by simp
      rw [hwhole, hread]

end Stage

/-! ## From the first stage to the last -/

namespace Table

variable (t : Table σ)

/-- A run before its first step. -/
def first (text : String) : Stage σ where
  before := []
  text := text.toList
  hops := 0
  scan := t.start

variable [DecidableEq σ]

/-- The stage of a run after `n` steps. -/
def stage? (text : String) (n : Nat) : Option (Stage σ) := steps? (Stage.next t) n (t.first text)

/-- The run of a text comes to the stage `s`. -/
def Passes (text : String) (s : Stage σ) : Prop := ∃ n, t.stage? text n = some s

variable {t} in
/-- What holds at the first stage and is kept by every step holds at all stages of a run. -/
theorem Passes.induct {text : String} {I : Stage σ → Prop} (hfirst : I (t.first text))
    (hnext : ∀ s s', s.next t = some s' → I s → I s') {s : Stage σ} (h : t.Passes text s) :
    I s := by
  obtain ⟨n, hn⟩ := h
  exact steps?_invariant hnext hn hfirst

/-- The last stage of a run is at the end of the text, and its scan is that of `Table.run`. -/
theorem exists_stage?_last (text : String) :
    ∃ n, t.stage? text n =
      some { before := text.toList.reverse, text := [], hops := 0,
             scan := t.start.scan t [] text.toList 0 } := by
  obtain ⟨n, hn⟩ := Stage.exists_steps?_scan (t := t) [] text.toList t.start
  exact ⟨n, by simpa [stage?, first] using hn⟩

end Table

end Scan
end AnswerStream
