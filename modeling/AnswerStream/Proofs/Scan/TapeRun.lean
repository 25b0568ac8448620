import AnswerStream.Proofs.Highlight.Rules
import AnswerStream.Proofs.Scan.Tape

/-!
# A run on one tape never leaves its bounds

A `Machine` runs a table the way a program does that has the text in an array and the output in a
buffer: it has a cursor into the text, counts the transitions that consume nothing, and writes on a
`Tape`.  Each of its iterations is checked.  The character under the cursor has to be there, so have
those that a transition consumes, the number of these must not pass the largest number that can be
counted to, and all that the tape does is checked as well.

The machine goes through the stages of the run (`Stage.step?_machine`).  So it never fails, and what
is known of the stages is known of it: the output it finishes with is the markup of the text, and
the number of its iterations is bounded by the length of the text (`Table.machine_in_bounds`).

The only demand on the table is that it does not ask for a number of characters that cannot be
counted to when one is added.
-/

namespace AnswerStream
namespace Scan

open Text

variable {σ : Type}

theorem Context.at?_append (before after : List Char) (ch : Char) :
    Context.at? (before.reverse ++ ch :: after) before.length =
      some { before, ch, after } := by
  have hdrop : (before.reverse ++ ch :: after).drop before.reverse.length = ch :: after :=
    List.drop_left
  have htake : (before.reverse ++ ch :: after).take before.reverse.length = before.reverse :=
    List.take_left
  rw [List.length_reverse] at hdrop htake
  rw [Context.at?, hdrop, htake, List.reverse_reverse]

/-- Nowhere in the text `cs` a transition asks for so many characters after the first that one more
is above the limit. -/
def Table.CountsBelow (t : Table σ) (limit : Nat) (cs : List Char) : Prop :=
  ∀ s, ∀ tr ∈ (t.rules s).transitions, ∀ c : Context,
    c.before.reverse ++ c.ch :: c.after = cs → tr.reach c < limit

/-- A run with its text in an array and its output on a tape. -/
structure Machine (σ : Type) where
  /-- The place of the next character. -/
  cursor : Nat := 0
  /-- How many transitions that consume nothing were followed since the last character. -/
  hops : Nat := 0
  /-- The tape. -/
  tape : Tape σ

namespace Machine

/-- What holds between two iterations over a text of `length` characters. -/
structure InBounds (length : Nat) (m : Machine σ) : Prop where
  /-- A region is open. -/
  open_region : m.tape.frames ≠ []
  /-- The frames lie in the output, each after the start of the ones around it. -/
  fits : m.tape.Fits
  /-- No more was consumed than there is. -/
  cursor_le : m.cursor ≤ length
  /-- The moves since the last character are as many as are allowed. -/
  hops_le : m.hops ≤ hopLimit

variable (t : Table σ)

/-- Let the character under the cursor join the token. -/
def keep? (cs : List Char) (m : Machine σ) : Option (Machine σ) := do
  let tape ← m.tape.keep? t cs m.cursor
  return { cursor := m.cursor + 1, hops := 0, tape }

/-- Follow a transition that consumes nothing. -/
def hop? (cs : List Char) (tr : Transition σ) (ch : Char) (m : Machine σ) :
    Option (Machine σ) := do
  let tape ← m.tape.follow? t tr cs m.cursor 0 ch
  return { m with hops := m.hops + 1, tape }

/-- Follow a transition that takes the character under the cursor and `more` after it, or as many
as there are. -/
def take? (limit : Nat) (cs : List Char) (tr : Transition σ) (ch : Char) (more : Nat)
    (m : Machine σ) : Option (Machine σ) := do
  let wanted ← add? limit more 1
  let left ← sub? cs.length m.cursor
  let n := min wanted left
  let tape ← m.tape.follow? t tr cs m.cursor n ch
  return { cursor := m.cursor + n, hops := 0, tape }

variable [DecidableEq σ]

/-- One iteration, for a machine that can count to `limit`. -/
def step? (limit : Nat) (cs : List Char) (m : Machine σ) : Option (Machine σ) := do
  let c ← Context.at? cs m.cursor
  let c := { c with pair := m.tape.pair }
  let state := m.tape.current t
  match (t.rules state).transitions.find? fun tr => tr.fires c with
  | none => m.keep? t cs
  | some tr =>
    if tr.zeroWidth then
      if tr.moves state ∧ m.hops < hopLimit then m.hop? t cs tr c.ch else m.keep? t cs
    else m.take? t limit cs tr c.ch (tr.reach c)

end Machine

/-- The machine that runs a table over a text, after `n` iterations. -/
def Table.machine? (t : Table σ) [DecidableEq σ] (limit : Nat) (text : String) (n : Nat) :
    Option (Machine σ) := do
  let tape ← Tape.enter? t t.initial none {}
  steps? (Machine.step? t limit text.toList) n { tape }

namespace Stage

variable (t : Table σ)

/-- The machine at a stage of the run. -/
def machine (s : Stage σ) : Machine σ where
  cursor := s.before.length
  hops := s.hops
  tape := s.scan.tape t

variable {t} {s s' : Stage σ} {cs : List Char}

theorem keep?_machine {ch : Char} {after : List Char} (htext : s.text = ch :: after)
    (hcs : s.before.reverse ++ s.text = cs) :
    (s.machine t).keep? t cs = some ((s.kept t ch after).machine t) := by
  have hkeep := Progress.keep?_tape (t := t) s.before after ch s.scan
  rw [← htext, hcs] at hkeep
  rw [Machine.keep?, machine, hkeep]
  rfl

theorem hop?_machine {ch : Char} {tr : Transition σ} (hcs : s.before.reverse ++ s.text = cs) :
    (s.machine t).hop? t cs tr ch = some ((s.hopped t tr ch).machine t) := by
  have hfollow := Progress.follow?_tape (t := t) tr s.before [] s.text ch s.scan
  rw [List.nil_append, hcs, List.length_nil] at hfollow
  rw [Machine.hop?, machine, hfollow]
  rfl

/-- Counting what a transition takes does not fail, and comes to no more than there is. -/
theorem take?_machine {limit : Nat} {ch : Char} {after : List Char} {tr : Transition σ}
    (htext : s.text = ch :: after) (hcs : s.before.reverse ++ s.text = cs)
    (hmore : s.more tr ch after < limit) :
    (s.machine t).take? t limit cs tr ch (s.more tr ch after) =
      some ((s.taken t tr ch after).machine t) := by
  have hfollow := Progress.follow?_tape (t := t) tr s.before
    (ch :: after.take (s.more tr ch after)) (after.drop (s.more tr ch after)) ch s.scan
  rw [List.cons_append, List.take_append_drop, ← htext, hcs] at hfollow
  have hleft : sub? cs.length s.before.length = some (after.length + 1) := by
    rw [← hcs, htext, List.length_append, List.length_reverse, List.length_cons, Nat.add_comm,
      sub?_add]
  have htaken : min (s.more tr ch after + 1) (after.length + 1) =
      (ch :: after.take (s.more tr ch after)).length := by
    rw [List.length_cons, List.length_take]
    omega
  have hadd : add? limit (s.more tr ch after) 1 = some (s.more tr ch after + 1) := if_pos hmore
  simp only [Machine.take?, hadd, machine, hleft, Option.bind_eq_bind, Option.bind_some, htaken,
    hfollow]
  simp only [taken, List.length_append, List.length_reverse, Nat.add_comm]
  rfl

/-- What is known of every stage of a run. -/
structure Sound (cs : List Char) (s : Stage σ) : Prop where
  /-- It is a place in the text. -/
  whole : s.before.reverse ++ s.text = cs
  /-- The moves are no more than are allowed. -/
  hops_le : s.hops ≤ hopLimit
  /-- A region is open. -/
  frames_ne_nil : s.scan.frames ≠ []

theorem Sound.inBounds (h : s.Sound cs) : (s.machine t).InBounds cs.length where
  open_region := by
    rw [← List.length_pos_iff, machine, Progress.length_frames_tape, List.length_pos_iff]
    exact fun hnil => h.frames_ne_nil (by rw [Progress.frames, hnil, List.map_nil])
  fits := s.scan.fits_tape
  cursor_le := by
    rw [← h.whole, List.length_append, List.length_reverse]
    exact Nat.le_add_right _ _
  hops_le := h.hops_le

variable [DecidableEq σ]

/-- An iteration of the machine is a step of the run. -/
theorem step?_machine {limit : Nat} (hlimit : t.CountsBelow limit cs)
    (h : s.next t = some s') (hcs : s.before.reverse ++ s.text = cs) :
    (s.machine t).step? t limit cs = some (s'.machine t) := by
  cases htext : s.text with
  | nil =>
    rw [next_eq_none_iff.2 htext] at h
    cases h
  | cons ch after =>
    have hlook : Context.at? cs s.before.length = some { before := s.before, ch, after } := by
      rw [← hcs, htext]
      exact Context.at?_append s.before after ch
    have hfind : ((t.rules (s.scan.current t)).transitions.find? fun tr => tr.fires
        { before := s.before, ch, after, pair := s.scan.pair }) =
        s.scan.firing t s.before ch after := rfl
    simp only [Machine.step?, machine, hlook, Option.bind_eq_bind, Option.bind_some,
      Progress.current_tape, Progress.pair_tape, hfind]
    cases hfire : s.scan.firing t s.before ch after with
    | none =>
      rw [next_of_none htext hfire, Option.some.injEq] at h
      exact h ▸ keep?_machine htext hcs
    | some tr =>
      cases hz : tr.zeroWidth with
      | false =>
        rw [next_of_take htext hfire hz, Option.some.injEq] at h
        have hmore := hlimit _ tr (Progress.firing_spec hfire).1 (s.scan.look s.before ch after)
          (by rw [← hcs, htext]; rfl)
        simp only [hz, Bool.false_eq_true, if_false]
        exact h ▸ take?_machine htext hcs hmore
      | true =>
        rw [next_of_hop htext hfire hz] at h
        by_cases hmoves : tr.moves (s.scan.current t) = true ∧ s.hops < hopLimit
        · rw [if_pos hmoves, Option.some.injEq] at h
          simp only [hz, if_true, if_pos hmoves]
          exact h ▸ hop?_machine hcs
        · rw [if_neg hmoves, Option.some.injEq] at h
          simp only [hz, if_true, if_neg hmoves]
          exact h ▸ keep?_machine htext hcs

theorem Sound.next (h : s.Sound cs) (hnext : s.next t = some s') : s'.Sound cs where
  whole := (step_of_next hnext).whole_eq.trans h.whole
  hops_le := (step_of_next hnext).hops_le
  frames_ne_nil := (step_of_next hnext).frames_ne_nil h.frames_ne_nil

end Stage

namespace Table

variable {t : Table σ} [DecidableEq σ] {text : String} {s : Stage σ}

theorem sound_stage? {n : Nat} (h : t.stage? text n = some s) : s.Sound text.toList :=
  steps?_invariant (fun _ _ hnext hs => hs.next hnext) h
    ⟨rfl, Nat.zero_le _, List.cons_ne_nil _ _⟩

theorem machine?_of_stage? {limit : Nat} (hlimit : t.CountsBelow limit text.toList) {n : Nat}
    (h : t.stage? text n = some s) : t.machine? limit text n = some (s.machine t) := by
  have hstart : Tape.enter? t t.initial none {} = some (t.start.tape t) :=
    Progress.enter?_tape t.initial none {}
  rw [machine?, hstart, Option.bind_eq_bind, Option.bind_some]
  exact steps?_simulates (fun _ _ hnext => Stage.step?_machine hlimit hnext)
    (fun _ _ hnext hs => (Stage.step_of_next hnext).whole_eq.trans hs) h rfl

/-- Every stage before another one is there. -/
theorem exists_stage?_le {k n : Nat} (hk : k ≤ n) (h : t.stage? text n = some s) :
    ∃ s₀, t.stage? text k = some s₀ ∧ steps? (Stage.next t) (n - k) s₀ = some s := by
  rw [stage?, ← Nat.add_sub_cancel' hk, steps?_add, Option.bind_eq_some_iff] at h
  exact h

/-- **A run on one tape never leaves its bounds.**  Let no transition ask for so many characters
that one more cannot be counted to.  Then there is a number of iterations, at most
`hopLimit + 1` for each character, after which the machine is at the end of the text, and not
before.  Up to there no check fails, and it stays in bounds.  Any `hopLimit + 1` iterations in a row
consume something.  What the machine finishes with is the markup of the text. -/
theorem machine_in_bounds (t : Table σ) {limit : Nat} (text : String)
    (hlimit : t.CountsBelow limit text.toList) :
    ∃ n, n ≤ (hopLimit + 1) * text.length ∧
      (∀ k ≤ n, ∃ m, t.machine? limit text k = some m ∧ m.InBounds text.length ∧
        (m.cursor = text.length ↔ k = n)) ∧
      (∀ k, k + (hopLimit + 1) ≤ n → ∃ m m', t.machine? limit text k = some m ∧
        t.machine? limit text (k + (hopLimit + 1)) = some m' ∧ m.cursor < m'.cursor) ∧
      (t.machine? limit text n).bind (fun m => m.tape.finish? t) = some (t.run text) := by
  obtain ⟨n, hlast⟩ := t.exists_stage?_last text
  refine ⟨n, ?bound, fun k hk => ?steady, fun k hk => ?consumes, ?finish⟩
  case bound =>
    have hworth := Stage.worth_steps? hlast (Nat.zero_le hopLimit)
    rw [← String.length_toList]
    simpa [Stage.worth, first] using hworth
  case steady =>
    obtain ⟨s, hs, hrest⟩ := exists_stage?_le hk hlast
    have hsound := sound_stage? hs
    refine ⟨s.machine t, machine?_of_stage? hlimit hs, ?_, ?_⟩
    · rw [← String.length_toList]
      exact hsound.inBounds
    · have hlength : s.before.length + s.text.length = text.length := by
        rw [← String.length_toList, ← hsound.whole, List.length_append, List.length_reverse]
      show s.before.length = text.length ↔ k = n
      constructor
      · intro hcursor
        have hnil : s.text = [] := List.length_eq_zero_iff.1 (by omega)
        have hdone := Stage.eq_zero_of_steps? hnil hrest
        omega
      · rintro rfl
        rw [hs, Option.some.injEq] at hlast
        rw [hlast, List.length_reverse, String.length_toList]
  case consumes =>
    obtain ⟨s', hs', -⟩ := exists_stage?_le hk hlast
    obtain ⟨s, hs, hmore⟩ := exists_stage?_le (Nat.le_add_right k _) hs'
    refine ⟨s.machine t, s'.machine t, machine?_of_stage? hlimit hs, machine?_of_stage? hlimit hs',
      ?_⟩
    have hworth := Stage.worth_steps? hmore (sound_stage? hs).hops_le
    have hhops := (sound_stage? hs').hops_le
    show s.before.length < s'.before.length
    refine Nat.lt_of_not_le fun hle => ?_
    have hread := Nat.mul_le_mul_left (hopLimit + 1) hle
    unfold Stage.worth at hworth
    omega
  case finish =>
    rw [machine?_of_stage? hlimit hlast, Option.bind_some]
    exact Progress.finish?_tape _

/-- The table of style sheets never asks for more than one character after the first. -/
theorem css_countsBelow {limit : Nat} (hlimit : 1 < limit) (cs : List Char) :
    Highlight.Css.table.CountsBelow limit cs := by
  intro s tr htr c _
  obtain ⟨hmeasure, hextra⟩ := (Highlight.Css.isRule_of_mem htr).extra_le
  rw [Transition.reach_of_none hmeasure]
  exact Nat.lt_of_le_of_lt hextra hlimit

/-- A style sheet that ends inside a comment, run by a machine that counts in 64 bits. -/
theorem machine_in_bounds_css :
    Highlight.Css.table.CountsBelow (UInt64.size - 1) "b\x7bc:d/*é".toList ∧
    ∃ n, n ≤ (hopLimit + 1) * 8 ∧
      (Highlight.Css.table.machine? (UInt64.size - 1) "b\x7bc:d/*é" n).bind
        (fun m => m.tape.finish? Highlight.Css.table) =
          some (Highlight.Css.table.run "b\x7bc:d/*é") := by
  have hlimit : Highlight.Css.table.CountsBelow (UInt64.size - 1) "b\x7bc:d/*é".toList :=
    css_countsBelow (by decide) _
  obtain ⟨n, hle, -, -, hrun⟩ :=
    machine_in_bounds Highlight.Css.table "b\x7bc:d/*é" hlimit
  exact ⟨hlimit, n, hle, hrun⟩

end Table

end Scan
end AnswerStream
