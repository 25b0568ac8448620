import AnswerStream.Scan.Run

/-!
# The rest of a run

A run can be followed from any place of its text.  `Progress.rest` is the markup that a scan
comes to if some text is still to be read, and a scan reaches another one by reading characters
if the rest of both is the same.  The next scan is that after a visit: the character is kept if
nothing fires there (`reaches_of_none`), and a transition that consumes characters is followed
at once (`reaches_of_some`).

What a visit does is one law for each case (`visit_of_none`, `visit_of_some`, `visit_of_moves`,
`visit_of_spent`), and what all visits have in common is proved by `visit_induction`, however
often the scan moves in them.
-/

namespace AnswerStream
namespace Scan
namespace Progress

variable {σ : Type} (t : Table σ)

/-- The markup of a scan that ends. -/
def complete (p : Progress σ) : String :=
  let q := p.flush t (p.current t) t.initial none
  Progress.close t q.outside q.regions ""

variable [DecidableEq σ]

/-- The markup of a scan that has read the text `before` and has `text` still to read. -/
def rest (before text : List Char) (p : Progress σ) : String := (p.scan t before text 0).complete t

/-- The scan `q` is what becomes of `p` when it has read `n` characters of `text`, as far as the
rest of the run is concerned. -/
def Reaches (n : Nat) (before text : List Char) (p q : Progress σ) : Prop :=
  p.rest t before text = q.rest t ((text.take n).reverse ++ before) (text.drop n)

variable {t} {p q r : Progress σ} {before after : List Char} {ch : Char}

@[simp] theorem rest_nil : p.rest t before [] = p.complete t := rfl

/-- A character at which nothing fires is kept. -/
theorem visit_of_none (h : p.firing t before ch after = none) (hops : Nat) :
    p.visit t before ch after hops = (p.keep t before ch, 0) := by
  cases hops <;> rw [visit, h]

/-- A transition that consumes characters is followed at once. -/
theorem visit_of_some {tr : Transition σ} (h : p.firing t before ch after = some tr)
    (hz : tr.zeroWidth = false) (hops : Nat) :
    p.visit t before ch after hops =
      (p.follow t tr before ch (ch :: after.take (tr.reach (p.look before ch after))),
        (after.take (tr.reach (p.look before ch after))).length) := by
  cases hops <;> simp [visit, h, hz]

/-- A transition that moves the scan is followed, and the character is visited again. -/
theorem visit_of_moves {tr : Transition σ} (h : p.firing t before ch after = some tr)
    (hz : tr.zeroWidth = true) (hmoves : tr.moves (p.current t) = true) (hops : Nat) :
    p.visit t before ch after (hops + 1) =
      (p.follow t tr before ch []).visit t before ch after hops := by
  rw [visit, h]
  simp only [hz, hmoves, if_true]

/-- A transition that consumes nothing is not followed if it would not move the scan, or if no
move is left. -/
theorem visit_of_spent {tr : Transition σ} (h : p.firing t before ch after = some tr)
    (hz : tr.zeroWidth = true) {hops : Nat} (hspent : tr.moves (p.current t) = true → hops = 0) :
    p.visit t before ch after hops = (p.keep t before ch, 0) := by
  cases hmoves : tr.moves (p.current t) with
  | true =>
    obtain rfl := hspent hmoves
    simp [visit, h, hz]
  | false => cases hops <;> simp [visit, h, hz, hmoves]

/-- A visit keeps the character, or consumes it, or moves the scan and visits it again.  So what
holds of a scan and its visit can be proved by these three cases. -/
theorem visit_induction {motive : Progress σ → Progress σ × Nat → Prop}
    (keep : ∀ p : Progress σ,
      (∀ tr, p.firing t before ch after = some tr → tr.zeroWidth = true) →
        motive p (p.keep t before ch, 0))
    (take : ∀ (p : Progress σ) tr, p.firing t before ch after = some tr → tr.zeroWidth = false →
      motive p (p.follow t tr before ch (ch :: after.take (tr.reach (p.look before ch after))),
        (after.take (tr.reach (p.look before ch after))).length))
    (move : ∀ (p : Progress σ) tr v, p.firing t before ch after = some tr →
      tr.zeroWidth = true → motive (p.follow t tr before ch []) v → motive p v)
    (hops : Nat) (p : Progress σ) : motive p (p.visit t before ch after hops) := by
  induction hops using Nat.strongRecOn generalizing p with
  | ind hops ih =>
    cases hfire : p.firing t before ch after with
    | none =>
      rw [visit_of_none hfire]
      exact keep p fun tr hfire' => absurd (hfire.symm.trans hfire') (by simp)
    | some tr =>
      cases hz : tr.zeroWidth with
      | false =>
        rw [visit_of_some hfire hz]
        exact take p tr hfire hz
      | true =>
        by_cases hspent : tr.moves (p.current t) = true → hops = 0
        · rw [visit_of_spent hfire hz hspent]
          refine keep p fun tr' hfire' => ?_
          rwa [← Option.some.inj (hfire.symm.trans hfire')]
        · obtain ⟨hmoves, hleft⟩ := Classical.not_imp.1 hspent
          obtain ⟨hops, rfl⟩ := Nat.exists_eq_succ_of_ne_zero hleft
          rw [visit_of_moves hfire hz hmoves]
          exact move p tr _ hfire hz (ih hops (Nat.lt_succ_self hops) _)

/-- One character is scanned by visiting it. -/
theorem scan_cons (p : Progress σ) (before : List Char) (ch : Char) (after : List Char) :
    p.scan t before (ch :: after) 0 =
      (p.visit t before ch after hopLimit).1.scan t (ch :: before) after
        (p.visit t before ch after hopLimit).2 := rfl

/-- Consumed characters are not looked at again. -/
theorem scan_eq_scan_drop (p : Progress σ) (before text : List Char) (n : Nat) :
    p.scan t before text n = p.scan t ((text.take n).reverse ++ before) (text.drop n) 0 := by
  induction text generalizing before n with
  | nil => simp [scan]
  | cons c text ih =>
    cases n with
    | zero => rfl
    | succ n => simpa [scan] using ih (c :: before) n

theorem scan_skip (p : Progress σ) (before taken text : List Char) :
    p.scan t before (taken ++ text) taken.length =
      p.scan t (taken.reverse ++ before) text 0 := by
  rw [scan_eq_scan_drop, List.take_left, List.drop_left]

theorem Reaches.rest_eq {n : Nat} {text : List Char} (h : p.Reaches t n before text q) :
    p.rest t before text = q.rest t ((text.take n).reverse ++ before) (text.drop n) := h

theorem Reaches.refl (before text : List Char) (p : Progress σ) : p.Reaches t 0 before text p := rfl

theorem Reaches.trans {m n : Nat} {text : List Char} (h : p.Reaches t m before text q)
    (h' : q.Reaches t n ((text.take m).reverse ++ before) (text.drop m) r) :
    p.Reaches t (m + n) before text r := by
  rw [Reaches, h.rest_eq, h'.rest_eq, List.take_add, List.drop_drop, List.reverse_append,
    List.append_assoc]

theorem reaches_of_none (h : p.firing t before ch after = none) :
    p.Reaches t 1 before (ch :: after) (p.keep t before ch) := by
  rw [Reaches, rest, scan_cons, visit_of_none h]
  rfl

theorem reaches_of_some {tr : Transition σ} {n : Nat}
    (h : p.firing t before ch after = some tr) (hz : tr.zeroWidth = false)
    (hreach : tr.reach (p.look before ch after) = n) :
    p.Reaches t (n + 1) before (ch :: after)
      (p.follow t tr before ch (ch :: after.take n)) := by
  have hskip := scan_skip (p.follow t tr before ch (ch :: after.take n)) (ch :: before)
    (after.take n) (after.drop n) (t := t)
  rw [List.take_append_drop] at hskip
  rw [Reaches, rest, scan_cons, visit_of_some h hz, hreach, hskip]
  simp [rest]

end Progress

/-- A run is the rest of the scan with which it starts. -/
theorem Table.run_eq_rest {σ : Type} [DecidableEq σ] (t : Table σ) (text : String) :
    t.run text = t.start.rest t [] text.toList := rfl

end Scan
end AnswerStream
