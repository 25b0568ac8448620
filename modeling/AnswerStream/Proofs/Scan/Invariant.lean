import AnswerStream.Proofs.Scan.Remaining

/-!
# What a scan keeps

A scan does two things to a character: it keeps it for the token being collected, or it
follows a transition.  A property of scans that both preserve therefore holds to the end
of a text (`Table.scan_start_invariant`).

## What a token holds

The text of a token is put together from rewritten characters, so a property that
every rewritten text has, and that two texts keep when they are joined, holds of
all tokens (`Table.forall_tokens_text`).
-/

namespace AnswerStream
namespace Scan

open Text

variable {σ : Type}

namespace Progress

variable {t : Table σ}

/-! ## The token being collected -/

@[simp] theorem pending_write (text : String) (p : Progress σ) :
    (p.write text).pending = p.pending := by
  unfold Progress.write
  split <;> rfl

@[simp] theorem finished_write (text : String) (p : Progress σ) :
    (p.write text).finished = p.finished := by
  unfold Progress.write
  split <;> rfl

@[simp] theorem pending_leave (p : Progress σ) : (p.leave t).pending = p.pending := by
  unfold Progress.leave
  split
  · rfl
  · exact pending_write _ _

@[simp] theorem finished_leave (p : Progress σ) : (p.leave t).finished = p.finished := by
  unfold Progress.leave
  split
  · rfl
  · exact finished_write _ _

@[simp] theorem pending_writeAt (here place : Placement) (text : String) (p : Progress σ) :
    (p.writeAt here place text).pending = p.pending := by
  unfold Progress.writeAt
  split
  · exact pending_write _ _
  · rfl

@[simp] theorem finished_writeAt (here place : Placement) (text : String) (p : Progress σ) :
    (p.writeAt here place text).finished = p.finished := by
  unfold Progress.writeAt
  split
  · exact finished_write _ _
  · rfl

@[simp] theorem pending_enter (s : σ) (pair : Option Char) (p : Progress σ) :
    (p.enter s pair).pending = p.pending := rfl

@[simp] theorem finished_enter (s : σ) (pair : Option Char) (p : Progress σ) :
    (p.enter s pair).finished = p.finished := rfl

@[simp] theorem pending_reenter (p : Progress σ) : (p.reenter t).pending = p.pending := by
  unfold Progress.reenter
  split <;> rfl

@[simp] theorem finished_reenter (p : Progress σ) : (p.reenter t).finished = p.finished := by
  unfold Progress.reenter
  split <;> rfl

@[simp] theorem pending_flush (source target : σ) (own : Option (Token σ → String))
    (p : Progress σ) : (p.flush t source target own).pending = "" := by
  simp [Progress.flush]

@[simp] theorem finished_flush (source target : σ) (own : Option (Token σ → String))
    (p : Progress σ) :
    (p.flush t source target own).finished = p.token source target :: p.finished := by
  simp [Progress.flush]

@[simp] theorem finished_collect (text : String) (before : List Char) (p : Progress σ) :
    (p.collect text before).finished = p.finished := by
  unfold Progress.collect
  split
  · rfl
  · split <;> rfl

/-- Collected text goes to the end of the token. -/
@[simp] theorem pending_collect (text : String) (before : List Char) (p : Progress σ) :
    (p.collect text before).pending = p.pending ++ text := by
  unfold Progress.collect
  split
  · simp [*]
  · split <;> simp [*]

/-- Following a transition finishes one token. -/
@[simp] theorem finished_follow (tr : Transition σ) (before : List Char) (ch : Char)
    (cs : List Char) (p : Progress σ) :
    (p.follow t tr before ch cs).finished =
      p.token (p.current t) (p.destination t tr.target) :: p.finished := by
  unfold Progress.follow
  cases tr.place <;> cases tr.target <;> cases tr.nested <;> simp

/-- Following a transition leaves nothing of the token, except what it carries into
the next one. -/
@[simp] theorem pending_follow (tr : Transition σ) (before : List Char) (ch : Char)
    (cs : List Char) (p : Progress σ) :
    (p.follow t tr before ch cs).pending =
      if tr.place = .carry then rewritten t (p.current t) tr.chars cs else "" := by
  unfold Progress.follow
  cases tr.place <;> cases tr.target <;> cases tr.nested <;> simp

/-! ## Closing what is open -/

/-- Closing every region is leaving the innermost one first. -/
theorem close_eq_close_leave {p : Progress σ} (h : p.regions ≠ []) :
    Progress.close t p.outside p.regions "" =
      Progress.close t (p.leave t).outside (p.leave t).regions "" := by
  obtain ⟨r, rs, hr⟩ := List.exists_cons_of_ne_nil h
  cases rs with
  | nil => simp [Progress.leave, Progress.write, Progress.close, hr]
  | cons r' rs => simp [Progress.leave, Progress.write, Progress.close, hr]

/-! ## Invariants of a scan -/

variable [DecidableEq σ]

/-- What keeping a character and following a transition preserve, visiting a
character preserves. -/
theorem visit_invariant {I : Progress σ → Prop}
    (hkeep : ∀ p before ch, I p → I (p.keep t before ch))
    (hfollow : ∀ p before ch cs, ∀ tr ∈ (t.rules (p.current t)).transitions,
      (tr.zeroWidth = true → cs = []) → I p → I (p.follow t tr before ch cs))
    (before : List Char) (ch : Char) (after : List Char) (hops : Nat) (p : Progress σ)
    (h : I p) : I (p.visit t before ch after hops).1 := by
  refine visit_induction (motive := fun p v => I p → I v.1) (fun p _ hp => hkeep p before ch hp)
    (fun p tr hfire hz hp => ?_) (fun p tr v hfire _ hv hp => ?_) hops p h
  · exact hfollow p before ch _ tr (List.mem_of_find?_eq_some hfire) (by simp [hz]) hp
  · exact hv (hfollow p before ch _ tr (List.mem_of_find?_eq_some hfire) (fun _ => rfl) hp)

/-- What keeping a character and following a transition preserve, a scan
preserves. -/
theorem scan_invariant {I : Progress σ → Prop}
    (hkeep : ∀ p before ch, I p → I (p.keep t before ch))
    (hfollow : ∀ p before ch cs, ∀ tr ∈ (t.rules (p.current t)).transitions,
      (tr.zeroWidth = true → cs = []) → I p → I (p.follow t tr before ch cs))
    (before text : List Char) (skip : Nat) (p : Progress σ) (h : I p) :
    I (p.scan t before text skip) := by
  induction text generalizing before skip p with
  | nil => simpa [Progress.scan] using h
  | cons ch after ih =>
    cases skip with
    | succ skip => exact ih _ _ _ h
    | zero => exact ih _ _ _ (visit_invariant hkeep hfollow before ch after hopLimit p h)

end Progress

namespace Table

variable (t : Table σ) [DecidableEq σ]

/-- A property of scans that keeping and following preserve holds at the end of a
text if it holds at the start. -/
theorem scan_start_invariant {I : Progress σ → Prop} (hstart : I t.start)
    (hkeep : ∀ p before ch, I p → I (p.keep t before ch))
    (hfollow : ∀ p before ch cs, ∀ tr ∈ (t.rules (p.current t)).transitions,
      (tr.zeroWidth = true → cs = []) → I p → I (p.follow t tr before ch cs))
    (text : String) : I (t.start.scan t [] text.toList 0) :=
  Progress.scan_invariant hkeep hfollow _ _ _ _ hstart

/-- **What holds of rewritten text holds of tokens.**  A token is put together from
characters that its state rewrites and from text that a transition has carried into
it. -/
theorem forall_tokens_text {Q : String → Prop} (hempty : Q "")
    (happend : ∀ a b, Q a → Q b → Q (a ++ b))
    (hkeep : ∀ s c, Q (Progress.rewritten t s none [c]))
    (hcarry : ∀ s, ∀ tr ∈ (t.rules s).transitions, tr.place = .carry →
      ∀ cs, Q (Progress.rewritten t s tr.chars cs))
    (text : String) : ∀ k ∈ t.tokens text, Q k.text := by
  have hscan : Q (t.start.scan t [] text.toList 0).pending ∧
      ∀ k ∈ (t.start.scan t [] text.toList 0).finished, Q k.text := by
    refine t.scan_start_invariant (I := fun p => Q p.pending ∧ ∀ k ∈ p.finished, Q k.text)
      ⟨hempty, by simp [Table.start]⟩ ?_ ?_ text
    · rintro p before ch ⟨hp, hf⟩
      refine ⟨?_, ?_⟩
      · rw [Progress.keep, Progress.pending_collect]
        exact happend _ _ hp (hkeep _ _)
      · rw [Progress.keep, Progress.finished_collect]
        exact hf
    · rintro p before ch cs tr htr - ⟨hp, hf⟩
      refine ⟨?_, ?_⟩
      · rw [Progress.pending_follow]
        split
        · exact hcarry _ tr htr ‹_› cs
        · exact hempty
      · rw [Progress.finished_follow]
        intro k hk
        rcases List.mem_cons.1 hk with rfl | hk
        · exact hp
        · exact hf k hk
  intro k hk
  rw [Table.tokens, Table.finish, Progress.finished_flush, List.mem_reverse] at hk
  rcases List.mem_cons.1 hk with rfl | hk
  · exact hscan.1
  · exact hscan.2 k hk

end Table

end Scan
end AnswerStream
