import AnswerStream.Chat.Memory
import AnswerStream.Proofs.Chat.Turn

/-!
# The phase and the exchange

A session keeps the exchange in flight and, beside it, a phase that it shows.  They are
meant to say the same: idle without an exchange, waiting until a part of the answer has
come, and typing from then on.  Whether one has come is a matter of the run and not of a
field (`Answered`).

## Where they part

While an exchange is in flight the phase is right.  What can go wrong is that an exchange
goes away and the phase does not follow.  Of all operations only one does that: clearing
a chat forgets its exchange, and unlike every other ending says nothing about the phase.
So phase and exchange agree in all of a run exactly if no chat is cleared in it during an
exchange.
-/

namespace AnswerStream
namespace Chat
namespace Session

variable {ω κ : Type}

/-- The exchange in flight has received a message frame: it was in flight before the last
operation as well, and a message frame came with that or earlier. -/
def Answered (b : Backend ω κ) (s : Session ω κ) : List (Op ω) → Prop
  | [] => False
  | op :: past =>
    (s.after b (op :: past)).exchange.isSome ∧ (s.after b past).exchange.isSome ∧
      (op.BringsMessage b (s.after b past) ∨ Answered b s past)

/-- The phase after some operations says what has come of the exchange in flight. -/
structure PhaseAgrees (b : Backend ω κ) (s : Session ω κ) (past : List (Op ω)) : Prop where
  idle : (s.after b past).phase = .idle ↔ (s.after b past).exchange = none
  waiting : (s.after b past).phase = .waiting ↔
    (s.after b past).exchange.isSome ∧ ¬ Answered b s past
  typing : (s.after b past).phase = .typing ↔
    (s.after b past).exchange.isSome ∧ Answered b s past

variable {b : Backend ω κ}

/-- The mark of an exchange that a part of its answer has come is set by message frames
and stays. -/
theorem streaming_apply {s : Session ω κ} (h : s.Consistent) (op : Op ω) {y : Exchange}
    (hy : (op.apply b s).exchange = some y) :
    y.streaming = true ↔
      ∃ x, s.exchange = some x ∧ (op.BringsMessage b s ∨ x.streaming = true) := by
  cases op.turn b h with
  | goesOn exchange _ keeps =>
    rw [exchange] at hy
    have hquiet := (keeps (by rw [hy]; rfl)).2.2
    simp [hy, hquiet]
  | cutOff severs leaves _ =>
    rw [leaves.exchange] at hy
    simp [hy, Turn.not_bringsMessage_of_severs severs]
  | startsOver before after _ _ _ quiet =>
    rw [after] at hy
    cases hy
    simp [before, quiet]
  | receives _ before after _ _ _ brings =>
    rw [after] at hy
    cases hy
    simp [before, brings]
  | begins idle after streaming _ _ _ =>
    rw [after] at hy
    cases hy
    simp [Turn.exchange_eq_none_of_idle h idle, streaming]
  | ends after _ =>
    rw [after] at hy
    cases hy
  | forgets _ _ _ wiped =>
    rw [wiped.exchange] at hy
    cases hy

/-- The mark of the exchange in flight says whether it has received a message frame. -/
theorem streaming_iff_answered (config : Config) (outside : ω) (past : List (Op ω))
    {x : Exchange} (hx : ((start config outside).after b past).exchange = some x) :
    x.streaming = true ↔ Answered b (start config outside) past := by
  induction past generalizing x with
  | nil => cases hx
  | cons op past ih =>
    have hstep := streaming_apply (consistent_after config outside past) op hx
    rw [hstep]
    constructor
    · rintro ⟨w, hw, hbrings⟩
      refine ⟨by rw [hx]; rfl, by rw [hw]; rfl, ?_⟩
      rcases hbrings with hbrings | hstreaming
      · exact Or.inl hbrings
      · exact Or.inr ((ih hw).1 hstreaming)
    · rintro ⟨_, hbefore, hbrings⟩
      obtain ⟨w, hw⟩ := Option.isSome_iff_exists.1 hbefore
      refine ⟨w, hw, ?_⟩
      rcases hbrings with hbrings | hanswered
      · exact Or.inl hbrings
      · exact Or.inr ((ih hw).2 hanswered)

/-- While an exchange is in flight, the phase is right; without one, it has to be idle. -/
theorem phaseAgrees_iff (config : Config) (outside : ω) (past : List (Op ω)) :
    PhaseAgrees b (start config outside) past ↔
      (((start config outside).after b past).exchange = none →
        ((start config outside).after b past).phase = .idle) := by
  have hphase := (consistent_after (b := b) config outside past).phase
  have hmark := fun x => streaming_iff_answered (b := b) config outside past (x := x)
  constructor
  · intro h hnone
    exact h.idle.2 hnone
  · intro h
    cases hx : ((start config outside).after b past).exchange with
    | none =>
      have hidle := h hx
      refine ⟨?_, ?_, ?_⟩ <;> simp [hx, hidle]
    | some x =>
      have hright := hphase x hx
      have hmark := hmark x hx
      cases hs : x.streaming with
      | true =>
        rw [hs] at hright hmark
        refine ⟨?_, ?_, ?_⟩ <;> simp [hx, hright, hmark.1 rfl]
      | false =>
        rw [hs] at hright hmark
        have hnot : ¬ Answered b (start config outside) past := fun ha => by
          cases hmark.2 ha
        refine ⟨?_, ?_, ?_⟩ <;> simp [hx, hright, hnot]

/-- Clearing a chat during an exchange leaves a phase without an exchange. -/
theorem not_phaseAgrees_of_forgets {config : Config} {outside : ω} {past : List (Op ω)} {op : Op ω}
    (h : op.Forgets b ((start config outside).after b past)) :
    ¬ PhaseAgrees b (start config outside) (op :: past) := by
  intro hagrees
  have hconsistent := consistent_after (b := b) config outside past
  cases op with
  | clear hard =>
    obtain ⟨hinFlight, chatId, hid, hclear⟩ := h
    have hwiped := wiped_clear b hid hclear
    -- the phase was not idle before, and has not changed
    have hidle := hagrees.idle.2 hwiped.exchange
    rw [after_cons, Op.apply, hwiped.phase] at hidle
    rw [Turn.exchange_eq_none_of_idle hconsistent hidle] at hinFlight
    cases hinFlight
  | _ => exact h.elim

/-- In a run in which no chat is cleared during an exchange, the phase is idle without
one. -/
theorem idle_of_exchange_eq_none {config : Config} {outside : ω} {past : List (Op ω)}
    (h : ∀ op earlier, op :: earlier <:+ past →
      ¬ op.Forgets b ((start config outside).after b earlier))
    (hnone : ((start config outside).after b past).exchange = none) :
    ((start config outside).after b past).phase = .idle := by
  induction past with
  | nil => rfl
  | cons op past ih =>
    have ih := ih fun q earlier hq => h q earlier (hq.trans (List.suffix_cons op past))
    rw [after_cons] at hnone ⊢
    cases op.turn b (consistent_after config outside past) with
    | goesOn exchange phase _ =>
      rw [exchange] at hnone
      rw [phase]
      exact ih hnone
    | cutOff _ leaves _ =>
      rw [leaves.exchange] at hnone
      rw [leaves.phase]
      exact ih hnone
    | startsOver _ after _ _ _ _ | receives _ _ after _ _ _ _ | begins _ after _ _ _ _ =>
      rw [after] at hnone
      cases hnone
    | ends _ phase => exact phase
    | forgets _ _ forgets _ => exact absurd forgets (h op past (List.suffix_refl _))

/-- **Phase and exchange agree in all of a run exactly if no chat is cleared in it during
an exchange.** -/
theorem forall_phaseAgrees_iff (config : Config) (outside : ω) (past : List (Op ω)) :
    (∀ earlier, earlier <:+ past → PhaseAgrees b (start config outside) earlier) ↔
      ∀ op earlier, op :: earlier <:+ past →
        ¬ op.Forgets b ((start config outside).after b earlier) := by
  constructor
  · intro h op earlier hpast hforgets
    exact not_phaseAgrees_of_forgets hforgets (h (op :: earlier) hpast)
  · intro h earlier hearlier
    refine (phaseAgrees_iff config outside earlier).2 fun hnone => ?_
    exact idle_of_exchange_eq_none
      (fun op before hbefore => h op before (hbefore.trans hearlier)) hnone

/-- A chat that is cleared while its question waits for an answer leaves the session
waiting, with nothing to wait for. -/
theorem not_phaseAgrees_cleared :
    ¬ PhaseAgrees Memory.backend (start {} {}) [.clear false, .ask "q" []] := by
  intro h
  have hidle := h.idle.2 (by decide +kernel)
  exact absurd hidle (by decide +kernel)

end Session
end Chat
end AnswerStream
