import AnswerStream.Chat.Memory
import AnswerStream.Proofs.Chat.Turn

/-!
# The channel of an exchange

An answer can only arrive over an open channel, so an exchange without one would wait for
ever.  A question that cannot be sent is over at once, and a channel that is closed, by
either side, takes the exchange with it.

## Where the channel is lost

Two operations lose the channel of an exchange in another way.  A frame about the context
that the channel does not take costs the channel and leaves the exchange in flight.  And
a reset closes the channel and forgets the exchange, but leaves the phase behind.  Apart
from these, an operation that loses the channel of an exchange ends the exchange and
makes the session idle, and no exchange is without a channel.
-/

namespace AnswerStream
namespace Chat
namespace Session

variable {ω κ : Type}

/-- No exchange outlives its channel in a run: an exchange in flight has an open channel,
and an operation that loses it ends the exchange and makes the session idle. -/
structure NoOrphans (b : Backend ω κ) (s : Session ω κ) (past : List (Op ω)) : Prop where
  isOpen : ∀ earlier, earlier <:+ past →
    (s.after b earlier).exchange.isSome → (s.after b earlier).line.isSome
  ends : ∀ op earlier, op :: earlier <:+ past →
    (s.after b earlier).exchange.isSome → (s.after b (op :: earlier)).line = none →
      (s.after b (op :: earlier)).exchange = none ∧ (s.after b (op :: earlier)).phase = .idle

/-- An operation resets the chat of an exchange in flight, and the service agrees. -/
def Resets (b : Backend ω κ) (s : Session ω κ) (op : Op ω) : Prop :=
  op = .clear true ∧ op.Forgets b s

variable {b : Backend ω κ} {s : Session ω κ} {op : Op ω}

/-- An operation that is not refused by a channel leaves no exchange without one. -/
theorem isSome_line_apply (h : s.Consistent) (hsevers : ¬ op.Severs b s)
    (hopen : s.exchange.isSome → s.line.isSome) (hs : (op.apply b s).exchange.isSome) :
    (op.apply b s).line.isSome := by
  cases op.turn b h with
  | goesOn exchange _ keeps =>
    rw [exchange] at hs
    exact (keeps hs).1 (hopen hs)
  | cutOff severs _ _ => exact absurd severs hsevers
  | startsOver before _ _ line _ _ | receives _ before _ _ line _ _ =>
    rw [line]
    exact hopen (by rw [before]; rfl)
  | begins _ _ _ _ line _ => exact line
  | ends after _ =>
    rw [after] at hs
    cases hs
  | forgets _ _ _ wiped =>
    rw [wiped.exchange] at hs
    cases hs

/-- An operation that loses the channel of an exchange in any other way than these two
ends the exchange and makes the session idle. -/
theorem ends_of_line_eq_none (h : s.Consistent) (hsevers : ¬ op.Severs b s)
    (hresets : ¬ Resets b s op) (hopen : s.exchange.isSome → s.line.isSome)
    (hs : s.exchange.isSome) (hnone : (op.apply b s).line = none) :
    (op.apply b s).exchange = none ∧ (op.apply b s).phase = .idle := by
  have hover : (op.apply b s).exchange = none := by
    cases hx : (op.apply b s).exchange with
    | none => rfl
    | some x =>
      have hline := isSome_line_apply h hsevers hopen (by rw [hx]; rfl)
      rw [hnone] at hline
      cases hline
  refine ⟨hover, ?_⟩
  cases op.turn b h with
  | goesOn exchange _ _ =>
    rw [← exchange, hover] at hs
    cases hs
  | cutOff severs _ _ => exact absurd severs hsevers
  | startsOver _ after _ _ _ _ | receives _ _ after _ _ _ _ | begins _ after _ _ _ _ =>
    rw [after] at hover
    cases hover
  | ends _ phase => exact phase
  | forgets hard clears forgets wiped =>
    cases hard with
    | true => exact absurd ⟨clears, forgets⟩ hresets
    | false =>
      -- a chat that is cleared without a reset keeps its channel
      have hline : (op.apply b s).line = s.line := wiped.line
      have hsome := hopen hs
      rw [← hline, hnone] at hsome
      cases hsome

/-- A channel that refuses a frame about the context is lost, and the exchange is not. -/
theorem severed_apply (h : op.Severs b s) :
    (op.apply b s).exchange.isSome ∧ (op.apply b s).line = none := by
  cases op with
  | syncContext value =>
    obtain ⟨hs, havailable, line, e, hline, hsend⟩ := h
    obtain ⟨hleaves, _, herror⟩ := sendFrame_spec b (.context (s.now b) value) s
    have happly : (Op.syncContext value).apply b s =
        (s.sendFrame b (.context (s.now b) value)).2 := by
      simp [Op.apply, syncContext, havailable]
    rw [happly]
    refine ⟨by rw [hleaves.exchange]; exact hs, herror e ?_⟩
    rw [fst_sendFrame_of_some b _ hline, hsend]
  | _ => exact h.elim

/-- **No exchange outlives its channel in a run exactly if no channel refuses a frame
about the context during an exchange, and no chat is reset then.** -/
theorem noOrphans_iff (config : Config) (outside : ω) (past : List (Op ω)) :
    NoOrphans b (start config outside) past ↔
      ∀ op earlier, op :: earlier <:+ past →
        ¬ op.Severs b ((start config outside).after b earlier) ∧
          ¬ Resets b ((start config outside).after b earlier) op := by
  constructor
  · intro h op earlier hpast
    constructor
    · intro hsevers
      obtain ⟨hs, hnone⟩ := severed_apply hsevers
      have hopen := h.isOpen (op :: earlier) hpast hs
      rw [after_cons, hnone] at hopen
      cases hopen
    · -- a reset closes the channel and leaves the phase, which was not idle
      rintro ⟨rfl, hs, chatId, hid, hclear⟩
      have hwiped := wiped_clear b hid hclear
      have hidle := (h.ends _ earlier hpast hs hwiped.line).2
      rw [after_cons, Op.apply, hwiped.phase] at hidle
      rw [Turn.exchange_eq_none_of_idle (consistent_after config outside earlier) hidle] at hs
      cases hs
  · intro h
    have hopen : ∀ earlier, earlier <:+ past →
        ((start config outside).after b earlier).exchange.isSome →
          ((start config outside).after b earlier).line.isSome := by
      intro earlier hearlier
      induction earlier with
      | nil =>
        intro hs
        cases hs
      | cons op earlier ih =>
        exact isSome_line_apply (consistent_after config outside earlier) (h op earlier hearlier).1
          (ih ((List.suffix_cons op earlier).trans hearlier))
    refine ⟨hopen, fun op earlier hearlier => ?_⟩
    exact ends_of_line_eq_none (consistent_after config outside earlier) (h op earlier hearlier).1
      (h op earlier hearlier).2 (hopen earlier ((List.suffix_cons op earlier).trans hearlier))

/-- A frame about the context that the channel refuses while a question waits leaves the
question in flight, without a channel. -/
theorem not_noOrphans_refused :
    ¬ NoOrphans Memory.backend (start {} {})
      [.syncContext (.ofNat 1),
        .meanwhile { chats := 1, lines := 1, fed := some 0, failSend := true }, .ask "q" []] := by
  intro h
  have hopen := h.isOpen _ (List.suffix_refl _) (by decide +kernel)
  exact absurd hopen (by decide +kernel)

end Session
end Chat
end AnswerStream
