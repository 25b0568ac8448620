import AnswerStream.Chat.Memory
import AnswerStream.Proofs.Chat.CurrentChat
import AnswerStream.Proofs.Chat.Entries

/-!
# A session that has failed for good

A session that could get no chat id has failed for good.  From then on it is meant to refuse
whatever a person wants of it: nothing is asked of the service, no channel is opened and
nothing is sent.

## What it does not refuse

Two operations do not look whether the session has failed.  A vote never does.  Clearing
does only by way of the chat id, which is there if an earlier attempt to get one has
succeeded.  So a vote that an entry on screen does not have yet is sent, and a chat that is
known is cleared.  Everything else is refused (`refuses_iff`), and the failure is for good.
-/

namespace AnswerStream
namespace Chat

open Text

variable {ω κ : Type}

/-- An effect that nobody but a listener notices, or that closes the channel. -/
def Effect.Inert : Effect → Prop
  | announced _ => True
  | closed _ => True
  | _ => False

/-- An operation by which a person wants something of the service. -/
def Op.Demands : Op ω → Prop
  | bootstrap | connect | ask .. | vote .. | clear _ | syncContext _ => True
  | _ => False

/-- A vote that an entry on screen does not have, or clearing a chat that is known. -/
def Op.Slips (s : Session ω κ) : Op ω → Prop
  | vote id up down => ∃ m, s.transcript.find? (fun m => m.id = id) = some m ∧
    ¬ (m.upvote = up ∧ m.downvote = down)
  | clear _ => s.chatId.isSome
  | _ => False

namespace Session

/-- An operation was refused: nothing was asked of the service, opened or sent, and the
transcript and the chat are what they were. -/
structure Refuses (s s' : Session ω κ) : Prop where
  did : Did Effect.Inert s s'
  transcript : s'.transcript = s.transcript
  chatId : s'.chatId = s.chatId

theorem Refuses.refl (s : Session ω κ) : Refuses s s := ⟨.refl s, rfl, rfl⟩

/-- What makes a request is no refusal. -/
theorem not_refuses {s s' : Session ω κ} {r : Request} {new old : List Effect}
    (h : s'.effects = new ++ .requested r :: (old ++ s.effects)) : ¬ Refuses s s' := by
  intro hrefuses
  have heq : s'.effects = (new ++ .requested r :: old) ++ s.effects := by
    rw [h]
    simp
  have hinert := hrefuses.did.forall_since
  rw [since_eq heq] at hinert
  exact hinert (.requested r) (by simp)

variable {b : Backend ω κ} {s : Session ω κ}

/-! ## What is refused -/

section Down

variable (hdown : s.unavailable = true)
include hdown

theorem bootstrap_of_unavailable : s.bootstrap b = (.error .unavailable, s) := by
  rw [bootstrap, if_pos hdown]

theorem ensureChatId_of_unavailable (h : s.chatId = none) :
    s.ensureChatId b = (.error .unavailable, s) := by
  rw [ensureChatId, h]
  dsimp only
  rw [bootstrap_of_unavailable hdown]

theorem clear_of_unavailable (hard : Bool) (h : s.chatId = none) :
    s.clear b hard = (s.announce (.clearing hard)).warn (.clearFailed .unavailable) := by
  have hid : (s.announce (.clearing hard)).ensureChatId b =
      (.error .unavailable, s.announce (.clearing hard)) := ensureChatId_of_unavailable hdown h
  rw [clear, hid]

end Down

/-- Clearing a chat that is known asks the service. -/
theorem effects_clear (hard : Bool) {chatId : String} (h : s.chatId = some chatId) :
    ∃ new, (s.clear b hard).effects =
      new ++ .requested (.clear chatId hard) :: ([.announced (.clearing hard)] ++ s.effects) := by
  rw [clear_of_some b hard h]
  cases (b.clear chatId hard s.outside).1 with
  | error e => exact ⟨[.announced (.warning (.clearFailed e))], rfl⟩
  | ok =>
    obtain ⟨old, hload⟩ := loads_restart (b := b) hard
      ((s.announce (.clearing hard)).request (.clear chatId hard) (b.clear chatId hard)).2.wipe
    obtain ⟨new, heq, _⟩ := hload.did
    refine ⟨new ++ [.announced .transcriptChanged], heq.trans ?_⟩
    rw [List.append_assoc]
    rfl

/-- A vote that an entry does not have yet is sent. -/
theorem effects_vote {id : String} {up down : Bool} {m : Message}
    (hfind : s.transcript.find? (fun m => m.id = id) = some m)
    (hnew : ¬ (m.upvote = up ∧ m.downvote = down)) :
    ∃ new, (s.vote b id up down).effects =
      new ++ .requested (.vote id up down) :: ([] ++ s.effects) := by
  have hvoting := voting_vote b id up down s
  generalize s.vote b id up down = s' at hvoting ⊢
  cases hvoting with
  | unknown none => cases none.symm.trans hfind
  | unchanged first has =>
    cases first.symm.trans hfind
    exact absurd has hnew
  | @refused m e first new answer => exact ⟨[.announced (.warning (.voteFailed e))], rfl⟩
  | noted first new answer => exact ⟨[.announced .transcriptChanged], rfl⟩

/-- A session that has failed for good refuses what a person wants of it, except for a vote
that an entry does not have and for clearing a chat that is known. -/
theorem refuses_iff (hdown : s.unavailable = true) {op : Op ω} (hop : op.Demands) :
    Refuses s (op.apply b s) ↔ ¬ op.Slips s := by
  have hsame : op.apply b s = s → ¬ op.Slips s → (Refuses s (op.apply b s) ↔ ¬ op.Slips s) := by
    intro happly hnot
    rw [happly]
    exact ⟨fun _ => hnot, fun _ => .refl s⟩
  cases op with
  | bootstrap => exact hsame (congrArg Prod.snd (bootstrap_of_unavailable hdown)) id
  | connect => exact hsame (by simp [Op.apply, connect, hdown]) id
  | ask text images => exact hsame (by simp [Op.apply, ask, hdown]) id
  | syncContext value => exact hsame (by simp [Op.apply, syncContext, hdown]) id
  | vote id up down =>
    cases hfind : s.transcript.find? fun m => m.id = id with
    | none =>
      have happly : (Op.vote id up down).apply b s = s.warn (.noMessage id) := by
        rw [Op.apply, vote, hfind]
      rw [happly]
      refine ⟨fun _ => ?_, fun _ => ⟨.record trivial s, rfl, rfl⟩⟩
      rintro ⟨m, hm, _⟩
      rw [hfind] at hm
      cases hm
    | some m =>
      by_cases hhas : m.upvote = up ∧ m.downvote = down
      · refine hsame (by rw [Op.apply, vote, hfind]; exact if_pos hhas) ?_
        rintro ⟨m', hm', hnew⟩
        rw [hfind] at hm'
        cases hm'
        exact hnew hhas
      · obtain ⟨new, heq⟩ := effects_vote (b := b) hfind hhas
        exact ⟨fun h => absurd h (not_refuses heq), fun h => absurd ⟨m, hfind, hhas⟩ h⟩
  | clear hard =>
    cases hid : s.chatId with
    | none =>
      rw [Op.apply, clear_of_unavailable hdown hard hid]
      refine ⟨fun _ => by simp [Op.Slips, hid], fun _ => ⟨?_, rfl, rfl⟩⟩
      exact (Did.record (e := .announced (.clearing hard)) trivial s).trans (.record trivial _)
    | some chatId =>
      obtain ⟨new, heq⟩ := effects_clear (b := b) hard hid
      exact ⟨fun h => absurd h (not_refuses heq), fun h => absurd (by simp [Op.Slips, hid]) h⟩
  | _ => exact hop.elim

/-! ## For good -/

/-- Clearing the chat is no way back: a reset does not get a new one. -/
theorem unavailable_clear (hdown : s.unavailable = true) (hard : Bool) :
    (s.clear b hard).unavailable = true := by
  cases hid : s.chatId with
  | none =>
    rw [clear_of_unavailable hdown hard hid]
    exact hdown
  | some chatId =>
    rw [clear_of_some b hard hid]
    cases (b.clear chatId hard s.outside).1 with
    | error e => exact hdown
    | ok =>
      dsimp only
      split
      · have hhung := (leavesChat_hangUp b ((s.announce (.clearing hard)).request
          (.clear chatId hard) (b.clear chatId hard)).2.wipe).unavailable.trans hdown
        rw [restart, bootstrap_of_unavailable (by exact hhung)]
        exact hhung
      · exact hdown

theorem unavailable_apply (hdown : s.unavailable = true) (op : Op ω) :
    (op.apply b s).unavailable = true := by
  cases op with
  | bootstrap => rw [Op.apply, bootstrap_of_unavailable hdown, hdown]
  | connect => simp [Op.apply, connect, hdown]
  | ask text images => simp [Op.apply, ask, hdown]
  | syncContext value => simp [Op.apply, syncContext, hdown]
  | stop => exact (leavesChat_stop b s).unavailable.trans hdown
  | vote id up down => exact (leavesChat_vote b id up down s).unavailable.trans hdown
  | clear hard => exact unavailable_clear hdown hard
  | pump => exact (leavesChat_pump b s).unavailable.trans hdown
  | handleFrame text => exact (leavesChat_handleFrame b text s).unavailable.trans hdown
  | handleEvent e => exact (leavesChat_handleEvent b e s).unavailable.trans hdown
  | handleClose code => exact (leavesChat_handleClose s).unavailable.trans hdown
  | meanwhile outside => exact hdown

/-- **A session that has failed for good has**, and refuses exactly what does not slip
through. -/
theorem unavailable_after (config : Config) (outside : ω) (past : List (Op ω))
    (hdown : ((start config outside).after b past).unavailable = true) :
    (∀ op : Op ω, op.Demands →
      (Refuses ((start config outside).after b past) ((start config outside).after b (op :: past)) ↔
        ¬ op.Slips ((start config outside).after b past))) ∧
      ∀ later : List (Op ω), ((start config outside).after b (later ++ past)).unavailable = true := by
  refine ⟨fun op hop => refuses_iff hdown hop, fun later => ?_⟩
  induction later with
  | nil => exact hdown
  | cons op later ih => exact unavailable_apply ih op

/-- A first attempt to get a chat that fails. -/
theorem unavailable_after_bootstrap :
    ((start {} { unavailable := true }).after Memory.backend [.bootstrap]).unavailable = true ∧
      Refuses ((start {} { unavailable := true }).after Memory.backend [.bootstrap])
        ((start {} { unavailable := true }).after Memory.backend [.clear false, .bootstrap]) ∧
      ((start {} { unavailable := true }).after Memory.backend
        [.clear false, .bootstrap]).unavailable = true := by
  have hdown : ((start {} { unavailable := true }).after Memory.backend
      [.bootstrap]).unavailable = true := by decide +kernel
  obtain ⟨hrefuses, hlater⟩ := unavailable_after (b := Memory.backend) {} _ _ hdown
  have hknown : ¬ (Op.clear false).Slips
      ((start {} { unavailable := true }).after Memory.backend [.bootstrap]) := by
    show ¬ (((start {} { unavailable := true }).after Memory.backend [.bootstrap]).chatId.isSome =
      true)
    decide +kernel
  exact ⟨hdown, (hrefuses (.clear false) trivial).2 hknown, hlater [.clear false]⟩

/-- A session that had a chat before it failed still clears it. -/
theorem not_refuses_clear :
    ((start {} {}).after Memory.backend
        [.bootstrap, .meanwhile { chats := 1, unavailable := true }, .bootstrap]).unavailable = true ∧
      ¬ Refuses
        ((start {} {}).after Memory.backend
          [.bootstrap, .meanwhile { chats := 1, unavailable := true }, .bootstrap])
        ((start {} {}).after Memory.backend
          [.clear false, .bootstrap, .meanwhile { chats := 1, unavailable := true },
            .bootstrap]) := by
  have hknown : ((start {} {}).after Memory.backend
      [.bootstrap, .meanwhile { chats := 1, unavailable := true }, .bootstrap]).chatId =
        some "chat-1" := by decide +kernel
  obtain ⟨new, heq⟩ := effects_clear (b := Memory.backend) false hknown
  exact ⟨by decide +kernel, not_refuses heq⟩

end Session
end Chat
end AnswerStream
