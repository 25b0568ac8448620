import AnswerStream.Proofs.Chat.CurrentChat
import AnswerStream.Proofs.Chat.Transcript

/-!
# What asking a question comes to

Four things can go wrong with a question: there is no chat id, the history of the chat cannot
be had, no channel can be opened, and the channel does not take the frame.  They go wrong at
different points, when less or more of the question is on screen already, and yet whoever
asks can tell three cases apart by the result alone (`Settles`).

* Without a chat id nothing has happened to the question, and the session is unusable.
* A question that was sent is on screen, with an entry that waits for its answer.
* A question that could not be sent is on screen as well, with the cause in that entry.

A history that cannot be had is no obstacle: nothing is restored then.

## Why the cause is always shown

An answer that fails without a cause says so in words of its own (`causeOf`).  The message of
a failure is never blank, so this does not happen to a question that could not be sent.
-/

namespace AnswerStream
namespace Chat

open Text

variable {ω κ : Type}

theorem not_allBlank_append {said : String} (h : allBlank said.toList = false) (rest : String) :
    allBlank (said ++ rest).toList = false := by
  rw [String.toList_append, allBlank, List.all_append, ← allBlank, h]
  rfl

/-- A failure has something to say, which begins with what kind of failure it is. -/
theorem Failure.causeOf_message (e : Failure) : causeOf e.message = e.message := by
  have hspoken : allBlank e.message.toList = false := by
    cases e with
    | json | unavailable => decide
    | bootstrap | send | close | io | config => exact not_allBlank_append (by decide) _
    | connect | http | request =>
      exact not_allBlank_append (not_allBlank_append (not_allBlank_append (by decide) _) _) _
  rw [causeOf, hspoken]
  rfl

namespace Session

variable {b : Backend ω κ} {s t u : Session ω κ}

/-! ## Getting a chat -/

/-- Without a chat id the session is unusable, and nothing was restored. -/
theorem ensureChatId_error {e : Failure} (h : s.ensureChatId b = (.error e, t)) :
    t.unavailable = true ∧ t.transcript = s.transcript := by
  have hobtains := obtains_ensureChatId b s
  rw [h] at hobtains
  cases hobtains with
  | refused unknown up answer => exact ⟨rfl, rfl⟩
  | down unknown down => exact ⟨down, rfl⟩

/-! ## Sending -/

/-- A call by which a question was to be sent has failed, and it was the last one. -/
inductive Undelivered (b : Backend ω κ) (text : String) (images : List String)
    (s' : Session ω κ) (e : Failure) : Prop
  | unconnected {chatId : String} {outside : ω} (chat : s'.chatId = some chatId)
    (answer : b.connect (s'.config.socketUrl chatId) outside = (.error e, s'.outside))
  | untaken {handle : κ} {now : Nat} {outside : ω}
    (answer : b.send handle (Outbound.question now text images).toJson.print outside =
      (.error e, s'.outside))

theorem undelivered_of_sendFrame {text : String} {images : List String} {now : Nat} {e : Failure}
    (hid : s.chatId.isSome)
    (h : s.sendFrame b (.question now text images) = (.error e, u)) :
    Undelivered b text images u e := by
  obtain ⟨chatId, hchat⟩ := Option.isSome_iff_exists.1 hid
  unfold sendFrame at h
  split at h
  · rename_i e' t hline
    obtain ⟨he, rfl⟩ := Prod.mk.inj h
    cases he
    unfold ensureLine at hline
    split at hline
    · cases hline
    · rw [ensureChatId_of_some b hchat] at hline
      unfold openLine at hline
      dsimp only at hline
      split at hline
      · rename_i hconnect
        obtain ⟨he, rfl⟩ := Prod.mk.inj hline
        cases he
        exact .unconnected hchat (Prod.ext hconnect rfl)
      · cases hline
  · dsimp only at h
    split at h
    · rename_i hsend
      obtain ⟨he, rfl⟩ := Prod.mk.inj h
      cases he
      exact .untaken (Prod.ext hsend rfl)
    · cases h

theorem outside_finishWithError (text : String) (s : Session ω κ) :
    (s.finishWithError text).outside = s.outside := by
  unfold finishWithError
  split
  · rfl
  · exact outside_setPhase ..

theorem Undelivered.finishWithError {text : String} {images : List String} {e : Failure}
    (h : Undelivered b text images s e) (said : String) :
    Undelivered b text images (s.finishWithError said) e := by
  have hleaves := leavesChat_finishWithError said s
  have houtside := outside_finishWithError said s
  cases h with
  | @unconnected chatId outside chat answer =>
    rw [← hleaves.config, ← houtside] at answer
    exact .unconnected (hleaves.chatId.trans chat) answer
  | untaken answer =>
    rw [← houtside] at answer
    exact .untaken answer

/-! ## Asking -/

/-- What asking a question comes to, by the result.  The text and the images are those of the
question as it is put. -/
inductive Settles (b : Backend ω κ) (text : String) (images : List String) (s : Session ω κ) :
    Except Failure Outcome → Session ω κ → Prop
  /-- No chat id can be had. -/
  | down {s' : Session ω κ} (unavailable : s'.unavailable = true)
    (transcript : s'.transcript = s.transcript) (exchange : s'.exchange = s.exchange)
    (phase : s'.phase = s.phase) : Settles b text images s (.error .unavailable) s'
  /-- The question is on its way. -/
  | sent {s' : Session ω κ} {old : List Message} {now : Nat}
    (restores : Restores b s.config s.drawn (s.since s') old)
    (transcript : s'.transcript = old ++ s.transcript ++
      [Message.human (b.newId (s.drawn + old.length)) now text images,
        Message.thinking (b.newId (s.drawn + old.length + 1)) now])
    (exchange : s'.exchange = some { placeholder := b.newId (s.drawn + old.length + 1) })
    (phase : s'.phase = .waiting) (line : s'.line.isSome) :
    Settles b text images s (.ok .sent) s'
  /-- It could not be sent, and the entry of its answer says why. -/
  | failed {s' : Session ω κ} {old : List Message} {now : Nat} {e : Failure}
    (restores : Restores b s.config s.drawn (s.since s') old)
    (undelivered : Undelivered b text images s' e)
    (transcript : s'.transcript = old ++ s.transcript ++
      [Message.human (b.newId (s.drawn + old.length)) now text images,
        { Message.thinking (b.newId (s.drawn + old.length + 1)) now with
          kind := .error, text := e.message, html := escape e.message }])
    (exchange : s'.exchange = none) (phase : s'.phase = .idle) (line : s'.line = none) :
    Settles b text images s (.ok .failed) s'

/-- Once there is a chat, a question is on its way or its entry says why it is not. -/
theorem settles_sendQuestion (text : String) (images : List String) {old : List Message}
    (hload : Loads b s t old) (hid : t.chatId.isSome) :
    Settles b text (s.config.admits images) s (.ok (t.sendQuestion b text images).1)
      (t.sendQuestion b text images).2 := by
  obtain ⟨answer, hposes⟩ := poses_sendQuestion (b := b) text images hid
  have hrestores := hload.restores_trans hposes.did
  have hsending := sending_sendQuestion (b := b) text images t
  rw [hload.config] at hsending
  generalize t.sendQuestion b text images = asked at hrestores hsending ⊢
  obtain ⟨outcome, s'⟩ := asked
  cases hsending with
  | sent begun delivered =>
    obtain ⟨hleaves, hline, hdelivers⟩ := sendFrame_ok (begun.chatId hid) delivered
    obtain ⟨now, htranscript⟩ := begun.transcript
    have hshows := hdelivers.transcript.trans htranscript
    have hx := hleaves.exchange.trans begun.exchange
    rw [hload.drawn] at hshows hx
    rw [hload.transcript] at hshows
    exact .sent hrestores hshows hx (hleaves.phase.trans begun.phase) hline
  | @failed v u e begun lost =>
    obtain ⟨hleaves, hline, hadds⟩ := sendFrame_error (begun.chatId hid) lost
    have hundelivered := undelivered_of_sendFrame (begun.chatId hid) lost
    obtain ⟨now, htranscript⟩ := begun.transcript
    have hx := hleaves.exchange.trans begun.exchange
    obtain ⟨hnone, hidle⟩ := finishWithError_spec e.message hx
    obtain ⟨hshows, -⟩ := finishWithError_last e.message hx
      ((hadds.transcript.trans htranscript).trans (List.append_cons ..)) rfl
    have hclosed : (u.finishWithError e.message).line = none := by
      rcases (leavesChat_finishWithError e.message u).line with hsame | hgone
      · exact hsame.trans hline
      · exact hgone
    rw [e.causeOf_message, List.append_assoc, hload.drawn, hload.transcript] at hshows
    exact .failed hrestores (hundelivered.finishWithError e.message) hshows hnone hidle hclosed

/-- **Asking a question fails cleanly**: whatever gives out, an available session that is idle
ends up in the state that the result tells, and there is no other result. -/
theorem settles_ask {text : String} (images : List String) (hup : s.unavailable = false)
    (hidle : s.phase = .idle) (hempty : trimmed text ≠ "") (hclear : trimmed text ≠ "/clear")
    (hreset : trimmed text ≠ "/reset") :
    Settles b (trimmed text) (s.config.admits images) s (s.ask b text images).1
      (s.ask b text images).2 := by
  obtain ⟨old, hload⟩ := loads_ensureChatId b s
  obtain ⟨hleaves, hknown⟩ := ensureChatId_spec b s
  rw [ask_question images hup hidle hempty hclear hreset]
  cases hid : s.ensureChatId b with
  | mk answer t =>
    rw [hid] at hload hleaves hknown
    cases answer with
    | error e =>
      obtain ⟨hdown, htranscript⟩ := ensureChatId_error hid
      exact .down hdown htranscript hleaves.exchange hleaves.phase
    | ok chatId => exact settles_sendQuestion _ images hload (by rw [hknown chatId rfl]; rfl)

/-- The history is restored, and the channel that is opened does not take the question. -/
theorem settles_ask_untaken :
    (start {} { history := [{ role := .ai, text := "a" }], failSend := true } :
        MemorySession).unavailable = false ∧
      (start {} { history := [{ role := .ai, text := "a" }], failSend := true } :
        MemorySession).phase = .idle ∧
      trimmed " q " ≠ "" ∧ trimmed " q " ≠ "/clear" ∧ trimmed " q " ≠ "/reset" ∧
      Settles Memory.backend (trimmed " q ") []
        (start {} { history := [{ role := .ai, text := "a" }], failSend := true }) (.ok .failed)
        ((start {} { history := [{ role := .ai, text := "a" }], failSend := true }).ask
          Memory.backend " q " []).2 := by
  have hempty : trimmed " q " ≠ "" := by decide
  have hclear : trimmed " q " ≠ "/clear" := by decide
  have hreset : trimmed " q " ≠ "/reset" := by decide
  have hsettles := settles_ask (b := Memory.backend) []
    (s := start {} { history := [{ role := .ai, text := "a" }], failSend := true })
    rfl rfl hempty hclear hreset
  exact ⟨rfl, rfl, hempty, hclear, hreset, hsettles⟩

end Session
end Chat
end AnswerStream
