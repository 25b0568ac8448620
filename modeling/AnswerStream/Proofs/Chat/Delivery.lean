import Mathlib.Logic.Basic
import AnswerStream.Proofs.Chat.Run

/-!
# What the channels take

What a session remembers to have sent is its own account.  Here is another one, which the
session has no part in: a backend can keep a tape of every text that one of its channels takes
(`Backend.taped`).  The texts on tape are read off the calls that are made of the backend, and
`taken` is what is on tape after a run.

The two accounts agree (`taken_eq`).  A session over the taped backend does what the session
over the backend does, and its tape is what that session remembers: this is so of every state
(`mirror`), as every function of a session turns a mirrored state into the mirror of what it
comes to.
-/

namespace AnswerStream
namespace Chat

open Text

variable {ω κ : Type}

/-! ## A tape -/

/-- A call beside a tape, which stays as it is. -/
def beside {α : Type} (call : ω → α × ω) (w : ω × List String) : α × ω × List String :=
  ((call w.1).1, (call w.1).2, w.2)

namespace Backend

/-- A backend with a tape of the texts that its channels take, the latest first. -/
def taped (b : Backend ω κ) : Backend (ω × List String) κ where
  now w := b.now w.1
  newId := b.newId
  chatId := beside b.chatId
  history chatId := beside (b.history chatId)
  clear chatId hard := beside (b.clear chatId hard)
  vote id up down := beside (b.vote id up down)
  connect url := beside (b.connect url)
  send handle text w :=
    match b.send handle text w.1 with
    | (.ok (), outside) => (.ok (), outside, text :: w.2)
    | (.error e, outside) => (.error e, outside, w.2)
  receive handle := beside (b.receive handle)
  close handle code := beside (b.close handle code)

section Requests

variable (b : Backend ω κ)

theorem chatId_taped : b.taped.chatId = beside b.chatId := rfl

theorem history_taped (chatId : String) : b.taped.history chatId = beside (b.history chatId) := rfl

theorem clear_taped (chatId : String) (hard : Bool) :
    b.taped.clear chatId hard = beside (b.clear chatId hard) := rfl

theorem vote_taped (id : String) (up down : Bool) :
    b.taped.vote id up down = beside (b.vote id up down) := rfl

end Requests

end Backend

/-- An operation over the states of another backend. -/
def Op.map {ω' : Type} (f : ω → ω') : Op ω → Op ω'
  | bootstrap => .bootstrap
  | connect => .connect
  | ask text images => .ask text images
  | stop => .stop
  | vote id up down => .vote id up down
  | clear hard => .clear hard
  | syncContext value => .syncContext value
  | pump => .pump
  | handleFrame text => .handleFrame text
  | handleEvent e => .handleEvent e
  | handleClose code => .handleClose code
  | meanwhile outside => .meanwhile (f outside)

namespace Session

/-- A run over the taped backend.  When the backend moves by itself, the tape stays as it is. -/
def tapedAfter (b : Backend ω κ) (config : Config) (outside : ω) :
    List (Op ω) → Session (ω × List String) κ
  | [] => start config (outside, [])
  | op :: past =>
    let s := tapedAfter b config outside past
    (op.map fun outside => (outside, s.outside.2)).apply b.taped s

/-- The texts that the channels have taken in a run, the latest first. -/
def taken (b : Backend ω κ) (config : Config) (outside : ω) (past : List (Op ω)) :
    List String :=
  (tapedAfter b config outside past).outside.2

end Session

/-! ## What a session remembers of it -/

/-- The text of a frame that was taken. -/
def Effect.taken? : Effect → Option String
  | sent f true => some f.toJson.print
  | _ => none

namespace Session

/-- The texts that a session remembers to have been taken, the latest first. -/
def written (s : Session ω κ) : List String := s.effects.filterMap Effect.taken?

/-- A session over the taped backend, on whose tape is what it remembers. -/
def mirror (s : Session ω κ) : Session (ω × List String) κ where
  config := s.config
  outside := (s.outside, s.written)
  line := s.line
  chatId := s.chatId
  transcript := s.transcript
  phase := s.phase
  exchange := s.exchange
  unavailable := s.unavailable
  drawn := s.drawn
  effects := s.effects
  painted := s.painted

/-- What a function of a session returns, with the mirror of the state. -/
def mirrored {α : Type} (r : α × Session ω κ) : α × Session (ω × List String) κ :=
  (r.1, r.2.mirror)

section Fields

variable (s : Session ω κ)

@[simp] theorem config_mirror : s.mirror.config = s.config := rfl

@[simp] theorem line_mirror : s.mirror.line = s.line := rfl

@[simp] theorem chatId_mirror : s.mirror.chatId = s.chatId := rfl

@[simp] theorem transcript_mirror : s.mirror.transcript = s.transcript := rfl

@[simp] theorem phase_mirror : s.mirror.phase = s.phase := rfl

@[simp] theorem exchange_mirror : s.mirror.exchange = s.exchange := rfl

@[simp] theorem unavailable_mirror : s.mirror.unavailable = s.unavailable := rfl

end Fields

/-! ## Every function is mirrored -/

theorem mirror_setPhase (p : Phase) (s : Session ω κ) :
    s.mirror.setPhase p = (s.setPhase p).mirror := by
  unfold setPhase
  by_cases h : s.phase = p
  · rw [if_pos h]
    exact if_pos h
  · rw [if_neg h]
    exact if_neg h

theorem mirror_request {α : Type} (r : Request) (ask : ω → Except Failure α × ω)
    (s : Session ω κ) : s.mirror.request r (beside ask) = mirrored (s.request r ask) := rfl

variable (b : Backend ω κ)

theorem mirror_restore (entries : List HistoryEntry) (s : Session ω κ) :
    s.mirror.restore b.taped entries = (s.restore b entries).mirror := by
  unfold restore
  dsimp only
  by_cases h : (entries.zipIdx.map fun e =>
      e.1.restore s.config (b.newId (s.drawn + e.2)) (s.now b)).isEmpty
  · rw [if_pos h]
    exact if_pos h
  · rw [if_neg h]
    exact if_neg h

theorem mirror_loadHistory (chatId : String) (s : Session ω κ) :
    s.mirror.loadHistory b.taped chatId = (s.loadHistory b chatId).mirror := by
  unfold loadHistory
  rw [Backend.history_taped, mirror_request]
  rcases s.request (.history chatId) (b.history chatId) with ⟨_ | entries, t⟩
  · rfl
  · exact mirror_restore b entries t

theorem mirror_bootstrap (s : Session ω κ) :
    s.mirror.bootstrap b.taped = mirrored (s.bootstrap b) := by
  unfold bootstrap
  rw [Backend.chatId_taped, mirror_request, unavailable_mirror]
  split
  · rfl
  · rcases s.request .chatId b.chatId with ⟨_ | chatId, t⟩
    · rfl
    · exact congrArg (Prod.mk _) (mirror_loadHistory b chatId { t with chatId := some chatId })

theorem mirror_ensureChatId (s : Session ω κ) :
    s.mirror.ensureChatId b.taped = mirrored (s.ensureChatId b) := by
  unfold ensureChatId
  rw [chatId_mirror, mirror_bootstrap]
  split
  · rfl
  · rcases s.bootstrap b with ⟨_ | _, t⟩
    · rfl
    · dsimp only [mirrored, chatId_mirror]
      split <;> rfl

theorem mirror_openLine (url : String) (s : Session ω κ) :
    s.mirror.openLine b.taped url = mirrored (s.openLine b url) := by
  have hconnect : b.taped.connect url s.mirror.outside =
    ((b.connect url s.outside).1, (b.connect url s.outside).2, s.written) := rfl
  unfold openLine
  rw [hconnect]
  rcases b.connect url s.outside with ⟨_ | handle, outside⟩ <;> rfl

theorem mirror_ensureLine (s : Session ω κ) :
    s.mirror.ensureLine b.taped = mirrored (s.ensureLine b) := by
  unfold ensureLine
  rw [line_mirror, mirror_ensureChatId]
  split
  · rfl
  · rcases s.ensureChatId b with ⟨_ | chatId, t⟩
    · rfl
    · exact mirror_openLine b _ t

theorem mirror_connect (s : Session ω κ) :
    s.mirror.connect b.taped = mirrored (s.connect b) := by
  unfold connect
  rw [unavailable_mirror, mirror_ensureLine]
  split
  · rfl
  · rcases s.ensureLine b with ⟨_ | line, t⟩ <;> rfl

/-- What a channel takes is put on tape as it is remembered. -/
theorem mirror_sendFrame (f : Outbound) (s : Session ω κ) :
    s.mirror.sendFrame b.taped f = mirrored (s.sendFrame b f) := by
  unfold sendFrame
  rw [mirror_ensureLine]
  rcases s.ensureLine b with ⟨_ | line, t⟩
  · rfl
  · have hsend : b.taped.send line.handle f.toJson.print t.mirror.outside =
        match b.send line.handle f.toJson.print t.outside with
        | (.ok (), outside) => (.ok (), outside, f.toJson.print :: t.written)
        | (.error e, outside) => (.error e, outside, t.written) := rfl
    dsimp only [mirrored]
    rw [hsend]
    rcases b.send line.handle f.toJson.print t.outside with ⟨_ | _, outside⟩ <;> rfl

theorem mirror_complete (id text : String) (closing : Option Inbound) (s : Session ω κ) :
    s.mirror.complete id text closing = (s.complete id text closing).mirror :=
  mirror_setPhase .idle
    ((s.editMessage id (completed s.config text closing)).announce .transcriptChanged)

theorem mirror_finishWithError (text : String) (s : Session ω κ) :
    s.mirror.finishWithError text = (s.finishWithError text).mirror := by
  unfold finishWithError
  rw [exchange_mirror]
  split
  · rfl
  · dsimp only
    rw [← mirror_setPhase]
    rfl

theorem mirror_handleClose (s : Session ω κ) :
    s.mirror.handleClose = s.handleClose.mirror := by
  unfold handleClose
  dsimp only [exchange_mirror]
  split
  · rw [← mirror_setPhase]
    rfl
  · split
    · rw [← mirror_setPhase]
      rfl
    · rw [← mirror_complete]
      rfl

theorem mirror_hangUp (s : Session ω κ) : s.mirror.hangUp b.taped = (s.hangUp b).mirror := by
  unfold hangUp
  rw [line_mirror]
  split <;> rfl

theorem mirror_stop (s : Session ω κ) : s.mirror.stop b.taped = (s.stop b).mirror := by
  rw [stop, mirror_hangUp, mirror_handleClose]
  rfl

theorem mirror_restart (s : Session ω κ) :
    s.mirror.restart b.taped = (s.restart b).mirror := by
  unfold restart
  rw [mirror_hangUp]
  exact congrArg Prod.snd (mirror_bootstrap b { s.hangUp b with chatId := none })

theorem mirror_clear (hard : Bool) (s : Session ω κ) :
    s.mirror.clear b.taped hard = (s.clear b hard).mirror := by
  have hensure := mirror_ensureChatId b (s.announce (.clearing hard))
  unfold clear
  rw [show s.mirror.announce (.clearing hard) = (s.announce (.clearing hard)).mirror from rfl,
    hensure]
  rcases (s.announce (.clearing hard)).ensureChatId b with ⟨_ | chatId, t⟩
  · rfl
  · dsimp only [mirrored]
    rw [Backend.clear_taped, mirror_request]
    rcases t.request (.clear chatId hard) (b.clear chatId hard) with ⟨_ | _, u⟩
    · rfl
    · cases hard with
      | false => rfl
      | true => exact mirror_restart b u.wipe

theorem mirror_admitImages (images : List String) (s : Session ω κ) :
    s.mirror.admitImages images = mirrored (s.admitImages images) := by
  unfold admitImages
  rw [config_mirror]
  split <;> rfl

theorem mirror_beginExchange (text : String) (images : List String) (s : Session ω κ) :
    s.mirror.beginExchange b.taped text images = (s.beginExchange b text images).mirror := by
  unfold beginExchange
  dsimp only
  rw [← mirror_setPhase]
  rfl

theorem mirror_sendQuestion (text : String) (images : List String) (s : Session ω κ) :
    s.mirror.sendQuestion b.taped text images = mirrored (s.sendQuestion b text images) := by
  unfold sendQuestion
  rw [mirror_admitImages]
  dsimp only [mirrored]
  rw [mirror_beginExchange]
  generalize (s.admitImages images).2.beginExchange b text (s.admitImages images).1 = t
  rw [show t.mirror.now b.taped = t.now b from rfl, mirror_sendFrame]
  rcases t.sendFrame b _ with ⟨_ | _, u⟩
  · exact congrArg (Prod.mk _) (mirror_finishWithError _ u)
  · rfl

theorem mirror_ask (text : String) (images : List String) (s : Session ω κ) :
    s.mirror.ask b.taped text images = mirrored (s.ask b text images) := by
  unfold ask
  rw [unavailable_mirror, phase_mirror, mirror_ensureChatId, mirror_stop]
  dsimp only
  rw [mirror_clear, mirror_clear]
  simp only [apply_ite mirrored]
  refine if_congr .rfl rfl (if_congr .rfl rfl (if_congr .rfl rfl (if_congr .rfl rfl
    (if_congr .rfl rfl ?_))))
  rcases s.ensureChatId b with ⟨_ | chatId, t⟩
  · rfl
  · dsimp only [mirrored]
    rw [mirror_sendQuestion]
    rfl

theorem mirror_vote (id : String) (up down : Bool) (s : Session ω κ) :
    s.mirror.vote b.taped id up down = (s.vote b id up down).mirror := by
  unfold vote
  rw [transcript_mirror, Backend.vote_taped, mirror_request]
  split
  · rfl
  · split
    · rfl
    · rcases s.request (.vote id up down) (b.vote id up down) with ⟨_ | _, t⟩ <;> rfl

theorem mirror_syncContext (value : Json) (s : Session ω κ) :
    s.mirror.syncContext b.taped value = mirrored (s.syncContext b value) := by
  unfold syncContext
  rw [unavailable_mirror]
  split
  · rfl
  · exact mirror_sendFrame b (.context (s.now b) value) s

theorem mirror_onWelcome (f : Inbound) (s : Session ω κ) :
    s.mirror.onWelcome b.taped f = (s.onWelcome b f).mirror := by
  unfold onWelcome
  rw [transcript_mirror]
  split <;> rfl

theorem mirror_onChunk (chunk : String) (s : Session ω κ) :
    s.mirror.onChunk chunk = (s.onChunk chunk).mirror := by
  unfold onChunk
  rw [exchange_mirror]
  split
  · rfl
  · dsimp only
    split
    · rfl
    · exact congrArg (announce .transcriptChanged) (mirror_setPhase .typing (({ s with
        exchange := _ } : Session ω κ).editMessage _ _))

theorem mirror_onStop (f : Inbound) (s : Session ω κ) :
    s.mirror.onStop f = (s.onStop f).mirror := by
  unfold onStop
  rw [exchange_mirror]
  split
  · rfl
  · dsimp only
    rw [← mirror_complete]
    rfl

theorem mirror_onFrame (f : Inbound) (s : Session ω κ) :
    s.mirror.onFrame b.taped f = (s.onFrame b f).mirror := by
  unfold onFrame
  cases f.kind with
  | welcome => exact mirror_onWelcome b f s
  | start => rfl
  | message => exact mirror_onChunk f.content s
  | stop => exact mirror_onStop f s
  | error => exact mirror_finishWithError f.content s

theorem mirror_handleFrame (text : String) (s : Session ω κ) :
    s.mirror.handleFrame b.taped text = (s.handleFrame b text).mirror := by
  unfold handleFrame
  cases Inbound.parse? text with
  | none => rfl
  | some f => exact mirror_onFrame b f s

theorem mirror_handleEvent (e : ChannelEvent) (s : Session ω κ) :
    s.mirror.handleEvent b.taped e = (s.handleEvent b e).mirror := by
  cases e with
  | frame text => exact mirror_handleFrame b text s
  | closed code => exact mirror_handleClose s

theorem mirror_pump (s : Session ω κ) : s.mirror.pump b.taped = mirrored (s.pump b) := by
  unfold pump
  rw [line_mirror]
  split
  · rfl
  · rename_i line _
    have hreceive : b.taped.receive line.handle s.mirror.outside =
      ((b.receive line.handle s.outside).1, (b.receive line.handle s.outside).2, s.written) := rfl
    rw [hreceive]
    rcases b.receive line.handle s.outside with ⟨e | _ | _, outside⟩
    · exact congrArg (Prod.mk _) (mirror_handleEvent b e { s with outside })
    · exact congrArg (Prod.mk _) (mirror_handleClose { s with outside })
    · rfl

/-! ## Runs -/

theorem mirror_apply (op : Op ω) (s : Session ω κ) :
    (op.map fun outside => (outside, s.written)).apply b.taped s.mirror = (op.apply b s).mirror := by
  cases op with
  | bootstrap => exact congrArg Prod.snd (mirror_bootstrap b s)
  | connect => exact congrArg Prod.snd (mirror_connect b s)
  | ask text images => exact congrArg Prod.snd (mirror_ask b text images s)
  | stop => exact mirror_stop b s
  | vote id up down => exact mirror_vote b id up down s
  | clear hard => exact mirror_clear b hard s
  | syncContext value => exact congrArg Prod.snd (mirror_syncContext b value s)
  | pump => exact congrArg Prod.snd (mirror_pump b s)
  | handleFrame text => exact mirror_handleFrame b text s
  | handleEvent e => exact mirror_handleEvent b e s
  | handleClose code => exact mirror_handleClose s
  | meanwhile outside => rfl

/-- A run over the taped backend is the run over the backend, with what is remembered on
tape. -/
theorem mirror_after (config : Config) (outside : ω) (past : List (Op ω)) :
    tapedAfter b config outside past = ((start config outside).after b past).mirror := by
  induction past with
  | nil => rfl
  | cons op past ih =>
    rw [tapedAfter, ih]
    exact mirror_apply b op _

/-- **What a session remembers to have been taken is what the channels took.** -/
theorem taken_eq (config : Config) (outside : ω) (past : List (Op ω)) :
    taken b config outside past = ((start config outside).after b past).written := by
  rw [taken, mirror_after]
  rfl

end Session
end Chat
end AnswerStream
