import AnswerStream.Chat.Backend

/-!
# A chat session

A session turns what a person does into requests and frames, and the frames that
come back into a transcript.  One exchange is in flight at a time: a question was
asked and its answer is not complete.  While it is, the last entry of the
transcript stands for the answer, first empty and then rendered again for every
part that arrives.

## How an exchange ends

An answer ends when the service says so, when it fails, when the person stops it,
or when its channel is gone.  An ending that keeps what has arrived renders it
once more, as a complete answer; if nothing has arrived the entry is removed, and
on a failure it shows the cause.

## What fails quietly

A text that is no frame is dropped.  A vote or a clearing that fails is a warning
and nothing else.  Only a chat id that cannot be had makes a session unusable,
and then for good.
-/

namespace AnswerStream
namespace Chat

open Text

/-- The exchange in flight. -/
structure Exchange where
  /-- The entry that stands for the answer. -/
  placeholder : String
  /-- What has arrived of the answer. -/
  chunks : String := ""
  /-- Whether anything has arrived, be it empty. -/
  streaming : Bool := false
  deriving DecidableEq

/-- An open channel. -/
structure Line (κ : Type) where
  /-- What it is held by. -/
  handle : κ
  /-- The address it was opened to. -/
  url : String

/-- A chat session over a backend. -/
structure Session (ω κ : Type) where
  /-- Its options. -/
  config : Config
  /-- The state of the backend. -/
  outside : ω
  /-- The open channel. -/
  line : Option (Line κ) := none
  /-- The current chat. -/
  chatId : Option String := none
  /-- What is on screen. -/
  transcript : List Message := []
  /-- Where the exchange stands. -/
  phase : Phase := .idle
  /-- The exchange in flight. -/
  exchange : Option Exchange := none
  /-- Whether it has failed for good. -/
  unavailable : Bool := false
  /-- How many ids it has drawn. -/
  drawn : Nat := 0
  /-- What it did, the latest first. -/
  effects : List Effect := []
  /-- What whoever paints the transcript has painted, going by what was announced. -/
  painted : List Message := []

/-- What became of a question. -/
inductive Outcome where
  /-- It is on its way. -/
  | sent
  /-- It was blank. -/
  | ignored
  /-- An exchange was in flight, which was stopped instead. -/
  | stopped
  /-- It was a command to clear the chat. -/
  | cleared
  /-- It could not be delivered; the cause is in the transcript. -/
  | failed
  deriving DecidableEq

/-- The name of an outcome. -/
def Outcome.name : Outcome → String
  | sent => "Sent"
  | ignored => "Ignored"
  | stopped => "Stopped"
  | cleared => "Cleared"
  | failed => "Failed"

/-- What came of asking the channel for an event. -/
inductive Pumped where
  /-- An event was applied. -/
  | applied
  /-- There is no channel, or there is no more. -/
  | finished
  /-- There is no event yet. -/
  | waiting
  deriving DecidableEq

/-- What an answer says that failed without saying why. -/
def failureText : String := "Something went wrong. Please try again."

/-- Change the last member of a list that satisfies `p`. -/
def updateLast? {α : Type} (p : α → Bool) (f : α → α) : List α → Option (List α)
  | [] => none
  | x :: xs =>
    match updateLast? p f xs with
    | some ys => some (x :: ys)
    | none => if p x then some (f x :: xs) else none

namespace Session

variable {ω κ : Type}

/-! ## What a session does -/

/-- Remember an effect.  The transcript is painted as it is when a change of it is
announced. -/
def record (e : Effect) (s : Session ω κ) : Session ω κ :=
  { s with
    effects := e :: s.effects
    painted :=
      match e with
      | .announced .transcriptChanged => s.transcript
      | _ => s.painted }

/-- Announce an event. -/
def announce (e : Event) (s : Session ω κ) : Session ω κ := s.record (.announced e)

/-- Announce a warning. -/
def warn (w : Warning) (s : Session ω κ) : Session ω κ := s.announce (.warning w)

/-- Move to a phase, and say so if it is another. -/
def setPhase (phase : Phase) (s : Session ω κ) : Session ω κ :=
  if s.phase = phase then s else { s with phase }.announce (.phaseChanged phase)

/-- Change the last entry with the given id, if there is one. -/
def editMessage (id : String) (f : Message → Message) (s : Session ω κ) : Session ω κ :=
  { s with transcript := (updateLast? (fun m => m.id = id) f s.transcript).getD s.transcript }

/-- Ask the service. -/
def request {α : Type} (r : Request) (ask : ω → Except Failure α × ω) (s : Session ω κ) :
    Except Failure α × Session ω κ :=
  let answer := ask s.outside
  (answer.1, { s with outside := answer.2 }.record (.requested r))

variable (b : Backend ω κ)

/-- The time. -/
def now (s : Session ω κ) : Nat := b.now s.outside

/-! ## Getting ready -/

/-- Put the history ahead of what is on screen. -/
def restore (entries : List HistoryEntry) (s : Session ω κ) : Session ω κ :=
  let restored := entries.zipIdx.map fun e =>
    e.1.restore s.config (b.newId (s.drawn + e.2)) (s.now b)
  if restored.isEmpty then s
  else
    { s with
      transcript := restored ++ s.transcript
      drawn := s.drawn + restored.length }.announce .transcriptChanged

/-- Load the history of a chat.  A failure is only a warning. -/
def loadHistory (chatId : String) (s : Session ω κ) : Session ω κ :=
  match s.request (.history chatId) (b.history chatId) with
  | (.ok entries, s) => s.restore b entries
  | (.error e, s) => s.warn (.noHistory e)

/-- Get a chat id, and then the history.  Without a chat id the session is
unusable. -/
def bootstrap (s : Session ω κ) : Except Failure Unit × Session ω κ :=
  if s.unavailable then (.error .unavailable, s)
  else
    match s.request .chatId b.chatId with
    | (.ok chatId, s) => (.ok (), { s with chatId := some chatId }.loadHistory b chatId)
    | (.error e, s) =>
      (.error (.bootstrap e.message), { s with unavailable := true }.announce (.fatal e.message))

/-- The chat id, which is fetched if there is none. -/
def ensureChatId (s : Session ω κ) : Except Failure String × Session ω κ :=
  match s.chatId with
  | some chatId => (.ok chatId, s)
  | none =>
    match s.bootstrap b with
    | (.error e, s) => (.error e, s)
    | (.ok (), s) =>
      match s.chatId with
      | some chatId => (.ok chatId, s)
      | none => (.error (.bootstrap "no chat id after bootstrap"), s)

/-- Open a channel to an address. -/
def openLine (url : String) (s : Session ω κ) : Except Failure (Line κ) × Session ω κ :=
  let answer := b.connect url s.outside
  let s := { s with outside := answer.2 }
  match answer.1 with
  | .error e => (.error e, s.record (.connected url false))
  | .ok handle =>
    let line := { handle, url }
    (.ok line, { s with line := some line }.record (.connected url true))

/-- The channel, which is opened if there is none. -/
def ensureLine (s : Session ω κ) : Except Failure (Line κ) × Session ω κ :=
  match s.line with
  | some line => (.ok line, s)
  | none =>
    match s.ensureChatId b with
    | (.error e, s) => (.error e, s)
    | (.ok chatId, s) => s.openLine b (s.config.socketUrl chatId)

/-- Open the channel before it is needed, so that a greeting can arrive. -/
def connect (s : Session ω κ) : Except Failure Unit × Session ω κ :=
  if s.unavailable then (.error .unavailable, s)
  else
    match s.ensureLine b with
    | (.error e, s) => (.error e, s)
    | (.ok _, s) => (.ok (), s)

/-- Send a frame.  A channel that does not take it is given up. -/
def sendFrame (f : Outbound) (s : Session ω κ) : Except Failure Unit × Session ω κ :=
  match s.ensureLine b with
  | (.error e, s) => (.error e, s)
  | (.ok line, s) =>
    let answer := b.send line.handle f.toJson.print s.outside
    let s := { s with outside := answer.2 }
    match answer.1 with
    | .error e => (.error e, { s with line := none }.record (.sent f false))
    | .ok () => (.ok (), s.record (.sent f true))

/-! ## How an exchange ends -/

/-- What is added to an answer when its last frame has come. -/
def addClosing (config : Config) (f : Inbound) (m : Message) : Message :=
  { m with
    id := f.id.getD m.id
    timestamp := f.timestamp <|> m.timestamp
    references := if config.disableReferences then m.references else f.references
    urls := if config.disableReferences then m.urls else f.urls
    relatedQuestions := f.relatedQuestions
    relatedQuestionPrompt := f.relatedQuestionPrompt }

/-- The entry of an answer once it is complete. -/
def completed (config : Config) (text : String) (closing : Option Inbound) (m : Message) :
    Message :=
  let m :=
    { m with
      kind := .message
      text
      html := Markup.render .final text
      feedback := !config.disableFeedback
      speakable := !config.disableSpeechPlayback }
  match closing with
  | none => m
  | some f => addClosing config f m

/-- Complete the answer that the entry `id` stands for. -/
def complete (id : String) (text : String) (closing : Option Inbound) (s : Session ω κ) :
    Session ω κ :=
  ((s.editMessage id (completed s.config text closing)).announce .transcriptChanged).setPhase .idle

/-- End the exchange with a cause, which its entry then shows. -/
def finishWithError (text : String) (s : Session ω κ) : Session ω κ :=
  match s.exchange with
  | none => s
  | some x =>
    let text := if allBlank text.toList then failureText else text
    let shown := { s with exchange := none }.editMessage x.placeholder fun m =>
      { m with kind := .error, text, html := escape text }
    (shown.announce .transcriptChanged).setPhase .idle

/-- The channel is gone, whatever closed it. -/
def handleClose (s : Session ω κ) : Session ω κ :=
  let s := { s with line := none }
  match s.exchange with
  | none => s.setPhase .idle
  | some x =>
    let s := { s with exchange := none }
    if x.chunks = "" then
      let kept := s.transcript.filter fun m => m.id ≠ x.placeholder
      ({ s with transcript := kept }.announce .transcriptChanged).setPhase .idle
    else s.complete x.placeholder x.chunks none

/-- Close the channel on purpose.  Whether that succeeds makes no difference. -/
def hangUp (s : Session ω κ) : Session ω κ :=
  match s.line with
  | none => s
  | some line =>
    let answer := b.close line.handle normalClosure s.outside
    { s with outside := answer.2, line := none }.record (.closed normalClosure)

/-- Stop the exchange. -/
def stop (s : Session ω κ) : Session ω κ := (s.hangUp b).handleClose

/-! ## What a person does -/

/-- Forget everything on screen. -/
def wipe (s : Session ω κ) : Session ω κ :=
  { s with transcript := [], exchange := none }.announce .transcriptChanged

/-- Start over with a new chat. -/
def restart (s : Session ω κ) : Session ω κ :=
  ({ s.hangUp b with chatId := none }.bootstrap b).2

/-- Clear the history, or reset the chat entirely. -/
def clear (hard : Bool) (s : Session ω κ) : Session ω κ :=
  match (s.announce (.clearing hard)).ensureChatId b with
  | (.error e, s) => s.warn (.clearFailed e)
  | (.ok chatId, s) =>
    match s.request (.clear chatId hard) (b.clear chatId hard) with
    | (.error e, s) => s.warn (.clearFailed e)
    | (.ok (), s) => if hard then s.wipe.restart b else s.wipe

/-- The images of a question, which are left out if they are disabled. -/
def admitImages (images : List String) (s : Session ω κ) : List String × Session ω κ :=
  if s.config.disableImageUpload && !images.isEmpty then
    ([], s.warn (.imagesDropped images.length))
  else (images, s)

/-- Put a question on screen, with an entry for its answer. -/
def beginExchange (text : String) (images : List String) (s : Session ω κ) : Session ω κ :=
  let question := b.newId s.drawn
  let answer := b.newId (s.drawn + 1)
  let entries :=
    [Message.human question (s.now b) text images, Message.thinking answer (s.now b)]
  ({ s with
      exchange := some { placeholder := answer }
      transcript := s.transcript ++ entries
      drawn := s.drawn + 2 }.announce .transcriptChanged).setPhase .waiting

/-- Send a question that is neither blank nor a command. -/
def sendQuestion (text : String) (images : List String) (s : Session ω κ) :
    Outcome × Session ω κ :=
  let admitted := s.admitImages images
  let question := b.newId admitted.2.drawn
  let begun := admitted.2.beginExchange b text admitted.1
  match begun.sendFrame b (.question (begun.now b) text admitted.1) with
  | (.ok (), s) => (.sent, s.announce (.questionIssued question text))
  | (.error e, s) => (.failed, s.finishWithError e.message)

/-- Ask a question.  While an exchange is in flight, this stops it whatever the
text; two texts are commands to clear the chat. -/
def ask (text : String) (images : List String) (s : Session ω κ) :
    Except Failure Outcome × Session ω κ :=
  if s.unavailable then (.error .unavailable, s)
  else if s.phase ≠ .idle then (.ok .stopped, s.stop b)
  else
    let text := String.ofList (trim text.toList)
    if text = "" then (.ok .ignored, s)
    else if text = "/clear" then (.ok .cleared, s.clear b false)
    else if text = "/reset" then (.ok .cleared, s.clear b true)
    else
      match s.ensureChatId b with
      | (.error _, s) => (.error .unavailable, s)
      | (.ok _, s) =>
        let asked := s.sendQuestion b text images
        (.ok asked.1, asked.2)

/-- Vote on an entry.  A vote that it already has is not sent again. -/
def vote (id : String) (up down : Bool) (s : Session ω κ) : Session ω κ :=
  match s.transcript.find? fun m => m.id = id with
  | none => s.warn (.noMessage id)
  | some m =>
    if m.upvote = up ∧ m.downvote = down then s
    else
      match s.request (.vote id up down) (b.vote id up down) with
      | (.ok (), s) =>
        (s.editMessage id fun m => { m with upvote := up, downvote := down }).announce
          .transcriptChanged
      | (.error e, s) => s.warn (.voteFailed e)

/-- Tell the bot about the context. -/
def syncContext (value : Json) (s : Session ω κ) : Except Failure Unit × Session ω κ :=
  if s.unavailable then (.error .unavailable, s)
  else s.sendFrame b (.context (s.now b) value)

/-! ## What arrives -/

/-- A greeting, which is shown only on an empty screen. -/
def onWelcome (f : Inbound) (s : Session ω κ) : Session ω κ :=
  if s.transcript.isEmpty then
    let m :=
      { Message.ai (b.newId s.drawn) (s.now b) .welcome f.content with
        relatedQuestions := f.relatedQuestions
        relatedQuestionPrompt := f.relatedQuestionPrompt }
    { s with
      transcript := [{ m with timestamp := f.timestamp <|> m.timestamp }]
      drawn := s.drawn + 1 }.announce .transcriptChanged
  else s

/-- An answer starts over. -/
def onStart (s : Session ω κ) : Session ω κ :=
  { s with exchange := s.exchange.map fun x => { x with chunks := "" } }

/-- A part of an answer. -/
def onChunk (chunk : String) (s : Session ω κ) : Session ω κ :=
  match s.exchange with
  | none => s
  | some x =>
    let text := x.chunks ++ chunk
    let s := { s with exchange := some { x with chunks := text, streaming := true } }
    let s := s.editMessage x.placeholder fun m =>
      { m with kind := .message, text, html := Markup.render .streaming text }
    (if x.streaming then s else s.setPhase .typing).announce .transcriptChanged

/-- An answer is complete.  Its text is what has arrived, or else what the last
frame carries. -/
def onStop (f : Inbound) (s : Session ω κ) : Session ω κ :=
  match s.exchange with
  | none => s
  | some x =>
    let text := if x.chunks = "" then f.content else x.chunks
    { s with exchange := none }.complete x.placeholder text (some f)

/-- Apply a frame. -/
def onFrame (f : Inbound) (s : Session ω κ) : Session ω κ :=
  match f.kind with
  | .welcome => s.onWelcome b f
  | .start => s.onStart
  | .message => s.onChunk f.content
  | .stop => s.onStop f
  | .error => s.finishWithError f.content

/-- Apply a text that has arrived.  One that is no frame is dropped. -/
def handleFrame (text : String) (s : Session ω κ) : Session ω κ :=
  match Inbound.parse? text with
  | none => s
  | some f => s.onFrame b f

/-- Apply an event of the channel. -/
def handleEvent (e : ChannelEvent) (s : Session ω κ) : Session ω κ :=
  match e with
  | .frame text => s.handleFrame b text
  | .closed _ => s.handleClose

/-- Ask the channel for an event and apply it. -/
def pump (s : Session ω κ) : Pumped × Session ω κ :=
  match s.line with
  | none => (.finished, s)
  | some line =>
    let answer := b.receive line.handle s.outside
    let s := { s with outside := answer.2 }
    match answer.1 with
    | .event e => (.applied, s.handleEvent b e)
    | .exhausted => (.finished, s.handleClose)
    | .waiting => (.waiting, s)

/-- Pump at most `limit` times while an exchange is in flight.  Whether the
channel has events to come is part of the result. -/
def runUntilIdle : (limit : Nat) → Session ω κ → Pumped × Session ω κ
  | 0, s => (.waiting, s)
  | limit + 1, s =>
    if s.phase = .idle then (.finished, s)
    else
      match s.pump b with
      | (.applied, s) => runUntilIdle limit s
      | (p, s) => (p, s)

/-! ## Messages -/

/-- A session in a message. -/
def describe (s : Session ω κ) : String :=
  showRecord "ChatSession"
    [("session_id", quote s.config.sessionId), ("chat_id", showOption (s.chatId.map quote)),
     ("phase", s.phase.describe), ("messages", toString s.transcript.length),
     ("connected", showBool s.line.isSome)]

/-- The events that were announced, the latest first. -/
def events (s : Session ω κ) : List Event :=
  s.effects.filterMap fun
    | .announced e => some e
    | _ => none

@[simp] theorem phase_setPhase (p : Phase) (s : Session ω κ) : (s.setPhase p).phase = p := by
  unfold setPhase
  split
  · assumption
  · rfl

@[simp] theorem setPhase_self (s : Session ω κ) : s.setPhase s.phase = s := by
  simp [setPhase]

end Session

end Chat
end AnswerStream
