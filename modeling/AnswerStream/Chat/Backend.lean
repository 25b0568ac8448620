import AnswerStream.Chat.Message

/-!
# What a session talks to

A session talks to a service, which knows the chats, and to channels, which carry
frames.  Both are parameters: a backend is a set of functions on a state of its
own, and every call may fail.  So what is proved of a session holds whatever the
service answers and whenever the network gives out.  The clock and the ids that a
session draws at random are parameters too.

A session remembers what it did, in order: the requests it made, the connections
it opened, what it sent and closed, and the events it announced to whoever paints
the transcript.
-/

namespace AnswerStream
namespace Chat

/-- The code with which a channel is closed on purpose. -/
def normalClosure : Nat := 1000

/-- What a channel delivers. -/
inductive ChannelEvent where
  /-- A text, which may be no frame. -/
  | frame (text : String)
  /-- The other side has closed the channel. -/
  | closed (code : Nat)
  deriving DecidableEq

/-- The answer of a channel that is asked for its next event. -/
inductive Received where
  /-- An event. -/
  | event (e : ChannelEvent)
  /-- There will be no more. -/
  | exhausted
  /-- There is none yet. -/
  | waiting
  deriving DecidableEq

/-- A service and the channels to it.  `ω` is the state they are in, and `κ` is
what a channel is held by. -/
structure Backend (ω κ : Type) where
  /-- The time in milliseconds. -/
  now : ω → Nat
  /-- The ids that a session draws, in order.  Nothing is said of them here: two may
  be the same, and one may be an id that the service gives. -/
  newId : Nat → String
  /-- Fetch the chat id of the session, or create a chat. -/
  chatId : ω → Except Failure String × ω
  /-- Fetch the history of a chat. -/
  history : String → ω → Except Failure (List HistoryEntry) × ω
  /-- Clear the history of a chat, or reset the chat. -/
  clear : (chatId : String) → (hard : Bool) → ω → Except Failure Unit × ω
  /-- Record a vote. -/
  vote : String → (up down : Bool) → ω → Except Failure Unit × ω
  /-- Open a channel to an address. -/
  connect : (url : String) → ω → Except Failure κ × ω
  /-- Send a text over a channel. -/
  send : κ → (text : String) → ω → Except Failure Unit × ω
  /-- Ask a channel for its next event. -/
  receive : κ → ω → Received × ω
  /-- Close a channel. -/
  close : κ → (code : Nat) → ω → Except Failure Unit × ω

/-- Ids with the look of random ones, which differ in their last part. -/
def numberedId (n : Nat) : String := "6f1c8e0a-3b7d-4c52-9e41-" ++ toString n

/-- A request to the service. -/
inductive Request where
  | chatId
  | history (chatId : String)
  | clear (chatId : String) (hard : Bool)
  | vote (id : String) (up down : Bool)
  deriving DecidableEq

/-- Where an exchange stands. -/
inductive Phase where
  /-- There is none. -/
  | idle
  /-- A question was sent and nothing has come back. -/
  | waiting
  /-- An answer is arriving. -/
  | typing
  deriving DecidableEq

namespace Phase

/-- The name of a phase. -/
def name : Phase → String
  | idle => "idle"
  | waiting => "waiting"
  | typing => "typing"

/-- A phase in a message. -/
def describe : Phase → String
  | idle => "Idle"
  | waiting => "Waiting"
  | typing => "Typing"

end Phase

/-- What a person should know and need not act on. -/
inductive Warning where
  /-- The history could not be loaded. -/
  | noHistory (cause : Failure)
  /-- Images were left out of a question. -/
  | imagesDropped (count : Nat)
  /-- There is no entry to vote on. -/
  | noMessage (id : String)
  /-- A vote was not recorded. -/
  | voteFailed (cause : Failure)
  /-- A chat was not cleared. -/
  | clearFailed (cause : Failure)
  deriving DecidableEq

/-- The text of a warning. -/
def Warning.message : Warning → String
  | noHistory cause => "could not load chat history: " ++ cause.message
  | imagesDropped count =>
    "image upload is disabled; dropped " ++ toString count ++ " attachment(s)"
  | noMessage id => "no message " ++ id ++ " to vote on"
  | voteFailed cause => "vote failed: " ++ cause.message
  | clearFailed cause => "clear failed: " ++ cause.message

/-- What a session announces. -/
inductive Event where
  /-- A question is on its way. -/
  | questionIssued (id : String) (text : String)
  /-- The phase is another. -/
  | phaseChanged (phase : Phase)
  /-- The transcript is another. -/
  | transcriptChanged
  /-- A chat is about to be cleared. -/
  | clearing (hard : Bool)
  /-- Something went wrong that needs no action. -/
  | warning (w : Warning)
  /-- There will be no session. -/
  | fatal (detail : String)
  deriving DecidableEq

/-- What a session did. -/
inductive Effect where
  /-- It announced an event. -/
  | announced (e : Event)
  /-- It made a request. -/
  | requested (r : Request)
  /-- It tried to open a channel, and whether it has one. -/
  | connected (url : String) (opened : Bool)
  /-- It tried to send a frame, and whether it was taken. -/
  | sent (f : Outbound) (taken : Bool)
  /-- It closed a channel. -/
  | closed (code : Nat)

/-! ## A listener that lags -/

/-- How many events wait for a listener before the oldest are lost. -/
def eventCapacity : Nat := 256

/-- What a listener gets of a sequence of events: how many it has missed, and the
latest ones. -/
def heard {α : Type} (events : List α) : Nat × List α :=
  (events.length - eventCapacity, events.drop (events.length - eventCapacity))

/-- A listener misses nothing while the events fit. -/
theorem heard_of_le {α : Type} {events : List α} (h : events.length ≤ eventCapacity) :
    heard events = (0, events) := by
  simp [heard, Nat.sub_eq_zero_of_le h]

/-- What was missed and what is heard are all there was. -/
theorem length_heard {α : Type} (events : List α) :
    (heard events).1 + (heard events).2.length = events.length := by
  simp only [heard, List.length_drop]
  omega

end Chat
end AnswerStream
