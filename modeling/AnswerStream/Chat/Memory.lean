import AnswerStream.Chat.Session

/-!
# A backend in memory

A service that answers from what it was given, and a channel whose other end is
at hand.  It numbers the chats it creates, keeps one history for all of them, and
fails on request: each way in which a real service gives out has a switch.

At most one channel is fed at a time, the one opened last.  Something put into it
arrives as long as a session still holds that channel.
-/

namespace AnswerStream
namespace Chat

/-- The state of a service and a channel in memory. -/
structure Memory where
  /-- The time it tells. -/
  time : Nat := 0
  /-- How many chats it has created. -/
  chats : Nat := 0
  /-- The history of every chat. -/
  history : List HistoryEntry := []
  /-- How many channels were opened. -/
  lines : Nat := 0
  /-- The channel that is fed. -/
  fed : Option Nat := none
  /-- What waits in it. -/
  queue : List ChannelEvent := []
  /-- Whether no chat can be had. -/
  unavailable : Bool := false
  /-- Whether connections are refused. -/
  refusing : Bool := false
  /-- Whether clearing and voting fail. -/
  failSide : Bool := false
  /-- Whether sending fails. -/
  failSend : Bool := false
  /-- Whether closing fails. -/
  failClose : Bool := false
  /-- Whether the history cannot be had. -/
  failHistory : Bool := false

namespace Memory

/-- The result of clearing or voting. -/
def side (m : Memory) (path : String) : Except Failure Unit :=
  if m.failSide then .error (.http 500 ("memory://" ++ path)) else .ok ()

/-- The backend. -/
def backend : Backend Memory Nat where
  now m := m.time
  newId := numberedId
  chatId m :=
    if m.unavailable then (.error (.http 503 "memory://id"), m)
    else
      (.ok ("chat-" ++ toString (m.chats + 1)), { m with chats := m.chats + 1 })
  history _ m :=
    if m.failHistory then (.error (.http 502 "memory://history"), m) else (.ok m.history, m)
  clear _ _ m := (m.side "clear", if m.failSide then m else { m with history := [] })
  vote _ _ _ m := (m.side "vote", m)
  connect url m :=
    if m.refusing then (.error (.connect url "connection refused"), m)
    else (.ok m.lines, { m with lines := m.lines + 1, fed := some m.lines, queue := [] })
  send _ _ m := (if m.failSend then .error (.send "broken <pipe>") else .ok (), m)
  receive line m :=
    if m.fed = some line then
      match m.queue with
      | e :: rest => (.event e, { m with queue := rest })
      | [] => (.waiting, m)
    else (.exhausted, m)
  close _ _ m :=
    (if m.failClose then .error (.close "already closed") else .ok (),
      { m with fed := none, queue := [] })

end Memory

/-- A session over a backend in memory. -/
abbrev MemorySession := Session Memory Nat

namespace MemorySession

/-- Put an event into the channel.  It is taken if the session holds the channel
that is fed. -/
def feed (e : ChannelEvent) (s : MemorySession) : Bool × MemorySession :=
  match s.line, s.outside.fed with
  | some line, some fed =>
    if line.handle = fed then
      (true, { s with outside := { s.outside with queue := s.outside.queue ++ [e] } })
    else (false, s)
  | _, _ => (false, s)

/-- Pump while an exchange is in flight and events wait. -/
def runUntilIdle (s : MemorySession) : Pumped × MemorySession :=
  Session.runUntilIdle Memory.backend (s.outside.queue.length + 1) s

end MemorySession

end Chat
end AnswerStream
