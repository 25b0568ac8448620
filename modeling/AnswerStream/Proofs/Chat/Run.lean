import AnswerStream.Chat.Session

/-!
# Runs of a session

A run is any sequence of operations on a session that has just been made.  The backend
is a parameter, so its calls succeed and fail in any way, and between two operations it
may move to any other state: frames come in, channels are lost, time goes on.  A run is
given by what was done, the latest first, as the effects of a session are.

Three things about an operation matter to the exchange in flight: whether it hands a
message frame to the session, whether it clears the chat, and whether it loses the
channel.  They are read off the operation and the state before it.
-/

namespace AnswerStream
namespace Chat

variable {ω κ : Type}

/-! ## Operations -/

/-- What can be done with a session. -/
inductive Op (ω : Type) where
  | bootstrap
  | connect
  | ask (text : String) (images : List String)
  | stop
  | vote (id : String) (up down : Bool)
  | clear (hard : Bool)
  | syncContext (value : Json)
  | pump
  | handleFrame (text : String)
  | handleEvent (e : ChannelEvent)
  | handleClose (code : Nat)
  /-- Nothing is done, and the backend moves to another state. -/
  | meanwhile (outside : ω)

namespace Op

variable (b : Backend ω κ)

/-- What an operation makes of a session. -/
def apply (s : Session ω κ) : Op ω → Session ω κ
  | bootstrap => (s.bootstrap b).2
  | connect => (s.connect b).2
  | ask text images => (s.ask b text images).2
  | stop => s.stop b
  | vote id up down => s.vote b id up down
  | clear hard => s.clear b hard
  | syncContext value => (s.syncContext b value).2
  | pump => (s.pump b).2
  | handleFrame text => s.handleFrame b text
  | handleEvent e => s.handleEvent b e
  | handleClose _ => s.handleClose
  | meanwhile outside => { s with outside }

/-- The text that an operation hands to a session as a frame. -/
def delivers (s : Session ω κ) : Op ω → Option String
  | handleFrame text => some text
  | handleEvent (.frame text) => some text
  | pump =>
    match s.line with
    | none => none
    | some line =>
      match (b.receive line.handle s.outside).1 with
      | .event (.frame text) => some text
      | _ => none
  | _ => none

variable {b} in
/-- Whatever hands a text over, it is as if it came by itself. -/
theorem exists_apply_of_delivers {s : Session ω κ} {op : Op ω} {text : String}
    (hop : op.delivers b s = some text) :
    ∃ outside, op.apply b s = ({ s with outside } : Session ω κ).handleFrame b text := by
  cases op with
  | handleFrame text' =>
    cases hop
    exact ⟨s.outside, rfl⟩
  | handleEvent e =>
    cases e with
    | frame text' =>
      cases hop
      exact ⟨s.outside, rfl⟩
    | closed code => cases hop
  | pump =>
    rw [delivers] at hop
    split at hop
    · cases hop
    · rename_i line hline
      split at hop
      · rename_i text' hreceived
        cases hop
        refine ⟨(b.receive line.handle s.outside).2, ?_⟩
        rw [apply, Session.pump, hline]
        simp only [hreceived]
        rfl
      · cases hop
  | _ => cases hop

/-- An operation hands a message frame to a session. -/
def BringsMessage (s : Session ω κ) (op : Op ω) : Prop :=
  ∃ text f, op.delivers b s = some text ∧ Inbound.parse? text = some f ∧ f.kind = .message

/-- An operation clears the chat of an exchange in flight, and the service agrees. -/
def Forgets (s : Session ω κ) : Op ω → Prop
  | clear hard =>
    s.exchange.isSome ∧
      ∃ chatId, s.chatId = some chatId ∧ (b.clear chatId hard s.outside).1 = .ok ()
  | _ => False

/-- An operation sends a frame about the context while an exchange is in flight, and the
channel does not take it. -/
def Severs (s : Session ω κ) : Op ω → Prop
  | syncContext value =>
    s.exchange.isSome ∧ s.unavailable = false ∧ ∃ line e, s.line = some line ∧
      (b.send line.handle (Outbound.context (s.now b) value).toJson.print s.outside).1 = .error e
  | _ => False

end Op

namespace Session

/-- A session that has just been made. -/
def start (config : Config) (outside : ω) : Session ω κ := { config, outside }

/-- A session after some operations, the latest first. -/
def after (b : Backend ω κ) (s : Session ω κ) : List (Op ω) → Session ω κ
  | [] => s
  | op :: past => op.apply b (after b s past)

@[simp] theorem after_nil (b : Backend ω κ) (s : Session ω κ) : s.after b [] = s := rfl

@[simp] theorem after_cons (b : Backend ω κ) (s : Session ω κ) (op : Op ω) (past : List (Op ω)) :
    s.after b (op :: past) = op.apply b (s.after b past) := rfl

theorem after_append (b : Backend ω κ) (s : Session ω κ) (later past : List (Op ω)) :
    s.after b (later ++ past) = (s.after b past).after b later := by
  induction later with
  | nil => rfl
  | cons op later ih => rw [List.cons_append, after_cons, after_cons, ih]

/-- To pump until a session is idle is to pump some number of times. -/
theorem exists_after_runUntilIdle (b : Backend ω κ) (limit : Nat) (s : Session ω κ) :
    ∃ n, (s.runUntilIdle b limit).2 = s.after b (List.replicate n .pump) := by
  induction limit generalizing s with
  | zero => exact ⟨0, rfl⟩
  | succ limit ih =>
    unfold runUntilIdle
    split
    · exact ⟨0, rfl⟩
    · split
      · rename_i t h
        have hpumped : t = s.after b [.pump] := (congrArg Prod.snd h).symm
        obtain ⟨n, hn⟩ := ih t
        exact ⟨n + 1, by rw [hn, hpumped, List.replicate_succ', after_append]⟩
      · rename_i h
        exact ⟨1, (congrArg Prod.snd h).symm⟩

end Session
end Chat
end AnswerStream
