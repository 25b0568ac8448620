import AnswerStream.Chat.Remote
import AnswerStream.Command.Arguments
import AnswerStream.Command.Files
import AnswerStream.Markup.Render

/-!
# The program

The program renders a text, marks up code, or opens a chat.  It writes markup to
its output, or a failure to its error output; the way it ends tells which.  A
command line that is not understood ends it in a way of its own.
-/

namespace AnswerStream
namespace Command

open Chat

/-- How a run of the program ends. -/
structure Ending where
  /-- The exit code. -/
  code : Nat
  /-- What was written to the output. -/
  output : String := ""
  /-- What was written to the error output. -/
  errors : String := ""
  deriving DecidableEq

namespace Ending

/-- The end of a run with a result. -/
def ofResult : Except Failure String → Ending
  | .ok text => { code := 0, output := text ++ "\n" }
  | .error e => { code := 1, errors := "Error: " ++ e.describe ++ "\n" }

/-- The end of a run whose command line is not carried out.  Help and version are
what was asked for; all else is a mistake. -/
def ofStop : Stop → Ending
  | .displayHelp text => { code := 0, output := text }
  | .displayVersion => { code := 0, output := Usage.version }
  | stop => { code := 2, errors := "error: " ++ stop.name ++ "\n\n" ++ Usage.ofProgram }

end Ending

/-- What the program can read. -/
structure World (m : Type → Type) where
  /-- A file. -/
  read : Reader m
  /-- The standard input. -/
  input : m (Except Fault (List UInt8))
  /-- The time in milliseconds. -/
  now : m Nat

variable {m : Type → Type} [Monad m]

/-- The text of a file, or of the standard input. -/
def World.text (w : World m) : Option String → m (Except Failure String)
  | some path => readText w.read path
  | none => do
    match ← w.input with
    | .ok bytes => return textOfBytes bytes
    | .error fault => return .error (.io fault)

/-- Open a chat.  It ends where the service cannot be reached. -/
def openChat (w : World m) (config : Config) (images : List String) :
    m (Except Failure String) := do
  match ← imageUrls w.read images with
  | .error e => return .error e
  | .ok _ =>
    let session : Session Nat Unit := { config, outside := ← w.now }
    match (session.bootstrap (Remote.backend config)).1 with
    | .error e => return .error e
    | .ok () => return .ok (config.caption.getD "chat")

/-- Carry out what a command line asks for. -/
def carryOut (w : World m) (args : Arguments) : m (Except Failure String) :=
  match args with
  | .render file noHighlight typing => do
    match ← w.text file with
    | .error e => return .error e
    | .ok text =>
      return .ok (Markup.render { typingCursor := typing, highlightCode := !noHighlight } text)
  | .highlight lang file =>
    match Highlight.Language.ofTag? lang with
    | none => return .error (.config ("unknown language: " ++ lang))
    | some l => do
      match ← w.text file with
      | .error e => return .error e
      | .ok code => return .ok (l.run code)
  | .chat _ _ images _ =>
    match args.config? with
    | some (.ok config) => openChat w config images
    | some (.error e) => return .error e
    | none => return .ok ""

/-- Run the program. -/
def run (w : World m) (args : List String) : m Ending := do
  match Arguments.parse args with
  | .error stop => return .ofStop stop
  | .ok args => return .ofResult (← carryOut w args)

end Command
end AnswerStream
