import AnswerStream.Command.Program

/-!
# Running on a system

Files and the standard input are the system's, and so is the clock.  What the
program decides is decided elsewhere; here is only how its questions are put to
the system and its answer is delivered.
-/

namespace AnswerStream
namespace Command

/-- A fault of the system. -/
def faultOf (e : IO.Error) : Chat.Fault :=
  match e with
  | .noFileOrDirectory .. => .missing
  | .inappropriateType _ code _ => if code = 20 then .notDirectory else .isDirectory
  | e => .other (toString e)

/-- Read a file of the system. -/
def readFile (path : String) : IO (Except Chat.Fault (List UInt8)) := do
  try
    return .ok (← IO.FS.readBinFile path).toList
  catch e =>
    return .error (faultOf e)

/-- Read the standard input to its end. -/
def readInput : IO (Except Chat.Fault (List UInt8)) := do
  try
    return .ok (← (← IO.getStdin).readBinToEnd).toList
  catch e =>
    return .error (faultOf e)

/-- The system as the program sees it. -/
def system : World IO where
  read := readFile
  input := readInput
  now := IO.monoMsNow

end Command
end AnswerStream

/-- Run the program with the arguments it was called with. -/
def main (args : List String) : IO UInt32 := do
  let ending ← AnswerStream.Command.run AnswerStream.Command.system args
  (← IO.getStdout).putStr ending.output
  (← IO.getStderr).putStr ending.errors
  return ending.code.toUInt32
