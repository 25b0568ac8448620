import AnswerStream.Text.Quoted
import AnswerStream.Text.Record

/-!
# What can go wrong

A failure names its cause and carries enough to diagnose it.  It has two texts:
a message for the person at the screen, and a description that shows its parts.
-/

namespace AnswerStream
namespace Chat

open Text

/-- What can go wrong with a file or a stream. -/
inductive Fault where
  /-- There is no such file. -/
  | missing
  /-- The name leads to a directory. -/
  | isDirectory
  /-- The name leads through something that is no directory. -/
  | notDirectory
  /-- The name cannot be the name of a file. -/
  | notAPath
  /-- The name is longer than a name may be. -/
  | tooLong
  /-- The content is no text. -/
  | notText
  /-- Anything else, in the system's words. -/
  | other (detail : String)
  deriving DecidableEq

namespace Fault

/-- A fault that the system reports by number. -/
def describeNumbered (code : Nat) (kind message : String) : String :=
  showRecord "Os" [("code", toString code), ("kind", kind), ("message", quote message)]

/-- A fault that is reported by kind. -/
def describeKind (kind message : String) : String :=
  showRecord "Error" [("kind", kind), ("message", quote message)]

/-- The message of a fault. -/
def message : Fault → String
  | missing => "No such file or directory (os error 2)"
  | isDirectory => "Is a directory (os error 21)"
  | notDirectory => "Not a directory (os error 20)"
  | notAPath => "file name contained an unexpected NUL byte"
  | tooLong => "File name too long (os error 36)"
  | notText => "stream did not contain valid UTF-8"
  | other detail => detail

/-- A fault with its parts. -/
def describe : Fault → String
  | missing => describeNumbered 2 "NotFound" "No such file or directory"
  | isDirectory => describeNumbered 21 "IsADirectory" "Is a directory"
  | notDirectory => describeNumbered 20 "NotADirectory" "Not a directory"
  | notAPath => describeKind "InvalidInput" "file name contained an unexpected NUL byte"
  | tooLong => describeNumbered 36 "InvalidFilename" "File name too long"
  | notText => describeKind "InvalidData" "stream did not contain valid UTF-8"
  | other detail => showRecord "Custom" [("kind", "Other"), ("error", quote detail)]

end Fault

/-- What can go wrong. -/
inductive Failure where
  /-- No chat could be had; the session is unusable. -/
  | bootstrap (detail : String)
  /-- A channel could not be opened. -/
  | connect (url detail : String)
  /-- A frame could not be sent. -/
  | send (detail : String)
  /-- A channel could not be closed. -/
  | close (detail : String)
  /-- The service refused a request. -/
  | http (status : Nat) (url : String)
  /-- The service never answered a request. -/
  | request (url detail : String)
  /-- A text is not the JSON that was asked for. -/
  | json
  /-- A file or a stream could not be read. -/
  | io (fault : Fault)
  /-- An option has a value that makes no sense. -/
  | config (detail : String)
  /-- The session is unusable since an earlier failure. -/
  | unavailable
  deriving DecidableEq

namespace Failure

/-- The message of a failure. -/
def message : Failure → String
  | bootstrap detail => "session bootstrap failed: " ++ detail
  | connect url detail => "channel connect to " ++ url ++ " failed: " ++ detail
  | send detail => "channel send failed: " ++ detail
  | close detail => "channel close failed: " ++ detail
  | http status url => "HTTP " ++ toString status ++ " from " ++ url
  | request url detail => "request to " ++ url ++ " failed: " ++ detail
  | json => "JSON error"
  | io fault => "I/O error: " ++ fault.message
  | config detail => "invalid configuration: " ++ detail
  | unavailable => "chat session is unavailable"

/-- A failure with its parts. -/
def describe : Failure → String
  | bootstrap detail => showCall "Bootstrap" [quote detail]
  | connect url detail => showRecord "Connect" [("url", quote url), ("detail", quote detail)]
  | send detail => showCall "Send" [quote detail]
  | close detail => showCall "Close" [quote detail]
  | http status url => showRecord "Http" [("status", toString status), ("url", quote url)]
  | request url detail => showRecord "Request" [("url", quote url), ("detail", quote detail)]
  | json => "Json"
  | io fault => showCall "Io" [fault.describe]
  | config detail => showCall "Config" [quote detail]
  | unavailable => "Unavailable"

end Failure

end Chat
end AnswerStream
