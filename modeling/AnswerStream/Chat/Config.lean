import AnswerStream.Chat.Failure
import AnswerStream.Json.Decode
import AnswerStream.Text.Blank

/-!
# Configuration

A configuration says where the chat service is, which session is meant and which
features are off.  The addresses of all requests are derived from it: the base
address without the slashes at its end, a fixed path, and the session and the
chat as segments of that path.

A configuration that is built is trimmed and checked; one that is read from JSON
is taken as it is and can be checked afterwards.
-/

namespace AnswerStream
namespace Chat

open Text

/-- The options of a chat session. -/
structure Config where
  /-- The address of the chat service. -/
  baseUrl : String := ""
  /-- The session. -/
  sessionId : String := ""
  /-- Whether answers come without references. -/
  disableReferences : Bool := false
  /-- Whether answers cannot be voted on. -/
  disableFeedback : Bool := false
  /-- Whether answers cannot be played back. -/
  disableSpeechPlayback : Bool := false
  /-- Whether questions cannot be spoken. -/
  disableSpeechInput : Bool := false
  /-- Whether questions come without images. -/
  disableImageUpload : Bool := false
  /-- The caption, if it is not the usual one. -/
  caption : Option String := none
  deriving DecidableEq

namespace Config

/-! ## Addresses -/

/-- The base address without the slashes at its end. -/
def root (c : Config) : List Char := dropEndWhile (· == '/') c.baseUrl.toList

/-- The address of a path below the service. -/
def address (c : Config) (path : String) : String := String.ofList c.root ++ path

/-- The address of the chat id of the session. -/
def chatIdUrl (c : Config) : String := c.address ("/api/chat/" ++ c.sessionId ++ "/id")

/-- The path of a resource of a chat. -/
def chatPath (c : Config) (chatId resource : String) : String :=
  "/api/chat/" ++ c.sessionId ++ "/" ++ chatId ++ "/" ++ resource

/-- The address of the history of a chat. -/
def historyUrl (c : Config) (chatId : String) : String := c.address (c.chatPath chatId "history")

/-- The address at which a chat is cleared. -/
def clearUrl (c : Config) (chatId : String) : String := c.address (c.chatPath chatId "clear")

/-- The address at which votes are taken. -/
def voteUrl (c : Config) : String := c.address "/api/chat/vote"

/-- The text after `pre`, if it starts with that. -/
def after? (pre : String) (text : List Char) : Option (List Char) :=
  if pre.toList.isPrefixOf text then some (text.drop pre.length) else none

/-- The base address with the scheme of a streaming channel. -/
def socketRoot (c : Config) : String :=
  match after? "https://" c.root, after? "http://" c.root with
  | some rest, _ => "wss://" ++ String.ofList rest
  | none, some rest => "ws://" ++ String.ofList rest
  | none, none => String.ofList c.root

/-- The address of the streaming channel of a chat. -/
def socketUrl (c : Config) (chatId : String) : String := c.socketRoot ++ c.chatPath chatId "ws"

/-! ## Checks -/

/-- What is left of an address after its scheme, if that is one of the two that
are known. -/
def afterScheme? (url : List Char) : Option (List Char) :=
  after? "https://" url <|> after? "http://" url

/-- Check a configuration: the base address has a known scheme and a host, and
the session is a single segment of a path. -/
def validate (c : Config) : Except Failure Unit :=
  let url := trim c.baseUrl.toList
  let session := trim c.sessionId.toList
  match afterScheme? url with
  | none =>
    .error (.config
      ("base_url must start with http:// or https://, got " ++ quote (String.ofList url)))
  | some host =>
    if host.all (· == '/') then .error (.config "base_url has no host")
    else if session.isEmpty then .error (.config "session_id must not be empty")
    else if session.contains '/' || session.any isBlank then
      .error (.config
        ("session_id must be a single path segment, got " ++ quote (String.ofList session)))
    else .ok ()

/-- A configuration without white space around the base address and the
session. -/
def trimmed (c : Config) : Config :=
  { c with
    baseUrl := String.ofList (trim c.baseUrl.toList)
    sessionId := String.ofList (trim c.sessionId.toList) }

/-- Build a configuration: trim it and check it. -/
def build (c : Config) : Except Failure Config := do
  c.trimmed.validate
  return c.trimmed

/-! ## JSON -/

/-- The names of the fields, in order. -/
def fieldNames : List String :=
  ["base_url", "session_id", "disable_references", "disable_feedback",
   "disable_speech_playback", "disable_speech_input", "disable_image_upload", "caption"]

/-- A configuration as JSON.  The caption is left out if there is none. -/
def toJson (c : Config) : Json :=
  Json.ofFields
    ([("base_url", .ofText c.baseUrl), ("session_id", .ofText c.sessionId),
      ("disable_references", .bool c.disableReferences),
      ("disable_feedback", .bool c.disableFeedback),
      ("disable_speech_playback", .bool c.disableSpeechPlayback),
      ("disable_speech_input", .bool c.disableSpeechInput),
      ("disable_image_upload", .bool c.disableImageUpload)] ++
      Json.fieldOfOption "caption" (c.caption.map .ofText))

/-- A configuration from JSON.  Every field may be missing. -/
def ofJson? (j : Json) : Option Config := do
  let fields ← j.record? fieldNames
  let text name := Json.fieldD fields name Json.text? (some "")
  let flag name := Json.fieldD fields name Json.bool? (some false)
  return {
    baseUrl := ← text "base_url"
    sessionId := ← text "session_id"
    disableReferences := ← flag "disable_references"
    disableFeedback := ← flag "disable_feedback"
    disableSpeechPlayback := ← flag "disable_speech_playback"
    disableSpeechInput := ← flag "disable_speech_input"
    disableImageUpload := ← flag "disable_image_upload"
    caption := ← Json.fieldD fields "caption" (Json.optional? Json.text?) (some none) }

end Config

end Chat
end AnswerStream
