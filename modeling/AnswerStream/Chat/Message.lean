import AnswerStream.Chat.Config
import AnswerStream.Chat.Frame
import AnswerStream.Markup.Render

/-!
# Transcript entries

An entry has the text that was said and the markup that shows it.  Human text is
shown escaped and never as markup; what the bot says is rendered.

An entry is known by its id, which is a text.  The service may give one; otherwise
the session draws one.  A text is all that an id is, so nothing in an id tells where
it is from.
-/

namespace AnswerStream
namespace Chat

open Text

/-- Who speaks. -/
inductive Role where
  | human
  | ai
  deriving DecidableEq

namespace Role

/-- The name of a role. -/
def name : Role → String
  | human => "human"
  | ai => "ai"

/-- The roles by name. -/
def names : List (String × Role) := [("human", human), ("ai", ai)]

end Role

/-- What an entry is. -/
inductive Kind where
  /-- A question or an answer. -/
  | message
  /-- What stands for an answer that has not begun. -/
  | thinking
  /-- A greeting. -/
  | welcome
  /-- An answer that failed. -/
  | error
  deriving DecidableEq

/-- The name of a kind. -/
def Kind.name : Kind → String
  | message => "message"
  | thinking => "thinking"
  | welcome => "welcome"
  | error => "error"

/-- An entry of the transcript. -/
structure Message where
  /-- What it is known by. -/
  id : String
  /-- Who speaks. -/
  role : Role
  /-- What it is. -/
  kind : Kind
  /-- What was said. -/
  text : String
  /-- What is shown. -/
  html : String
  /-- When it was said. -/
  timestamp : Option Timestamp
  /-- The images of a question. -/
  images : List String := []
  /-- What an answer is grounded on. -/
  references : List Reference := []
  /-- Addresses that belong to an answer. -/
  urls : List String := []
  /-- Questions that could be asked next. -/
  relatedQuestions : List String := []
  /-- What introduces those questions. -/
  relatedQuestionPrompt : Option String := none
  /-- Whether it was voted up. -/
  upvote : Bool := false
  /-- Whether it was voted down. -/
  downvote : Bool := false
  /-- Whether it can be voted on. -/
  feedback : Bool := false
  /-- Whether it can be played back. -/
  speakable : Bool := false
  deriving DecidableEq

namespace Message

/-- An entry with human text. -/
def human (id : String) (now : Nat) (text : String) (images : List String) : Message where
  id := id
  role := .human
  kind := .message
  text := text
  html := escape text
  timestamp := some (.millis now)
  images := images

/-- What stands for an answer that has not begun. -/
def thinking (id : String) (now : Nat) : Message where
  id := id
  role := .ai
  kind := .thinking
  text := ""
  html := ""
  timestamp := some (.millis now)

/-- An entry with a text of the bot, which is complete. -/
def ai (id : String) (now : Nat) (kind : Kind) (text : String) : Message where
  id := id
  role := .ai
  kind := kind
  text := text
  html := Markup.render .final text
  timestamp := some (.millis now)

/-- Whether an entry stands for an answer that has not begun. -/
def isPlaceholder (m : Message) : Bool := m.kind = .thinking

/-- An entry as JSON.  Lists and options that are empty are left out. -/
def toJson (m : Message) : Json :=
  Json.ofFields
    ([("id", .ofText m.id), ("role", .ofText m.role.name),
      ("kind", .ofText m.kind.name), ("text", .ofText m.text), ("html", .ofText m.html)] ++
      Json.fieldOfOption "timestamp" (m.timestamp.map Timestamp.toJson) ++
      Json.fieldOfList "images" (m.images.map .ofText) ++
      Json.fieldOfList "references" (m.references.map Reference.toJson) ++
      Json.fieldOfList "urls" (m.urls.map .ofText) ++
      Json.fieldOfList "related_questions" (m.relatedQuestions.map .ofText) ++
      Json.fieldOfOption "related_question_prompt" (m.relatedQuestionPrompt.map .ofText) ++
      [("upvote", .bool m.upvote), ("downvote", .bool m.downvote),
       ("feedback", .bool m.feedback), ("speakable", .bool m.speakable)])

end Message

/-! ## History -/

/-- An entry of the history that the service keeps. -/
structure HistoryEntry where
  /-- Who spoke. -/
  role : Role
  /-- What was said. -/
  text : String := ""
  /-- What it is known by. -/
  id : Option String := none
  /-- When it was said. -/
  timestamp : Option Timestamp := none
  /-- What it is grounded on. -/
  references : List Reference := []
  /-- Whether it was voted up. -/
  upvote : Bool := false
  /-- Whether it was voted down. -/
  downvote : Bool := false
  deriving DecidableEq

namespace HistoryEntry

/-- The names of the fields, in order. -/
def fieldNames : List String :=
  ["role", "text", "id", "timestamp", "references", "upvote", "downvote"]

/-- An entry from JSON.  Only its role is required. -/
def ofJson? (j : Json) : Option HistoryEntry := do
  let fields ← j.record? fieldNames
  let flag name := Json.fieldD fields name Json.bool? (some false)
  return {
    role := ← Json.fieldD fields "role" (Json.named? Role.names) none
    text := ← Json.fieldD fields "text" Json.text? (some "")
    id := ← Json.fieldD fields "id" (Json.optional? Json.text?) (some none)
    timestamp := ←
      Json.fieldD fields "timestamp" (Json.optional? Timestamp.ofJson?) (some none)
    references := ← Json.fieldD fields "references" (Json.list? Reference.ofJson?) (some [])
    upvote := ← flag "upvote"
    downvote := ← flag "downvote" }

/-- An entry as JSON, with every field. -/
def toJson (e : HistoryEntry) : Json :=
  Json.ofFields
    [("role", .ofText e.role.name), ("text", .ofText e.text),
     ("id", .ofOption (e.id.map .ofText)),
     ("timestamp", .ofOption (e.timestamp.map Timestamp.toJson)),
     ("references", .array (e.references.map Reference.toJson)),
     ("upvote", .bool e.upvote), ("downvote", .bool e.downvote)]

/-- A history from JSON. -/
def listOfJson? (j : Json) : Option (List HistoryEntry) := j.list? ofJson?

/-- A stored entry as an entry of the transcript.  If it has no id, it gets the one that was
drawn for it. -/
def restore (config : Config) (drawn : String) (now : Nat) (e : HistoryEntry) : Message :=
  let base :=
    match e.role with
    | .human => Message.human drawn now e.text []
    | .ai =>
      { Message.ai drawn now .message e.text with
        feedback := !config.disableFeedback
        speakable := !config.disableSpeechPlayback
        references := if config.disableReferences then [] else e.references }
  { base with
    id := e.id.getD base.id
    timestamp := e.timestamp <|> base.timestamp
    upvote := e.upvote
    downvote := e.downvote }

end HistoryEntry

/-! ## Votes -/

/-- A vote as it is sent to the service. -/
structure Vote where
  /-- The id of the entry. -/
  messageId : String
  /-- Whether it is voted up. -/
  upvote : Bool
  /-- Whether it is voted down. -/
  downvote : Bool
  deriving DecidableEq

namespace Vote

/-- A vote from JSON.  Every field is required. -/
def ofJson? (j : Json) : Option Vote := do
  let fields ← j.record? ["messageid", "upvote", "downvote"]
  return {
    messageId := ← Json.fieldD fields "messageid" Json.text? none
    upvote := ← Json.fieldD fields "upvote" Json.bool? none
    downvote := ← Json.fieldD fields "downvote" Json.bool? none }

/-- A vote as JSON. -/
def toJson (v : Vote) : Json :=
  Json.ofFields
    [("messageid", .ofText v.messageId), ("upvote", .bool v.upvote),
     ("downvote", .bool v.downvote)]

end Vote

end Chat
end AnswerStream
