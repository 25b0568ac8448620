import AnswerStream.Json.Decode
import AnswerStream.Json.Float
import AnswerStream.Json.Printer
import AnswerStream.Json.Reader

/-!
# Frames

The streaming channel carries frames.  A frame from the service has a kind and
fields that may all be missing; a frame to the service is a question or some
context for the bot.
-/

namespace AnswerStream
namespace Chat

/-! ## Parts of frames -/

/-- A point in time: milliseconds, or a text that is already fit to be shown. -/
inductive Timestamp where
  | millis (n : Nat)
  | text (s : String)
  deriving DecidableEq

namespace Timestamp

/-- A point in time as it is shown. -/
def display : Timestamp → String
  | millis n => toString n
  | text s => s

/-- A point in time as JSON. -/
def toJson : Timestamp → Json
  | millis n => .ofNat n
  | text s => .ofText s

/-- A point in time from JSON. -/
def ofJson? (j : Json) : Option Timestamp :=
  match j.natural?, j.text? with
  | some n, _ => some (.millis n)
  | none, some s => some (.text s)
  | none, none => none

end Timestamp

/-- A passage that an answer is grounded on. -/
structure Reference where
  /-- The passage. -/
  text : String := ""
  /-- How well it fits; a number with the precision of floating point. -/
  score : Option Json.Number := none
  /-- Where it is from. -/
  source : Option String := none
  deriving DecidableEq

namespace Reference

/-- A score from JSON, which is a number of moderate size. -/
def scoreOfJson? (j : Json) : Option Json.Number := j.float?.map Json.Number.ofFloat

/-- The source inside the metadata of a reference. -/
def sourceOfJson? (j : Json) : Option (Option String) := do
  let fields ← j.record? ["source"]
  Json.fieldD fields "source" (Json.optional? Json.text?) (some none)

/-- A reference from JSON.  Every field may be missing. -/
def ofJson? (j : Json) : Option Reference := do
  let fields ← j.record? ["text", "score", "metadata"]
  return {
    text := ← Json.fieldD fields "text" Json.text? (some "")
    score := ← Json.fieldD fields "score" (Json.optional? scoreOfJson?) (some none)
    source := ← Json.fieldD fields "metadata" sourceOfJson? (some none) }

/-- A reference as JSON. -/
def toJson (r : Reference) : Json :=
  Json.ofFields
    [("text", .ofText r.text), ("score", .ofOption (r.score.map .number)),
     ("metadata", Json.ofFields [("source", .ofOption (r.source.map .ofText))])]

end Reference

/-! ## Frames from the service -/

/-- The kinds of frames from the service. -/
inductive FrameKind where
  /-- A greeting. -/
  | welcome
  /-- An answer starts. -/
  | start
  /-- A part of an answer. -/
  | message
  /-- An answer is complete. -/
  | stop
  /-- An answer has failed. -/
  | error
  deriving DecidableEq

namespace FrameKind

/-- The kinds by name. -/
def names : List (String × FrameKind) :=
  [("welcome", welcome), ("start", start), ("message", message), ("stop", stop), ("error", error)]

/-- The name of a kind. -/
def name : FrameKind → String
  | welcome => "welcome"
  | start => "start"
  | message => "message"
  | stop => "stop"
  | error => "error"

/-- The list has every kind under its name. -/
theorem lookup_name (k : FrameKind) : names.lookup k.name = some k := by
  cases k <;> decide

end FrameKind

/-- A frame from the service. -/
structure Inbound where
  /-- What it is. -/
  kind : FrameKind
  /-- The id of the answer. -/
  id : Option String := none
  /-- The text it carries. -/
  data : Option String := none
  /-- When it was sent. -/
  timestamp : Option Timestamp := none
  /-- What the answer is grounded on. -/
  references : List Reference := []
  /-- Addresses that belong to the answer. -/
  urls : List String := []
  /-- Questions that could be asked next. -/
  relatedQuestions : List String := []
  /-- What introduces those questions. -/
  relatedQuestionPrompt : Option String := none
  deriving DecidableEq

namespace Inbound

/-- The text of a frame; empty if it carries none. -/
def content (f : Inbound) : String := f.data.getD ""

/-- The names of the fields, in order. -/
def fieldNames : List String :=
  ["type", "id", "data", "timestamp", "references", "urls", "related_question",
   "related_question_prompt"]

/-- A frame from JSON.  Only its kind is required. -/
def ofJson? (j : Json) : Option Inbound := do
  let fields ← j.record? fieldNames
  let text name := Json.fieldD fields name (Json.optional? Json.text?) (some none)
  let texts name := Json.fieldD fields name (Json.list? Json.text?) (some [])
  return {
    kind := ← Json.fieldD fields "type" (Json.named? FrameKind.names) none
    id := ← text "id"
    data := ← text "data"
    timestamp := ←
      Json.fieldD fields "timestamp" (Json.optional? Timestamp.ofJson?) (some none)
    references := ← Json.fieldD fields "references" (Json.list? Reference.ofJson?) (some [])
    urls := ← texts "urls"
    relatedQuestions := ← texts "related_question"
    relatedQuestionPrompt := ← text "related_question_prompt" }

/-- The frame that a text spells. -/
def parse? (text : String) : Option Inbound := do
  let j ← Json.parse? text
  ofJson? j

end Inbound

/-! ## Frames to the service -/

/-- What a frame to the service carries. -/
inductive Payload where
  /-- A text. -/
  | text (s : String)
  /-- A text with images, which are given by their addresses. -/
  | withImages (s : String) (images : List String)
  /-- Any value. -/
  | value (j : Json)

/-- A frame to the service. -/
structure Outbound where
  /-- What it is. -/
  kind : String
  /-- Who speaks. -/
  role : String
  /-- What it carries. -/
  data : Payload
  /-- When it was made, in milliseconds. -/
  timestamp : Nat

namespace Outbound

/-- A question.  Images make it a list of parts, the text first. -/
def question (now : Nat) (text : String) (images : List String) : Outbound where
  kind := "message"
  role := "human"
  data := if images.isEmpty then .text text else .withImages text images
  timestamp := now

/-- Context for the bot. -/
def context (now : Nat) (value : Json) : Outbound where
  kind := "bot_context"
  role := "bot"
  data := .value value
  timestamp := now

/-- An image as a part of a question. -/
def imagePart (url : String) : Json :=
  Json.ofFields [("type", .ofText "image_url"), ("image_url", Json.ofFields [("url", .ofText url)])]

/-- What a frame carries as JSON. -/
def dataJson : Payload → Json
  | .text s => .ofText s
  | .withImages s images =>
    .array (Json.ofFields [("type", .ofText "text"), ("text", .ofText s)] :: images.map imagePart)
  | .value j => j

/-- A frame as JSON. -/
def toJson (f : Outbound) : Json :=
  Json.ofFields
    [("type", .ofText f.kind), ("role", .ofText f.role), ("data", dataJson f.data),
     ("timestamp", .ofNat f.timestamp)]

end Outbound

end Chat
end AnswerStream
