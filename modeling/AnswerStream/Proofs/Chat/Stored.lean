import AnswerStream.Chat.Message
import AnswerStream.Proofs.Json.RoundTrip

/-!
# What is stored and what is asked

Entries of the history, configurations and votes are written as JSON texts and read back.
A text that was written of one of them is read as the same entry, configuration or vote.  The
scores of references are left out of this, since they are numbers of limited precision.

Each record is written with its fields in order, so it is enough to know of each field that
what is written of it is read as its value; a caption that is left out is read as none.

Frames are only ever written here.  `Outbound.kindIn?` and `Outbound.asked?` read them as the
service may: the kind of a frame is told from its text, and so are the text and the images of a
question, whether it is a text or a list of parts.
-/

namespace AnswerStream
namespace Json

/-! ## Values that can be written -/

theorem WellFormed.ofText (s : String) : (Json.ofText s).WellFormed := .string (some s)

theorem WellFormed.ofNat (n : Nat) : (Json.ofNat n).WellFormed := .number nofun

theorem WellFormed.ofOption {x : Option Json} (h : ∀ v ∈ x, v.WellFormed) :
    (Json.ofOption x).WellFormed := by
  cases x with
  | none => exact .null
  | some v => exact h v rfl

theorem WellFormed.ofFields {fields : List (String × Json)}
    (h : ∀ f ∈ fields, f.2.WellFormed) : (Json.ofFields fields).WellFormed := by
  refine .object fun f hf => ?_
  obtain ⟨g, hg, rfl⟩ := List.mem_map.1 hf
  exact h g hg

theorem ofText_ne_null (s : String) : Json.ofText s ≠ .null := nofun

/-- An optional text. -/
theorem optional?_text (x : Option String) :
    optional? text? (ofOption (x.map ofText)) = some x :=
  optional?_ofOption (fun s _ => text?_ofText s) ofText_ne_null

theorem WellFormed.optionalText (x : Option String) :
    (Json.ofOption (x.map Json.ofText)).WellFormed :=
  .ofOption fun v hv => by
    obtain ⟨s, -, rfl⟩ := Option.map_eq_some_iff.1 hv
    exact .ofText s

end Json

namespace Chat

/-! ## Parts of frames -/

namespace Timestamp

/-- A number of milliseconds has at most 64 bits. -/
def Fits : Timestamp → Prop
  | millis n => n < UInt64.size
  | text _ => True

theorem toJson_ne_null (t : Timestamp) : t.toJson ≠ .null := by
  cases t <;> exact nofun

theorem wellFormed_toJson (t : Timestamp) : t.toJson.WellFormed := by
  cases t with
  | millis n => exact .ofNat n
  | text s => exact .ofText s

/-- Numbers and texts are told apart. -/
theorem ofJson?_toJson {t : Timestamp} (h : t.Fits) : ofJson? t.toJson = some t := by
  cases t with
  | millis n => rw [ofJson?, toJson, Json.natural?_ofNat h]
  | text s => rfl

end Timestamp

namespace Reference

theorem wellFormed_toJson {r : Reference} (h : r.score = none) : r.toJson.WellFormed := by
  have hmetadata : (Json.ofFields
      [("source", Json.ofOption (r.source.map Json.ofText))]).WellFormed :=
    .ofFields (by simpa using Json.WellFormed.optionalText r.source)
  refine .ofFields ?_
  simpa [h, Json.ofOption] using ⟨.ofText r.text, .null, hmetadata⟩

theorem ofJson?_toJson {r : Reference} (h : r.score = none) : ofJson? r.toJson = some r := by
  have hsource : sourceOfJson? (Json.ofFields
      [("source", Json.ofOption (r.source.map Json.ofText))]) = some r.source := by
    rw [sourceOfJson?, Json.record?_ofFields]
    · simp [Json.optional?_text]
    · exact List.Sublist.refl _
    · decide
  have hscore : Json.optional? scoreOfJson? (Json.ofOption (r.score.map .number)) =
      some r.score := by
    rw [h]
    rfl
  rw [ofJson?, toJson, Json.record?_ofFields]
  · simp [hscore, hsource]
  · exact List.Sublist.refl _
  · decide

end Reference

/-! ## Records -/

theorem Role.named?_name (r : Role) : Json.named? names (.ofText r.name) = some r := by
  cases r <;> rfl

namespace HistoryEntry

theorem wellFormed_toJson {e : HistoryEntry} (h : ∀ r ∈ e.references, r.score = none) :
    e.toJson.WellFormed := by
  have htimestamp : (Json.ofOption (e.timestamp.map Timestamp.toJson)).WellFormed := by
    refine .ofOption fun v hv => ?_
    obtain ⟨t, -, rfl⟩ := Option.map_eq_some_iff.1 hv
    exact t.wellFormed_toJson
  have hreferences : (Json.array (e.references.map Reference.toJson)).WellFormed := by
    refine .array fun v hv => ?_
    obtain ⟨r, hr, rfl⟩ := List.mem_map.1 hv
    exact Reference.wellFormed_toJson (h r hr)
  refine .ofFields ?_
  simp only [List.forall_mem_cons, List.not_mem_nil, false_imp_iff, implies_true, and_true]
  exact ⟨.ofText e.role.name, .ofText e.text, .optionalText e.id, htimestamp, hreferences,
    .bool e.upvote, .bool e.downvote⟩

theorem ofJson?_toJson {e : HistoryEntry} (htimestamp : ∀ t ∈ e.timestamp, t.Fits)
    (hscores : ∀ r ∈ e.references, r.score = none) : ofJson? e.toJson = some e := by
  have ht : Json.optional? Timestamp.ofJson? (Json.ofOption (e.timestamp.map Timestamp.toJson)) =
      some e.timestamp :=
    Json.optional?_ofOption (fun t hmem => Timestamp.ofJson?_toJson (htimestamp t hmem))
      Timestamp.toJson_ne_null
  have hr : Json.list? Reference.ofJson? (.array (e.references.map Reference.toJson)) =
      some e.references :=
    Json.list?_array fun r hmem => Reference.ofJson?_toJson (hscores r hmem)
  rw [ofJson?, toJson, Json.record?_ofFields]
  · simp [Role.named?_name, Json.optional?_text, ht, hr]
  · exact List.Sublist.refl _
  · decide

end HistoryEntry

namespace Config

theorem wellFormed_toJson (c : Config) : c.toJson.WellFormed := by
  refine .ofFields ?_
  simp only [List.forall_mem_append, List.forall_mem_cons, List.not_mem_nil, false_imp_iff,
    implies_true, and_true]
  refine ⟨⟨.ofText c.baseUrl, .ofText c.sessionId, .bool _, .bool _, .bool _, .bool _, .bool _⟩, ?_⟩
  cases c.caption with
  | none => exact nofun
  | some caption => simpa [Json.fieldOfOption] using Json.WellFormed.ofText caption

/-- A caption that is left out is read as none. -/
theorem ofJson?_toJson (c : Config) : ofJson? c.toJson = some c := by
  obtain ⟨baseUrl, sessionId, references, feedback, playback, input, upload, caption⟩ := c
  rw [ofJson?, toJson, Json.record?_ofFields]
  · cases caption <;>
      simp [Json.fieldOfOption, Json.optional?, Json.ofText, Json.text?]
  · cases caption with
    | none => exact List.sublist_append_left _ ["caption"]
    | some caption => exact List.Sublist.refl _
  · decide

end Config

namespace Vote

theorem wellFormed_toJson (v : Vote) : v.toJson.WellFormed := by
  refine .ofFields ?_
  simp only [List.forall_mem_cons, List.not_mem_nil, false_imp_iff, implies_true, and_true]
  exact ⟨.ofText v.messageId, .bool v.upvote, .bool v.downvote⟩

theorem ofJson?_toJson (v : Vote) : ofJson? v.toJson = some v := by
  rw [ofJson?, toJson, Json.record?_ofFields]
  · simp
  · exact List.Sublist.refl _
  · decide

end Vote

/-! ## Questions -/

namespace Outbound

/-- The address in a part that is an image. -/
def imageOfPart? (part : Json) : Option String := do
  let image ← part.get? "image_url"
  let url ← image.get? "url"
  url.text?

/-- The text and the images of a question. -/
def asked? (j : Json) : Option (String × List String) := do
  match ← j.get? "data" with
  | .string s => s.map fun text => (text, [])
  | .array (first :: parts) => do
    let text ← first.get? "text"
    return (← text.text?, ← parts.mapM imageOfPart?)
  | _ => none

theorem wellFormed_imagePart (url : String) : (imagePart url).WellFormed := by
  have himage : (Json.ofFields [("url", Json.ofText url)]).WellFormed :=
    .ofFields (by simpa using .ofText url)
  exact .ofFields (by simpa using ⟨.ofText "image_url", himage⟩)

theorem wellFormed_question (now : Nat) (text : String) (images : List String) :
    (question now text images).toJson.WellFormed := by
  have hdata : (dataJson (question now text images).data).WellFormed := by
    cases images with
    | nil => exact .ofText text
    | cons url urls =>
      have htext : (Json.ofFields [("type", .ofText "text"), ("text", .ofText text)]).WellFormed :=
        .ofFields (by simpa using ⟨.ofText "text", .ofText text⟩)
      refine .array (List.forall_mem_cons.2 ⟨htext, fun part hpart => ?_⟩)
      obtain ⟨url, -, rfl⟩ := List.mem_map.1 hpart
      exact wellFormed_imagePart url
  refine .ofFields ?_
  simp only [List.forall_mem_cons, List.not_mem_nil, false_imp_iff, implies_true, and_true]
  exact ⟨.ofText _, .ofText _, hdata, .ofNat now⟩

theorem imageOfPart?_imagePart (url : String) : imageOfPart? (imagePart url) = some url := by
  simp [imageOfPart?, imagePart, Json.get?_ofFields, List.lookup_cons]

/-- The text and the images are told from the JSON of a question. -/
theorem asked?_question (now : Nat) (text : String) (images : List String) :
    asked? (question now text images).toJson = some (text, images) := by
  have hdata : (question now text images).toJson.get? "data" =
      some (dataJson (question now text images).data) := by
    simp [toJson, Json.get?_ofFields, List.lookup_cons]
  rw [asked?, hdata]
  cases images with
  | nil => rfl
  | cons url urls =>
    have himages : ((url :: urls).map imagePart).mapM imageOfPart? = some (url :: urls) :=
      Json.list?_array fun url _ => imageOfPart?_imagePart url
    have hquestion : dataJson (question now text (url :: urls)).data =
        .array (Json.ofFields [("type", .ofText "text"), ("text", .ofText text)] ::
          (url :: urls).map imagePart) := rfl
    simp only [Option.bind_eq_bind, Option.bind_some, hquestion, himages]
    simp [Json.get?_ofFields, List.lookup_cons]

/-- The kind of the frame in a text. -/
def kindIn? (text : String) : Option String := do
  let j ← Json.parse? text
  let kind ← j.get? "type"
  kind.text?

/-- The kind of a frame is read from its text, whatever the frame carries: what is written of
a value that is not well formed is written of one that is. -/
theorem kindIn?_print (f : Outbound) : kindIn? f.toJson.print = some f.kind := by
  obtain ⟨data, hdata, hprint⟩ := Json.exists_wellFormed (dataJson f.data)
  have hwritten : f.toJson.print = (Json.ofFields
      [("type", .ofText f.kind), ("role", .ofText f.role), ("data", data),
       ("timestamp", .ofNat f.timestamp)]).print := by
    simp [toJson, Json.ofFields, Json.print, Json.printFields, hprint]
  have hwellFormed : (Json.ofFields
      [("type", .ofText f.kind), ("role", .ofText f.role), ("data", data),
       ("timestamp", .ofNat f.timestamp)]).WellFormed := by
    refine .ofFields ?_
    simp only [List.forall_mem_cons, List.not_mem_nil, false_imp_iff, implies_true, and_true]
    exact ⟨.ofText f.kind, .ofText f.role, hdata, .ofNat f.timestamp⟩
  rw [kindIn?, hwritten, Json.parse?_print hwellFormed]
  simp [Json.get?_ofFields]

end Outbound

/-! ## Reading what was written -/

/-- **What is written is read back.**  An entry of the history whose references have no scores,
a configuration and a vote are read from the JSON text that is written of them, and the text
and the images of a question are read from its JSON text.  So questions that differ in text or
images are never written alike. -/
theorem stored_json_read_back :
    (∀ e : HistoryEntry, (∀ t ∈ e.timestamp, t.Fits) → (∀ r ∈ e.references, r.score = none) →
      (Json.parse? e.toJson.print).bind HistoryEntry.ofJson? = some e) ∧
    (∀ c : Config, (Json.parse? c.toJson.print).bind Config.ofJson? = some c) ∧
    (∀ v : Vote, (Json.parse? v.toJson.print).bind Vote.ofJson? = some v) ∧
    (∀ now text images, (Json.parse? (Outbound.question now text images).toJson.print).bind
      Outbound.asked? = some (text, images)) ∧
    ∀ now now' text text' images images',
      (Outbound.question now text images).toJson.print =
        (Outbound.question now' text' images').toJson.print →
      text = text' ∧ images = images' := by
  have hquestion : ∀ now text images,
      (Json.parse? (Outbound.question now text images).toJson.print).bind Outbound.asked? =
        some (text, images) := by
    intro now text images
    rw [Json.parse?_print (Outbound.wellFormed_question now text images)]
    exact Outbound.asked?_question now text images
  refine ⟨fun e ht hr => ?_, fun c => ?_, fun v => ?_, hquestion, ?_⟩
  · rw [Json.parse?_print (HistoryEntry.wellFormed_toJson hr)]
    exact HistoryEntry.ofJson?_toJson ht hr
  · rw [Json.parse?_print c.wellFormed_toJson]
    exact c.ofJson?_toJson
  · rw [Json.parse?_print v.wellFormed_toJson]
    exact v.ofJson?_toJson
  · intro now now' text text' images images' h
    have hread := hquestion now text images
    rw [h, hquestion now' text' images'] at hread
    simpa using hread.symm

/-- An entry with a number as its timestamp and a reference whose source is missing, and a
question with an image. -/
theorem stored_json_read_back_with_escapes :
    let e : HistoryEntry := {
      role := .ai
      text := "a \"quoted\"\nline"
      timestamp := some (.millis 1700000000000)
      references := [{ text := "\x01" }] }
    ((Json.parse? e.toJson.print).bind HistoryEntry.ofJson? = some e) ∧
      (Json.parse? (Outbound.question 0 "why?" ["data:,"]).toJson.print).bind Outbound.asked? =
        some ("why?", ["data:,"]) := by
  refine ⟨stored_json_read_back.1 _ ?_ (by simp), stored_json_read_back.2.2.2.1 0 "why?" _⟩
  rintro t ⟨⟩
  show 1700000000000 < UInt64.size
  decide

end Chat
end AnswerStream
