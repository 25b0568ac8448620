import Mathlib.Data.List.Forall2
import AnswerStream.Proofs.Chat.Delivery
import AnswerStream.Proofs.Chat.Redraw
import AnswerStream.Proofs.Chat.Stored

/-!
# Questions that are sent

Three accounts of a run tell which questions were sent: what asking has returned, which
texts the channels took, and what was announced.  They agree, in order and one for one.
A question that asking says was sent was delivered once and announced once, by the id of the
entry it has on screen, and no other question was.  What the channels took is what is on tape
(`taken`), and which of it are questions is read off the texts.

An operation that does not return that a question was sent does only what is `Plain`, which
leaves the other two accounts as they are.
-/

namespace AnswerStream
namespace Chat

open Text

variable {ω κ : Type}

/-! ## Three accounts -/

/-- A question that was sent. -/
structure Question where
  /-- The id of its entry. -/
  id : String
  /-- Its text. -/
  text : String
  /-- Its images. -/
  images : List String

/-- A text is the text of a question's frame. -/
def IsQuestionText (text : String) : Prop := Outbound.kindIn? text = some "message"

instance (text : String) : Decidable (IsQuestionText text) :=
  inferInstanceAs (Decidable (_ = _))

theorem isQuestionText_print (f : Outbound) : IsQuestionText f.toJson.print ↔ f.IsQuestion := by
  rw [IsQuestionText, Outbound.kindIn?_print, Option.some_inj]
  rfl

/-- A text carries a question: the text alone, or if there are images the text and then all
of them in order.  Whoever reads it finds the question. -/
structure Question.CarriedBy (q : Question) (text : String) : Prop where
  frame : ∃ now, text = (Outbound.question now q.text q.images).toJson.print
  data : (Json.parse? text).bind (Json.get? "data") = some
    (if q.images.isEmpty then .ofText q.text
    else .array (Json.ofFields [("type", .ofText "text"), ("text", .ofText q.text)] ::
      q.images.map Outbound.imagePart))
  asks : (Json.parse? text).bind Outbound.asked? = some (q.text, q.images)

theorem Question.carriedBy (q : Question) (now : Nat) :
    q.CarriedBy (Outbound.question now q.text q.images).toJson.print := by
  have hparse := Json.parse?_print (Outbound.wellFormed_question now q.text q.images)
  refine ⟨⟨now, rfl⟩, ?_, ?_⟩
  · rw [hparse, Option.bind_some, Outbound.toJson, Json.get?_ofFields]
    unfold Outbound.question
    dsimp only
    split <;> rfl
  · rw [hparse]
    exact Outbound.asked?_question now q.text q.images

namespace Effect

/-- The frame of a question that was delivered. -/
def delivered? : Effect → Option Outbound
  | sent f true => if f.IsQuestion then some f else none
  | _ => none

/-- The question that was announced. -/
def issued? : Effect → Option (String × String)
  | announced (.questionIssued id text) => some (id, text)
  | _ => none

theorem Plain.delivered?_eq_none {e : Effect} (h : e.Plain) : e.delivered? = none := by
  cases e with
  | sent f taken =>
    cases taken with
    | false => rfl
    | true => exact if_neg (h rfl)
  | _ => rfl

theorem Plain.issued?_eq_none {e : Effect} (h : e.Plain) : e.issued? = none := by
  cases e with
  | announced event =>
    cases event with
    | questionIssued id text => exact h.elim
    | _ => rfl
  | _ => rfl

end Effect

/-- Asking returns that the question was sent. -/
def Op.ReturnsSent (b : Backend ω κ) (s : Session ω κ) : Op ω → Prop
  | ask text images => (s.ask b text images).1 = .ok .sent
  | _ => False

namespace Session

/-- The frames of questions that were delivered, the latest first. -/
def delivered (s : Session ω κ) : List Outbound := s.effects.filterMap Effect.delivered?

/-- The questions that were announced, the latest first. -/
def issued (s : Session ω κ) : List (String × String) := s.effects.filterMap Effect.issued?

/-- Asking returns that `q` was sent, whose entry it has put behind those on screen. -/
def Sends (b : Backend ω κ) (s : Session ω κ) (op : Op ω) (q : Question) : Prop :=
  ∃ text images, op = .ask text images ∧ (s.ask b text images).1 = .ok .sent ∧
    q.text = trimmed text ∧ q.images = s.config.admits images ∧
      ∃ old now answer, (s.ask b text images).2.transcript =
        old ++ s.transcript ++ [Message.human q.id now q.text q.images, answer]

/-- The questions that asking says were sent in a run, the latest first. -/
inductive Asked (b : Backend ω κ) (s : Session ω κ) : List (Op ω) → List Question → Prop
  | nil : Asked b s [] []
  | sent {op : Op ω} {past : List (Op ω)} {q : Question} {qs : List Question}
    (sends : Sends b (s.after b past) op q) (earlier : Asked b s past qs) :
    Asked b s (op :: past) (q :: qs)
  | other {op : Op ω} {past : List (Op ω)} {qs : List Question}
    (not : ¬ op.ReturnsSent b (s.after b past)) (earlier : Asked b s past qs) :
    Asked b s (op :: past) qs

/-- The questions among the texts that the channels have taken in a run, the latest first. -/
def takenQuestions (b : Backend ω κ) (config : Config) (outside : ω) (past : List (Op ω)) :
    List String :=
  (taken b config outside past).filter fun text => IsQuestionText text

/-- The accounts of a run agree. -/
structure Accounted (b : Backend ω κ) (config : Config) (outside : ω) (past : List (Op ω)) :
    Prop where
  /-- What asking returned, what was delivered and what was announced are the same questions. -/
  agree : ∃ qs, Asked b (start config outside) past qs ∧
    List.Forall₂ (fun text q => Question.CarriedBy q text)
      (takenQuestions b config outside past) qs ∧
    ((start config outside).after b past).issued = qs.map fun q => (q.id, q.text)
  /-- No command is sent as a question. -/
  command : ∀ text images, trimmed text = "/clear" ∨ trimmed text = "/reset" →
    takenQuestions b config outside (.ask text images :: past) =
      takenQuestions b config outside past

/-! ## What a single operation adds -/

variable {b : Backend ω κ} {s s' : Session ω κ}

/-- What no plain effect shows is as before. -/
theorem Did.filterMap_effects {α : Type} {f : Effect → Option α}
    (hf : ∀ e : Effect, e.Plain → f e = none) (h : Did Effect.Plain s s') :
    s'.effects.filterMap f = s.effects.filterMap f := by
  obtain ⟨new, heq, hnew⟩ := h
  rw [heq, List.filterMap_append, List.filterMap_eq_nil_iff.2 fun e he => hf e (hnew e he)]
  rfl

theorem Did.delivered (h : Did Effect.Plain s s') : s'.delivered = s.delivered :=
  h.filterMap_effects fun _ he => he.delivered?_eq_none

theorem Did.issued (h : Did Effect.Plain s s') : s'.issued = s.issued :=
  h.filterMap_effects fun _ he => he.issued?_eq_none

/-- A question is sent only if nothing keeps it back. -/
theorem ask_sent {text : String} {images : List String}
    (h : (s.ask b text images).1 = .ok .sent) :
    s.unavailable = false ∧ s.phase = .idle ∧ trimmed text ≠ "" ∧ trimmed text ≠ "/clear" ∧
      trimmed text ≠ "/reset" := by
  have hasking := asking_ask b text images s
  generalize s.ask b text images = asked at h hasking
  obtain ⟨result, s'⟩ := asked
  cases hasking with
  | down | stops | blank | command | noChat => cases h
  | puts up idle question chat => exact ⟨up, idle, question⟩

/-- A question that was sent was put in the chat that there was. -/
theorem puts_of_sent {text : String} {images : List String}
    (h : (s.ask b text images).1 = .ok .sent) :
    ∃ chatId t, s.ensureChatId b = (.ok chatId, t) ∧ s.ask b text images =
      (.ok (t.sendQuestion b (trimmed text) images).1,
        (t.sendQuestion b (trimmed text) images).2) := by
  have hasking := asking_ask b text images s
  generalize s.ask b text images = asked at h hasking ⊢
  obtain ⟨result, s'⟩ := asked
  cases hasking with
  | down | stops | blank | command | noChat => cases h
  | puts up idle question chat => exact ⟨_, _, chat, rfl⟩

/-- An operation that does not return that a question was sent is plain. -/
theorem did_plain_of_redraw {op : Op ω} (h : Redraw b op s s') (hnot : ¬ op.ReturnsSent b s) :
    Did Effect.Plain s s' := by
  have hplain : ∀ {t u : Session ω κ}, Did Effect.Quiet t u → Did Effect.Plain t u :=
    fun h => h.mono fun e he => he.1
  cases h with
  | loads loads _ => exact loads.did_plain
  | votes _ _ _ _ quiet => exact hplain quiet.did
  | greets _ _ _ _ _ _ _ _ _ did => exact hplain did
  | asks ask returns _ _ loads _ poses =>
    rcases poses.effects with ⟨rfl, _⟩ | ⟨_, hdid⟩
    · rw [ask] at hnot
      exact absurd returns hnot
    · exact loads.did_plain.trans (hplain hdid)
  | answers _ _ _ _ _ _ _ quiet => exact hplain quiet.did
  | drops _ _ _ quiet => exact hplain quiet.did
  | wipes _ _ _ loads _ did => exact did.trans loads.did_plain

/-- A question that was sent is delivered and announced once. -/
theorem sends_of_returnsSent {op : Op ω} (h : op.ReturnsSent b s) :
    ∃ q now, Sends b s op q ∧
      (op.apply b s).delivered = Outbound.question now q.text q.images :: s.delivered ∧
        (op.apply b s).issued = (q.id, q.text) :: s.issued := by
  cases op with
  | ask text images =>
    have hsent : (s.ask b text images).1 = .ok .sent := h
    obtain ⟨chatId, t, hid, heq⟩ := puts_of_sent hsent
    obtain ⟨old, hload⟩ := loads_ensureChatId b s
    rw [hid] at hload
    obtain ⟨answer, hposes⟩ := poses_sendQuestion (b := b) (trimmed text) images
      (isSome_chatId_of_ensureChatId b hid)
    rw [hload.config] at hposes
    rcases hposes.effects with ⟨_, new, now, hnew, heffects⟩ | ⟨hfailed, _⟩
    · -- what was done before the frame was sent is plain
      have hbefore : Did Effect.Plain s { t with effects := new ++ t.effects } :=
        hload.did_plain.trans ⟨new, rfl, fun e he => (hnew e he).1⟩
      have happly : (Op.ask text images).apply b s = (t.sendQuestion b (trimmed text) images).2 :=
        congrArg Prod.snd heq
      obtain ⟨shown, htranscript⟩ := hposes.transcript
      refine ⟨⟨b.newId t.drawn, trimmed text, s.config.admits images⟩, now,
        ⟨text, images, rfl, hsent, rfl, rfl, old, shown, answer, ?_⟩, ?_, ?_⟩
      · rw [heq, ← hload.transcript]
        exact htranscript
      · rw [happly, Session.delivered, heffects, ← hbefore.delivered]
        rfl
      · rw [happly, Session.issued, heffects, ← hbefore.issued]
        rfl
    · have houtcome := congrArg Prod.fst heq
      rw [hsent] at houtcome
      rw [← Except.ok.inj houtcome] at hfailed
      cases hfailed
  | _ => exact h.elim

/-! ## Runs -/

/-- The questions on tape are the frames that the session remembers. -/
theorem takenQuestions_eq (config : Config) (outside : ω) (past : List (Op ω)) :
    takenQuestions b config outside past =
      ((start config outside).after b past).delivered.map fun f => f.toJson.print := by
  have hone : ∀ e : Effect, e.taken?.filter (fun text => IsQuestionText text) =
      e.delivered?.map fun f => f.toJson.print := by
    intro e
    cases e with
    | sent f taken =>
      cases taken with
      | false => rfl
      | true => simp [Effect.taken?, Effect.delivered?, Option.filter, isQuestionText_print]
    | _ => rfl
  rw [takenQuestions, taken_eq, written, delivered, List.filter_filterMap, List.map_filterMap]
  exact congrArg (List.filterMap · _) (funext hone)

/-- What asking has returned, which frames were delivered and what was announced agree. -/
theorem exists_asked (config : Config) (outside : ω) (past : List (Op ω)) :
    ∃ qs, Asked b (start config outside) past qs ∧
      List.Forall₂ (fun f q => ∃ now, f = Outbound.question now q.text q.images)
        ((start config outside).after b past).delivered qs ∧
      ((start config outside).after b past).issued = qs.map fun q => (q.id, q.text) := by
  induction past with
  | nil => exact ⟨[], .nil, .nil, rfl⟩
  | cons op past ih =>
    obtain ⟨qs, hasked, hdelivered, hissued⟩ := ih
    by_cases hsent : op.ReturnsSent b ((start config outside).after b past)
    · obtain ⟨q, now, hsends, hframe, hevent⟩ := sends_of_returnsSent hsent
      refine ⟨q :: qs, .sent hsends hasked, ?_, ?_⟩
      · rw [after_cons, hframe]
        exact .cons ⟨now, rfl⟩ hdelivered
      · rw [after_cons, hevent, hissued]
        rfl
    · have hdid := did_plain_of_redraw (redraw_after config outside past op) hsent
      exact ⟨qs, .other hsent hasked, by rwa [hdid.delivered], by rwa [hdid.issued]⟩

/-- **No question is lost and none is sent twice**, in every run: what asking returned, what
the channels took and what was announced are the same questions. -/
theorem accounted_after (config : Config) (outside : ω) (past : List (Op ω)) :
    Accounted b config outside past := by
  constructor
  · obtain ⟨qs, hasked, hdelivered, hissued⟩ := exists_asked (b := b) config outside past
    refine ⟨qs, hasked, ?_, hissued⟩
    rw [takenQuestions_eq, List.forall₂_map_left_iff]
    refine hdelivered.imp fun f q hq => ?_
    obtain ⟨now, rfl⟩ := hq
    exact q.carriedBy now
  · intro text images hcommand
    have hdid := did_plain_of_redraw (redraw_after (b := b) config outside past (.ask text images))
      fun hsent => by
        obtain ⟨_, _, _, hclear, hreset⟩ := ask_sent hsent
        exact hcommand.elim hclear hreset
    rw [takenQuestions_eq, takenQuestions_eq, hdid.delivered]

end Session
end Chat
end AnswerStream
