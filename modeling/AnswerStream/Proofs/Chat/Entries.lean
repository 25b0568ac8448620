import AnswerStream.Proofs.Chat.Screen

/-!
# How entries are written

Entries are changed by their id, and always the last one that has it.  This module says what
that comes to for the entry of an answer, which is the last of all: each of the functions
that end an answer or go on with it changes that entry and no other.  It also says what a
question puts on screen (`Poses`), whether or not it can be delivered.
-/

namespace AnswerStream
namespace Chat

open Text

variable {ω κ : Type}

/-! ## Changing an entry by its id -/

theorem updateLast?_eq_none {α : Type} {p : α → Bool} (f : α → α) {xs : List α}
    (h : ∀ x ∈ xs, p x = false) : updateLast? p f xs = none := by
  induction xs with
  | nil => rfl
  | cons y ys ih =>
    obtain ⟨hy, hys⟩ := List.forall_mem_cons.1 h
    simp [updateLast?, ih hys, hy]

/-- If a member satisfies `p`, one that does is changed and the others are not. -/
theorem updateLast?_of_mem {α : Type} {p : α → Bool} (f : α → α) {xs : List α}
    (h : ∃ x ∈ xs, p x = true) :
    ∃ before x after, xs = before ++ x :: after ∧
      updateLast? p f xs = some (before ++ f x :: after) := by
  induction xs with
  | nil =>
    obtain ⟨x, hx, _⟩ := h
    cases hx
  | cons y ys ih =>
    by_cases hys : ∃ x ∈ ys, p x = true
    · obtain ⟨before, x, after, rfl, heq⟩ := ih hys
      exact ⟨y :: before, x, after, rfl, by simp [updateLast?, heq]⟩
    · have hnone : updateLast? p f ys = none :=
        updateLast?_eq_none f fun x hx => by simpa using fun hp => hys ⟨x, hx, hp⟩
      obtain ⟨x, hx, hp⟩ := h
      rcases List.mem_cons.1 hx with rfl | hx
      · exact ⟨[], x, ys, rfl, by simp [updateLast?, hnone, hp]⟩
      · exact absurd ⟨x, hx, hp⟩ hys

/-- What an answer says that failed with a text. -/
def causeOf (text : String) : String := if allBlank text.toList then failureText else text

/-- The images of a question that are let through. -/
def Config.admits (config : Config) (images : List String) : List String :=
  if config.disableImageUpload then [] else images

namespace Session

/-! ## Questions -/

/-- A frame was delivered, and nothing else was done that shows. -/
structure Delivers (f : Outbound) (s s' : Session ω κ) : Prop where
  config : s'.config = s.config
  drawn : s'.drawn = s.drawn
  transcript : s'.transcript = s.transcript
  effects : ∃ new, s'.effects = .sent f true :: (new ++ s.effects) ∧ ∀ e ∈ new, e.Quiet

/-- A question was put on screen, with an entry for its answer, and sent.  If it was not
delivered its entry shows the cause. -/
structure Poses (b : Backend ω κ) (text : String) (images : List String) (s s' : Session ω κ)
    (outcome : Outcome) (answer : Message) : Prop where
  config : s'.config = s.config
  drawn : s'.drawn = s.drawn + 2
  transcript : ∃ now, s'.transcript =
    s.transcript ++ [Message.human (b.newId s.drawn) now text images, answer]
  answerId : answer.id = b.newId (s.drawn + 1)
  displays : Displays s'.exchange [answer]
  obeys : s'.exchange = none → answer.Obeys s'.config
  effects : (outcome = .sent ∧ ∃ new now, (∀ e ∈ new, e.Quiet) ∧
      s'.effects = .announced (.questionIssued (b.newId s.drawn) text) ::
        .sent (.question now text images) true :: (new ++ s.effects)) ∨
    outcome = .failed ∧ Did Effect.Quiet s s'

variable {b : Backend ω κ} {s t u : Session ω κ}

theorem quiet_editMessage (id : String) (f : Message → Message) (s : Session ω κ) :
    Quiet s (s.editMessage id f) :=
  ⟨rfl, rfl, .of_eq rfl⟩

/-- What ends an exchange, or goes on with it, changes an entry, says so and moves to a
phase. -/
theorem quiet_show (p : Phase) (s : Session ω κ) :
    Quiet s ((s.announce .transcriptChanged).setPhase p) :=
  ((Adds.announce (e := .transcriptChanged) trivial s).trans (.setPhase p _)).toQuiet

/-- In a chat that is known, a frame that was sent was delivered over the channel that is
open. -/
theorem sendFrame_ok {f : Outbound} (hid : s.chatId.isSome)
    (h : s.sendFrame b f = (.ok (), u)) :
    LeavesExchange s u ∧ u.line.isSome ∧ Delivers f s u := by
  obtain ⟨hleaves, hopen, -⟩ := sendFrame_spec b f s
  have hline := adds_ensureLine b hid
  rw [h] at hleaves hopen
  refine ⟨hleaves, hopen () rfl, ?_⟩
  unfold sendFrame at h
  split at h
  · cases h
  · rename_i line t hensure
    rw [hensure] at hline
    dsimp only at h
    split at h
    · cases h
    · obtain ⟨-, rfl⟩ := Prod.mk.inj h
      obtain ⟨new, heq, hnew⟩ := hline.did
      exact ⟨hline.config, hline.drawn, hline.transcript, new,
        congrArg (Effect.sent f true :: ·) heq, hnew⟩

/-- For one that was not there is nothing to show, and no channel. -/
theorem sendFrame_error {f : Outbound} {e : Failure} (hid : s.chatId.isSome)
    (h : s.sendFrame b f = (.error e, u)) :
    LeavesExchange s u ∧ u.line = none ∧ Adds s u := by
  obtain ⟨hleaves, -, hclosed⟩ := sendFrame_spec b f s
  have hline := adds_ensureLine b hid
  have hlost : (Effect.sent f false).Quiet := ⟨by rintro ⟨⟩, by rintro _ ⟨⟩⟩
  rw [h] at hleaves hclosed
  refine ⟨hleaves, hclosed e rfl, ?_⟩
  unfold sendFrame at h
  split at h
  · rename_i e' t hensure
    obtain ⟨-, rfl⟩ := Prod.mk.inj h
    rw [hensure] at hline
    exact hline
  · rename_i line t hensure
    rw [hensure] at hline
    dsimp only at h
    split at h
    · obtain ⟨-, rfl⟩ := Prod.mk.inj h
      exact hline.trans ⟨⟨rfl, rfl, .record hlost { t with outside := _, line := none }⟩, rfl⟩
    · cases h

theorem fst_admitImages (images : List String) (s : Session ω κ) :
    (s.admitImages images).1 = s.config.admits images := by
  unfold admitImages Config.admits
  cases images <;> cases s.config.disableImageUpload <;> rfl

theorem adds_admitImages (images : List String) (s : Session ω κ) :
    Adds s (s.admitImages images).2 := by
  unfold admitImages
  split
  · exact .announce (e := .warning (.imagesDropped _)) trivial s
  · exact .refl s

/-! ## The entry of the answer -/

section Last

variable {x : Exchange} {before : List Message} {entry : Message}

/-- The cause of a failure takes the place of the last entry. -/
theorem finishWithError_last (text : String) (hx : s.exchange = some x)
    (hs : s.transcript = before ++ [entry]) (hid : entry.id = x.placeholder) :
    (s.finishWithError text).transcript = before ++
        [{ entry with kind := .error, text := causeOf text, html := escape (causeOf text) }] ∧
      Quiet s (s.finishWithError text) := by
  have hforget : Quiet s { s with exchange := none } := ⟨rfl, rfl, .of_eq rfl⟩
  rw [finishWithError, hx]
  dsimp only
  rw [transcript_setPhase, ← hid]
  exact ⟨transcript_editMessage (s := { s with exchange := none }) hs _,
    hforget.trans ((quiet_editMessage _ _ _).trans (quiet_show _ _))⟩

theorem complete_last (text : String) (closing : Option Inbound)
    (hs : s.transcript = before ++ [entry]) (hid : entry.id = x.placeholder) :
    (s.complete x.placeholder text closing).transcript =
        before ++ [completed s.config text closing entry] ∧
      Quiet s (s.complete x.placeholder text closing) := by
  rw [complete, transcript_setPhase, ← hid]
  exact ⟨transcript_editMessage hs _, (quiet_editMessage _ _ s).trans (quiet_show _ _)⟩

theorem onChunk_last (chunk : String) (hx : s.exchange = some x)
    (hs : s.transcript = before ++ [entry]) (hid : entry.id = x.placeholder) :
    (s.onChunk chunk).transcript = before ++
        [{ entry with
            kind := .message
            text := x.chunks ++ chunk
            html := Markup.render .streaming (x.chunks ++ chunk) }] ∧
      Quiet s (s.onChunk chunk) := by
  let shows : Message → Message := fun m =>
    { m with
        kind := .message
        text := x.chunks ++ chunk
        html := Markup.render .streaming (x.chunks ++ chunk) }
  let t : Session ω κ :=
    { s with exchange := some { x with chunks := x.chunks ++ chunk, streaming := true } }
  have hedit : (t.editMessage x.placeholder shows).transcript = before ++ [shows entry] := by
    rw [← hid]
    exact transcript_editMessage hs shows
  have hquiet : Quiet s (t.editMessage x.placeholder shows) := ⟨rfl, rfl, .of_eq rfl⟩
  have hannounce : ∀ u : Session ω κ, Adds u (u.announce .transcriptChanged) :=
    .announce (e := .transcriptChanged) trivial
  rw [onChunk, hx]
  dsimp only
  split
  · exact ⟨hedit, hquiet.trans (hannounce _).toQuiet⟩
  · have htyping := (Adds.setPhase .typing (t.editMessage x.placeholder shows)).trans (hannounce _)
    exact ⟨htyping.transcript.trans hedit, hquiet.trans htyping.toQuiet⟩

end Last

theorem adds_hangUp (s : Session ω κ) : Adds s (s.hangUp b) := by
  unfold hangUp
  split
  · exact .refl s
  · exact ⟨⟨rfl, rfl, .record (e := .closed normalClosure) (Effect.Notice.quiet trivial)
      { s with outside := _, line := none }⟩, rfl⟩

/-- Starting over after a reset may restore the history of the new chat. -/
theorem loads_restart (hard : Bool) (s : Session ω κ) :
    ∃ old, Loads b s (if hard then s.restart b else s) old := by
  cases hard with
  | false => exact ⟨[], .of_adds (.refl s)⟩
  | true =>
    obtain ⟨old, hboot⟩ := loads_bootstrap b { s.hangUp b with chatId := none }
    have hforget : Adds (s.hangUp b) { s.hangUp b with chatId := none } :=
      ⟨⟨rfl, rfl, .of_eq rfl⟩, rfl⟩
    exact ⟨old, .adds_trans ((adds_hangUp s).trans hforget) hboot⟩

/-! ## Asking -/

/-- A question that is put on screen takes two ids, one of them for its answer. -/
theorem beginExchange_spec (text : String) (images : List String) (s : Session ω κ) :
    (s.beginExchange b text images).config = s.config ∧
      (s.beginExchange b text images).drawn = s.drawn + 2 ∧
      (s.beginExchange b text images).exchange =
        some { placeholder := b.newId (s.drawn + 1) } ∧
      (s.beginExchange b text images).transcript = s.transcript ++
        [Message.human (b.newId s.drawn) (s.now b) text images,
          Message.thinking (b.newId (s.drawn + 1)) (s.now b)] ∧
      Did Effect.Quiet s (s.beginExchange b text images) := by
  rw [beginExchange]
  refine ⟨config_setPhase .., ?_, exchange_setPhase .., transcript_setPhase .., ?_⟩
  · exact (Adds.setPhase .waiting _).drawn
  · obtain ⟨new, heq, hnew⟩ := (quiet_show .waiting { s with
      exchange := some { placeholder := b.newId (s.drawn + 1) }
      transcript := s.transcript ++
        [Message.human (b.newId s.drawn) (s.now b) text images,
          Message.thinking (b.newId (s.drawn + 1)) (s.now b)]
      drawn := s.drawn + 2 }).did
    exact ⟨new, heq, hnew⟩

theorem stands_thinking (id : String) (now : Nat) :
    ({ placeholder := id } : Exchange).Stands (Message.thinking id now) :=
  ⟨rfl, rfl, fun _ => ⟨rfl, rfl, rfl⟩, by rintro ⟨⟩, Message.bare_thinking ..⟩

/-- A question is on screen with an entry for its answer, and was not sent yet. -/
structure Begun (b : Backend ω κ) (text : String) (images : List String) (s t : Session ω κ) :
    Prop where
  config : t.config = s.config
  drawn : t.drawn = s.drawn + 2
  exchange : t.exchange = some { placeholder := b.newId (s.drawn + 1) }
  phase : t.phase = .waiting
  chatId : s.chatId.isSome → t.chatId.isSome
  transcript : ∃ now, t.transcript = s.transcript ++
    [Message.human (b.newId s.drawn) now text images,
      Message.thinking (b.newId (s.drawn + 1)) now]
  did : Did Effect.Quiet s t

/-- What sending a question comes to: it begins, and its frame is delivered or the cause why
not is shown. -/
inductive Sending (b : Backend ω κ) (text : String) (images : List String) (s : Session ω κ) :
    Outcome → Session ω κ → Prop
  | sent {t u : Session ω κ} (begun : Begun b text images s t)
    (delivered : t.sendFrame b (.question (t.now b) text images) = (.ok (), u)) :
    Sending b text images s .sent (u.announce (.questionIssued (b.newId s.drawn) text))
  | failed {t u : Session ω κ} {e : Failure} (begun : Begun b text images s t)
    (lost : t.sendFrame b (.question (t.now b) text images) = (.error e, u)) :
    Sending b text images s .failed (u.finishWithError e.message)

theorem begun_beginExchange (text : String) (images : List String) (s : Session ω κ) :
    Begun b text (s.config.admits images) s
      ((s.admitImages images).2.beginExchange b text (s.config.admits images)) := by
  have himages := adds_admitImages images s
  have hchat := (leavesLine_admitImages images s).chatId
  generalize (s.admitImages images).2 = t at himages hchat ⊢
  obtain ⟨hconfig, hdrawn, hexchange, htranscript, hdid⟩ :=
    beginExchange_spec (b := b) text (s.config.admits images) t
  rw [himages.drawn] at hdrawn hexchange htranscript
  rw [himages.transcript] at htranscript
  refine ⟨hconfig.trans himages.config, hdrawn, hexchange, ?_, fun h => ?_,
    ⟨_, htranscript⟩, himages.did.trans hdid⟩
  · rw [beginExchange, phase_setPhase]
  · rw [beginExchange, chatId_setPhase]
    exact hchat h

theorem sending_sendQuestion (text : String) (images : List String) (s : Session ω κ) :
    Sending b text (s.config.admits images) s (s.sendQuestion b text images).1
      (s.sendQuestion b text images).2 := by
  have hbegun := begun_beginExchange (b := b) text images s
  have hdrawn := (adds_admitImages images s).drawn
  unfold sendQuestion
  dsimp only
  rw [fst_admitImages, hdrawn]
  split
  · rename_i u h
    exact .sent hbegun h
  · rename_i e u h
    exact .failed hbegun h

theorem poses_sendQuestion (text : String) (images : List String) (hid : s.chatId.isSome) :
    ∃ answer, Poses b text (s.config.admits images) s (s.sendQuestion b text images).2
      (s.sendQuestion b text images).1 answer := by
  have hsending := sending_sendQuestion (b := b) text images s
  generalize s.sendQuestion b text images = asked at hsending ⊢
  obtain ⟨outcome, s'⟩ := asked
  cases hsending with
  | @sent t u begun delivered =>
    obtain ⟨hleaves, -, hdelivers⟩ := sendFrame_ok (begun.chatId hid) delivered
    obtain ⟨new, heq, hnew⟩ := begun.did
    obtain ⟨new', heq', hnew'⟩ := hdelivers.effects
    obtain ⟨now, htranscript⟩ := begun.transcript
    refine ⟨_, hdelivers.config.trans begun.config, hdelivers.drawn.trans begun.drawn,
      ⟨now, hdelivers.transcript.trans htranscript⟩, rfl, ?_,
      fun _ => (Message.bare_thinking ..).obeys (by rintro ⟨⟩) _,
      Or.inl ⟨rfl, new' ++ new, t.now b, ?_, ?_⟩⟩
    · show Displays u.exchange _
      rw [hleaves.exchange, begun.exchange]
      exact Displays.singleton_iff.2 (stands_thinking _ _)
    · rintro e he
      rcases List.mem_append.1 he with he | he
      · exact hnew' e he
      · exact hnew e he
    · show _ :: u.effects = _
      rw [heq', heq, List.append_assoc]
  | @failed t u e begun lost =>
    obtain ⟨hleaves, -, hadds⟩ := sendFrame_error (begun.chatId hid) lost
    obtain ⟨now, htranscript⟩ := begun.transcript
    have hx := hleaves.exchange.trans begun.exchange
    obtain ⟨hshows, hquiet⟩ := finishWithError_last e.message hx
      ((hadds.transcript.trans htranscript).trans (List.append_cons ..)) rfl
    refine ⟨_, (hquiet.config.trans hadds.config).trans begun.config,
      (hquiet.drawn.trans hadds.drawn).trans begun.drawn,
      ⟨now, hshows.trans (List.append_assoc ..)⟩, rfl, ?_,
      fun _ => Message.obeys_error (Message.bare_thinking ..) _ _,
      Or.inr ⟨rfl, begun.did.trans (hadds.did.trans hquiet.did)⟩⟩
    show Displays (u.finishWithError e.message).exchange _
    rw [(finishWithError_spec e.message hx).1]
    simpa using Message.settled_error rfl _

/-- A text that is neither blank nor a command is sent as a question, once there is a
chat. -/
theorem ask_question {text : String} (images : List String) (hdown : s.unavailable = false)
    (hphase : s.phase = .idle) (hempty : trimmed text ≠ "") (hclear : trimmed text ≠ "/clear")
    (hreset : trimmed text ≠ "/reset") :
    s.ask b text images =
      match s.ensureChatId b with
      | (.error _, s) => (.error .unavailable, s)
      | (.ok _, s) =>
        (.ok (s.sendQuestion b (trimmed text) images).1,
          (s.sendQuestion b (trimmed text) images).2) := by
  rw [Session.ask, if_neg (by simp [hdown]), if_neg (by simp [hphase])]
  dsimp only
  rw [← trimmed, if_neg hempty, if_neg hclear]
  refine (if_neg hreset).trans ?_
  cases s.ensureChatId b with
  | mk answer t => cases answer <;> rfl

end Session

end Chat
end AnswerStream
