import AnswerStream.Chat.Memory
import AnswerStream.Proofs.Chat.Parts

/-!
# An answer that arrives in parts

The service cuts an answer into parts as it likes, starts it over, greets in the middle of
it, and sends texts that are no frames.  None of this matters: what is shown is the text
that has arrived since the answer last started (`answerText`), rendered as an answer that
goes on and, after the last frame, as a complete one.

## Why the last entry is the right one

A session changes the last entry that has the id of the exchange.  A question puts such an
entry at the end of the transcript, and until the answer is complete no frame adds another
one.  So the entry that is changed is always the last one, whatever ids the service gives
(`Awaits`).
-/

namespace AnswerStream
namespace Chat

variable {ω κ : Type}

/-! ## The text of an answer -/

namespace Inbound

/-- The frames that a sequence of texts spells. -/
def frames (past : List String) : List Inbound := past.filterMap parse?

/-- The frames since the answer last started, the earliest first, of frames that are given
with the latest first. -/
def sinceStart (past : List Inbound) : List Inbound :=
  (past.takeWhile fun f => f.kind ≠ .start).reverse

/-- What the message frames carry that came since the answer last started. -/
def answerText (past : List Inbound) : String :=
  String.join (((sinceStart past).filter fun f => f.kind = .message).map content)

/-- The text of an answer whose last frame is `f`. -/
def finalText (past : List Inbound) (f : Inbound) : String :=
  if answerText past = "" then f.content else answerText past

/-- A text that ends no answer: a part of one, a start, a greeting, or no frame at all. -/
def Pending (text : String) : Prop :=
  ∀ f ∈ parse? text, f.kind = .message ∨ f.kind = .start ∨ f.kind = .welcome

instance (text : String) : Decidable (Pending text) :=
  inferInstanceAs (Decidable (∀ f ∈ parse? text, _))

theorem frames_cons {t : String} {f : Inbound} (h : parse? t = some f) (past : List String) :
    frames (t :: past) = f :: frames past :=
  List.filterMap_cons_some h

theorem answerText_start {f : Inbound} (h : f.kind = .start) (past : List Inbound) :
    answerText (f :: past) = "" := by
  rw [answerText, sinceStart, List.takeWhile_cons_of_neg (by simp [h])]
  rfl

theorem answerText_message {f : Inbound} (h : f.kind = .message) (past : List Inbound) :
    answerText (f :: past) = answerText past ++ f.content := by
  rw [answerText, sinceStart, List.takeWhile_cons_of_pos (by simp [h])]
  simp [answerText, sinceStart, h, String.join_append]

theorem answerText_other {f : Inbound} (hstart : f.kind ≠ .start) (hmessage : f.kind ≠ .message)
    (past : List Inbound) : answerText (f :: past) = answerText past := by
  rw [answerText, sinceStart, List.takeWhile_cons_of_pos (by simp [hstart])]
  simp [answerText, sinceStart, hmessage]

end Inbound

/-! ## Changing the last entry -/

theorem updateLast?_concat {α : Type} {p : α → Bool} {x : α} (h : p x = true) (f : α → α)
    (xs : List α) : updateLast? p f (xs ++ [x]) = some (xs ++ [f x]) := by
  induction xs with
  | nil => simp [updateLast?, h]
  | cons y xs ih => simp [updateLast?, ih]

namespace Session

theorem transcript_editMessage {s : Session ω κ} {before : List Message} {m : Message}
    (h : s.transcript = before ++ [m]) (f : Message → Message) :
    (s.editMessage m.id f).transcript = before ++ [f m] := by
  rw [editMessage, h, updateLast?_concat (by simp)]
  rfl

@[simp] theorem transcript_setPhase (p : Phase) (s : Session ω κ) :
    (s.setPhase p).transcript = s.transcript := by
  unfold setPhase
  split <;> rfl

@[simp] theorem config_setPhase (p : Phase) (s : Session ω κ) :
    (s.setPhase p).config = s.config := by
  unfold setPhase
  split <;> rfl

/-! ## What is on its way -/

/-- An answer is on its way: `entry` was put at the end of the transcript for it and has
changed only in what it shows, and `text` is what has arrived. -/
structure Awaits (config : Config) (before : List Message) (entry : Message) (text : String)
    (s : Session ω κ) : Prop where
  config : s.config = config
  exchange : ∃ streaming, s.exchange = some { placeholder := entry.id, chunks := text, streaming }
  transcript : ∃ kind said html, s.transcript = before ++ [{ entry with kind, text := said, html }]

variable {config : Config} {before : List Message} {entry : Message} {text : String}
  {s : Session ω κ}

/-- A start leaves what is shown and forgets what has arrived. -/
theorem Awaits.onStart (h : Awaits config before entry text s) :
    Awaits config before entry "" s.onStart := by
  obtain ⟨streaming, hx⟩ := h.exchange
  exact ⟨h.config, ⟨streaming, by rw [Session.onStart, hx]; rfl⟩, h.transcript⟩

/-- A greeting is not shown, because the screen is not empty. -/
theorem Awaits.onWelcome (h : Awaits config before entry text s) (b : Backend ω κ) (f : Inbound) :
    s.onWelcome b f = s := by
  obtain ⟨_, _, _, ht⟩ := h.transcript
  rw [Session.onWelcome, if_neg (by simp [ht])]

/-- A part of an answer is shown behind the parts before it. -/
theorem transcript_onChunk (h : Awaits config before entry text s) (chunk : String) :
    (s.onChunk chunk).transcript = before ++
      [{ entry with
          kind := .message
          text := text ++ chunk
          html := Markup.render .streaming (text ++ chunk) }] := by
  obtain ⟨streaming, hx⟩ := h.exchange
  obtain ⟨kind, said, html, ht⟩ := h.transcript
  have hedit := fun exchange => transcript_editMessage (s := { s with exchange }) ht fun m =>
    { m with
        kind := .message
        text := text ++ chunk
        html := Markup.render .streaming (text ++ chunk) }
  rw [onChunk, hx]
  cases streaming with
  | true => exact hedit _
  | false =>
    show (setPhase .typing _).transcript = _
    rw [transcript_setPhase]
    exact hedit _

theorem Awaits.onChunk (h : Awaits config before entry text s) (chunk : String) :
    Awaits config before entry (text ++ chunk) (s.onChunk chunk) := by
  obtain ⟨streaming, hx⟩ := h.exchange
  refine ⟨?_, ⟨true, (onChunk_spec chunk hx).1⟩, ⟨_, _, _, transcript_onChunk h chunk⟩⟩
  rw [Session.onChunk, hx]
  cases streaming with
  | true => exact h.config
  | false =>
    show (setPhase .typing _).config = _
    rw [config_setPhase]
    exact h.config

/-- **A complete answer** depends only on its text and on the last frame. -/
theorem transcript_onStop (h : Awaits config before entry text s) (f : Inbound) :
    (s.onStop f).transcript =
      before ++ [completed config (if text = "" then f.content else text) (some f) entry] := by
  obtain ⟨streaming, hx⟩ := h.exchange
  obtain ⟨kind, said, html, ht⟩ := h.transcript
  have hedit := transcript_editMessage (s := { s with exchange := none }) ht
    (completed s.config (if text = "" then f.content else text) (some f))
  rw [onStop, hx]
  show (setPhase .idle _).transcript = _
  rw [transcript_setPhase, ← h.config]
  exact hedit

/-! ## A run of frames -/

variable (b : Backend ω κ)

/-- A session after some texts have arrived, the latest first. -/
def received (s : Session ω κ) (past : List String) : Session ω κ :=
  s.after b (past.map .handleFrame)

/-- A text that ends no answer adds to it what its frame says. -/
theorem Awaits.handleFrame {past : List String}
    (h : Awaits config before entry (Inbound.answerText (Inbound.frames past)) s) {t : String}
    (ht : Inbound.Pending t) :
    Awaits config before entry (Inbound.answerText (Inbound.frames (t :: past))) (s.handleFrame b t) := by
  unfold Session.handleFrame
  cases hf : Inbound.parse? t with
  | none =>
    rw [Inbound.frames, List.filterMap_cons_none hf]
    exact h
  | some f =>
    rw [Inbound.frames_cons hf]
    show Awaits config before entry _ (s.onFrame b f)
    unfold Session.onFrame
    rcases ht f hf with hkind | hkind | hkind
    · rw [Inbound.answerText_message hkind, hkind]
      exact h.onChunk f.content
    · rw [Inbound.answerText_start hkind, hkind]
      exact h.onStart
    · rw [Inbound.answerText_other (by simp [hkind]) (by simp [hkind]), hkind]
      show Awaits config before entry _ (s.onWelcome b f)
      rw [h.onWelcome b f]
      exact h

/-- **While nothing ends it, the answer that is on its way is what has arrived.** -/
theorem Awaits.received (h : Awaits config before entry "" s) {past : List String}
    (hpast : ∀ t ∈ past, Inbound.Pending t) :
    Awaits config before entry (Inbound.answerText (Inbound.frames past)) (s.received b past) := by
  induction past with
  | nil => exact h
  | cons t past ih =>
    obtain ⟨ht, hpast⟩ := List.forall_mem_cons.1 hpast
    exact (ih hpast).handleFrame b ht

/-! ## A question that was sent -/

/-- A change that leaves the options and what is on screen. -/
structure LeavesScreen (s s' : Session ω κ) : Prop where
  config : s'.config = s.config
  transcript : s'.transcript = s.transcript

theorem LeavesScreen.trans {t u : Session ω κ} (h : LeavesScreen s t) (h' : LeavesScreen t u) :
    LeavesScreen s u :=
  ⟨h'.config.trans h.config, h'.transcript.trans h.transcript⟩

theorem leavesScreen_openLine (url : String) (s : Session ω κ) :
    LeavesScreen s (s.openLine b url).2 := by
  unfold openLine
  dsimp only
  split <;> exact ⟨rfl, rfl⟩

/-- In a chat that is known, opening the channel loads no history. -/
theorem leavesScreen_ensureLine (hid : s.chatId.isSome) : LeavesScreen s (s.ensureLine b).2 := by
  obtain ⟨chatId, hchat⟩ := Option.isSome_iff_exists.1 hid
  unfold ensureLine
  split
  · exact ⟨rfl, rfl⟩
  · rw [ensureChatId_of_some b hchat]
    exact leavesScreen_openLine b _ s

theorem leavesScreen_sendFrame (f : Outbound) (hid : s.chatId.isSome) :
    LeavesScreen s (s.sendFrame b f).2 := by
  have hline := leavesScreen_ensureLine b hid
  unfold sendFrame
  split
  · rename_i h
    rw [h] at hline
    exact hline
  · rename_i h
    rw [h] at hline
    dsimp only
    split <;> exact hline.trans ⟨rfl, rfl⟩

/-- A question puts an entry for its answer at the end of the transcript. -/
theorem awaits_beginExchange (text : String) (images : List String) (s : Session ω κ) :
    ∃ before entry, Awaits s.config before entry "" (s.beginExchange b text images) := by
  refine ⟨s.transcript ++ [Message.human (b.newId s.drawn) (s.now b) text images],
    Message.thinking (b.newId (s.drawn + 1)) (s.now b), ?_, ⟨false, ?_⟩,
    ⟨.thinking, "", "", ?_⟩⟩
  · rw [beginExchange, config_setPhase]
    rfl
  · rw [beginExchange, exchange_setPhase]
    rfl
  · rw [beginExchange, transcript_setPhase, List.append_assoc]
    rfl

theorem Awaits.of_leaves {t : Session ω κ} (h : Awaits config before entry text s)
    (hscreen : LeavesScreen s t) (hexchange : t.exchange = s.exchange) :
    Awaits config before entry text t := by
  refine ⟨hscreen.config.trans h.config, ?_, ?_⟩
  · rw [hexchange]
    exact h.exchange
  · rw [hscreen.transcript]
    exact h.transcript

theorem awaits_sendQuestion (text : String) (images : List String) (hid : s.chatId.isSome)
    (hsent : (s.sendQuestion b text images).1 = .sent) :
    ∃ config before entry, Awaits config before entry "" (s.sendQuestion b text images).2 := by
  have hadmit := leavesLine_admitImages images s
  unfold sendQuestion at hsent ⊢
  dsimp only at hsent ⊢
  -- what admitting the images does to the chat id is all that matters of it
  generalize s.admitImages images = admitted at hadmit hsent ⊢
  obtain ⟨before, entry, hbegun⟩ := awaits_beginExchange b text admitted.1 admitted.2
  have hchat : (admitted.2.beginExchange b text admitted.1).chatId.isSome := by
    rw [beginExchange, chatId_setPhase]
    exact hadmit.chatId hid
  generalize admitted.2.beginExchange b text admitted.1 = begun at hbegun hchat hsent ⊢
  have hscreen := leavesScreen_sendFrame b (.question (begun.now b) text admitted.1) hchat
  have hexchange := (sendFrame_spec b (.question (begun.now b) text admitted.1) begun).1.exchange
  split at hsent
  · rename_i h
    rw [h] at hscreen hexchange
    exact ⟨_, before, entry, (hbegun.of_leaves hscreen hexchange).of_leaves ⟨rfl, rfl⟩ rfl⟩
  · cases hsent

/-- **An answer is on its way once a question was sent.** -/
theorem awaits_ask {text : String} {images : List String}
    (hsent : (s.ask b text images).1 = .ok .sent) :
    ∃ config before entry, Awaits config before entry "" (s.ask b text images).2 := by
  have hasking := asking_ask b text images s
  generalize s.ask b text images = asked at hsent hasking ⊢
  obtain ⟨result, s'⟩ := asked
  cases hasking with
  | down | stops | blank | command | noChat => cases hsent
  | puts up idle question chat =>
    exact awaits_sendQuestion b _ images (isSome_chatId_of_ensureChatId b chat)
      (Except.ok.inj hsent)

/-! ## What is shown -/

/-- The last entry on screen has the given text, rendered with the given options. -/
def Shows (s : Session ω κ) (o : Markup.Options) (text : String) : Prop :=
  ∃ m, s.transcript.getLast? = some m ∧ m.text = text ∧ m.html = Markup.render o text

theorem shows_of_concat {m : Message} (h : s.transcript = before ++ [m]) {o : Markup.Options}
    (htext : m.text = text) (hhtml : m.html = Markup.render o text) : s.Shows o text :=
  ⟨m, by rw [h, List.getLast?_concat], htext, hhtml⟩

/-- From now on an answer is shown as it comes, up to its last frame. -/
structure Streams (b : Backend ω κ) (s : Session ω κ) : Prop where
  /-- A part of the answer is shown behind the parts before it. -/
  part : ∀ past, (∀ t ∈ past, Inbound.Pending t) → ∀ t f, Inbound.parse? t = some f →
    f.kind = .message →
      (s.received b (t :: past)).Shows .streaming (Inbound.answerText (Inbound.frames (t :: past)))
  /-- The complete answer has the parts of it as its text, and the exchange is over. -/
  stop : ∀ past, (∀ t ∈ past, Inbound.Pending t) → ∀ t f, Inbound.parse? t = some f →
    f.kind = .stop →
      (s.received b (t :: past)).Shows .final (Inbound.finalText (Inbound.frames past) f) ∧
        (s.received b (t :: past)).phase = .idle
  /-- How an answer was cut into parts makes no difference in the end. -/
  same : ∀ past past', (∀ t ∈ past, Inbound.Pending t) → (∀ t ∈ past', Inbound.Pending t) →
    Inbound.answerText (Inbound.frames past) = Inbound.answerText (Inbound.frames past') →
      ∀ t f, Inbound.parse? t = some f → f.kind = .stop →
        (s.received b (t :: past)).transcript = (s.received b (t :: past')).transcript

variable {b}

/-- The complete answer, by a text that is known. -/
theorem Streams.shows_final (h : s.Streams b) {past : List String}
    (hpast : ∀ t ∈ past, Inbound.Pending t) {t : String} {f : Inbound}
    (hf : Inbound.parse? t = some f) (hkind : f.kind = .stop)
    (htext : Inbound.finalText (Inbound.frames past) f = text) :
    (s.received b (t :: past)).Shows .final text := by
  rw [← htext]
  exact (h.stop past hpast t f hf hkind).1

variable (b)

theorem received_cons (s : Session ω κ) {t : String} {f : Inbound} (hf : Inbound.parse? t = some f)
    (past : List String) : s.received b (t :: past) = (s.received b past).onFrame b f := by
  show (s.received b past).handleFrame b t = _
  rw [handleFrame, hf]

theorem completed_shown (config : Config) (text : String) (closing : Option Inbound) (m : Message) :
    (completed config text closing m).text = text ∧
      (completed config text closing m).html = Markup.render .final text := by
  cases closing <;> simp [completed, addClosing]

/-- The last frame completes what has arrived. -/
theorem Awaits.received_stop (h : Awaits config before entry "" s) {past : List String}
    (hpast : ∀ t ∈ past, Inbound.Pending t) {t : String} {f : Inbound}
    (hf : Inbound.parse? t = some f) (hkind : f.kind = .stop) :
    (s.received b (t :: past)).transcript =
        before ++ [completed config (Inbound.finalText (Inbound.frames past) f) (some f) entry] ∧
      (s.received b (t :: past)).phase = .idle := by
  have hcame := h.received b hpast
  obtain ⟨_, hx⟩ := hcame.exchange
  have hstop : s.received b (t :: past) = (s.received b past).onStop f := by
    rw [received_cons b s hf, Session.onFrame, hkind]
  rw [hstop, transcript_onStop hcame f]
  exact ⟨rfl, (onStop_spec f hx).2⟩

/-- **Answers depend on the text and not on how it was cut**: once a question was sent, the
answer is shown as it comes, whatever its parts are. -/
theorem streams_ask (s : Session ω κ) {text : String} {images : List String}
    (hsent : (s.ask b text images).1 = .ok .sent) : (s.ask b text images).2.Streams b := by
  obtain ⟨config, before, entry, h⟩ := awaits_ask b hsent
  refine ⟨fun past hpast t f hf hkind => ?_, fun past hpast t f hf hkind => ?_,
    fun past past' hpast hpast' hsame t f hf hkind => ?_⟩
  · have hcame := transcript_onChunk (h.received b hpast) f.content
    rw [← Inbound.answerText_message hkind] at hcame
    rw [Inbound.frames_cons hf, received_cons b _ hf, onFrame, hkind]
    exact shows_of_concat hcame rfl rfl
  · obtain ⟨htranscript, hphase⟩ := h.received_stop b hpast hf hkind
    obtain ⟨htext, hhtml⟩ := completed_shown config
      (Inbound.finalText (Inbound.frames past) f) (some f) entry
    exact ⟨shows_of_concat htranscript htext hhtml, hphase⟩
  · rw [(h.received_stop b hpast hf hkind).1, (h.received_stop b hpast' hf hkind).1,
      Inbound.finalText, Inbound.finalText, hsame]

/-- An answer that starts over, with a text that is no frame before its last part, ends as
what came after the start. -/
theorem shows_answer_started_over :
    ((start {} {}).ask Memory.backend "q" []).1 = .ok .sent ∧
      (((start {} {}).ask Memory.backend "q" []).2.received Memory.backend
        ["\x7b\"type\":\"stop\"\x7d", "\x7b\"type\":\"message\",\"data\":\"lo\"\x7d", "?",
          "\x7b\"type\":\"message\",\"data\":\"Hel\"\x7d", "\x7b\"type\":\"start\"\x7d",
          "\x7b\"type\":\"message\",\"data\":\"x\"\x7d"]).Shows .final "Hello" := by
  have hsent : ((start {} {}).ask Memory.backend "q" []).1 = .ok .sent := rfl
  have hstreams := streams_ask Memory.backend (start {} {}) hsent
  have hstop : Inbound.parse? "\x7b\"type\":\"stop\"\x7d" = some { kind := .stop } := by
    decide +kernel
  exact ⟨hsent, hstreams.shows_final (by decide +kernel) hstop rfl (by decide +kernel)⟩

end Session
end Chat
end AnswerStream
