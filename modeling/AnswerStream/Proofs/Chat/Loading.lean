import AnswerStream.Proofs.Chat.Stream

/-!
# What a session asks for before it acts

Before a session acts it may have to get a chat id, and with it comes the history of the
chat, which goes ahead of what is on screen.  Nothing else that it asks for shows: requests,
connections and frames leave traces only in its effects.

`Adds` says that a part of an operation does nothing on screen, and `Loads` that it puts
restored entries ahead of what is there.  Which entries these are is read off the answer of
the service (`Restores`).  Both also say what was not done: no question was delivered, and
none was announced.
-/

namespace AnswerStream
namespace Chat

variable {ω κ : Type}

/-! ## Effects -/

/-- A frame that carries a question. -/
def Outbound.IsQuestion (f : Outbound) : Prop := f.kind = "message"

instance (f : Outbound) : Decidable f.IsQuestion := inferInstanceAs (Decidable (f.kind = "message"))

theorem Outbound.not_isQuestion_context (now : Nat) (value : Json) :
    ¬ (Outbound.context now value).IsQuestion := by
  simp [IsQuestion, context]

namespace Effect

/-- An effect that only concerns listeners and the channel: an event other than that a
question is on its way, or that the channel was closed. -/
def Notice : Effect → Prop
  | announced (.questionIssued _ _) => False
  | announced _ => True
  | closed _ => True
  | _ => False

/-- An effect other than that a question was delivered or announced. -/
def Plain : Effect → Prop
  | announced (.questionIssued _ _) => False
  | sent f taken => taken = true → ¬ f.IsQuestion
  | _ => True

/-- An effect other than a request for the history. -/
def Unasked (e : Effect) : Prop := ∀ chatId, e ≠ requested (.history chatId)

theorem Notice.plain {e : Effect} (h : e.Notice) : e.Plain := by
  cases e with
  | announced event => cases event <;> exact h
  | closed code => trivial
  | _ => exact h.elim

theorem Notice.unasked {e : Effect} (h : e.Notice) : e.Unasked := by
  rintro chatId rfl
  exact h

/-- An effect of neither kind. -/
def Quiet (e : Effect) : Prop := e.Plain ∧ e.Unasked

theorem Notice.quiet {e : Effect} (h : e.Notice) : e.Quiet := ⟨h.plain, h.unasked⟩

end Effect

namespace Session

/-- What a session did beyond what it did before, the latest first. -/
def since (s s' : Session ω κ) : List Effect :=
  s'.effects.take (s'.effects.length - s.effects.length)

theorem since_eq {s s' : Session ω κ} {new : List Effect} (h : s'.effects = new ++ s.effects) :
    s.since s' = new := by
  rw [since, h, List.length_append, Nat.add_sub_cancel, List.take_left]

/-- A change whose new effects all satisfy `P`. -/
def Did (P : Effect → Prop) (s s' : Session ω κ) : Prop :=
  ∃ new, s'.effects = new ++ s.effects ∧ ∀ e ∈ new, P e

namespace Did

variable {P Q : Effect → Prop} {s t u : Session ω κ}

theorem of_eq (h : t.effects = s.effects) : Did P s t := ⟨[], by simpa using h, by simp⟩

theorem refl (s : Session ω κ) : Did P s s := of_eq rfl

theorem record {e : Effect} (h : P e) (s : Session ω κ) : Did P s (s.record e) :=
  ⟨[e], rfl, by simpa using h⟩

theorem trans (h : Did P s t) (h' : Did P t u) : Did P s u := by
  obtain ⟨new, heq, hnew⟩ := h
  obtain ⟨new', heq', hnew'⟩ := h'
  refine ⟨new' ++ new, by rw [heq', heq, List.append_assoc], fun e he => ?_⟩
  rcases List.mem_append.1 he with he | he
  · exact hnew' e he
  · exact hnew e he

theorem mono (hPQ : ∀ e, P e → Q e) (h : Did P s t) : Did Q s t := by
  obtain ⟨new, heq, hnew⟩ := h
  exact ⟨new, heq, fun e he => hPQ e (hnew e he)⟩

/-- What is new satisfies `P`. -/
theorem forall_since (h : Did P s t) : ∀ e ∈ s.since t, P e := by
  obtain ⟨new, heq, hnew⟩ := h
  rw [since_eq heq]
  exact hnew

end Did

/-! ## What does not show -/

/-- A change that leaves the options and the count of ids, and whose effects deliver no
question and ask for no history. -/
structure Quiet (s s' : Session ω κ) : Prop where
  config : s'.config = s.config
  drawn : s'.drawn = s.drawn
  did : Did Effect.Quiet s s'

/-- A quiet change that leaves what is on screen. -/
structure Adds (s s' : Session ω κ) : Prop extends Quiet s s' where
  transcript : s'.transcript = s.transcript

theorem Quiet.refl (s : Session ω κ) : Quiet s s := ⟨rfl, rfl, .refl s⟩

theorem Quiet.trans {s t u : Session ω κ} (h : Quiet s t) (h' : Quiet t u) : Quiet s u :=
  ⟨h'.config.trans h.config, h'.drawn.trans h.drawn, h.did.trans h'.did⟩

namespace Adds

variable {s t u : Session ω κ}

theorem refl (s : Session ω κ) : Adds s s := ⟨.refl s, rfl⟩

theorem trans (h : Adds s t) (h' : Adds t u) : Adds s u :=
  ⟨h.toQuiet.trans h'.toQuiet, h'.transcript.trans h.transcript⟩

theorem announce {e : Event} (h : (Effect.announced e).Notice) (s : Session ω κ) :
    Adds s (s.announce e) :=
  ⟨⟨rfl, rfl, .record h.quiet s⟩, rfl⟩

theorem request {α : Type} {r : Request} (h : (Effect.requested r).Unasked)
    (ask : ω → Except Failure α × ω) (s : Session ω κ) : Adds s (s.request r ask).2 :=
  ⟨⟨rfl, rfl, .record ⟨trivial, h⟩ { s with outside := (ask s.outside).2 }⟩, rfl⟩

theorem setPhase (p : Phase) (s : Session ω κ) : Adds s (s.setPhase p) := by
  unfold Session.setPhase
  split
  · exact .refl s
  · have hphase : Adds s { s with phase := p } := ⟨⟨rfl, rfl, .of_eq rfl⟩, rfl⟩
    exact hphase.trans (announce (e := .phaseChanged p) trivial _)

end Adds

/-! ## History -/

/-- The entries that the history of a chat puts on screen, with the ids that are drawn from
`first` on for those that have none. -/
def restored (b : Backend ω κ) (config : Config) (first now : Nat)
    (entries : List HistoryEntry) : List Message :=
  entries.zipIdx.map fun e => e.1.restore config (b.newId (first + e.2)) now

/-- The entries that an answer of the service to the request for the history stands for. -/
def restoredBy (b : Backend ω κ) (config : Config) (first now : Nat) :
    Except Failure (List HistoryEntry) → List Message
  | .ok entries => restored b config first now entries
  | .error _ => []

/-- The entries that were restored, given what was done: none if the history was not asked
for, and else those that the service answered. -/
inductive Restores (b : Backend ω κ) (config : Config) (first : Nat) (done : List Effect) :
    List Message → Prop
  | nothing (h : ∀ e ∈ done, e.Unasked) : Restores b config first done []
  | history {chatId : String} (h : .requested (.history chatId) ∈ done) (outside : ω)
    (now : Nat) : Restores b config first done
      (restoredBy b config first now (b.history chatId outside).1)

/-- A change that puts restored entries ahead of what is on screen and does nothing else
there. -/
structure Loads (b : Backend ω κ) (s s' : Session ω κ) (old : List Message) : Prop where
  config : s'.config = s.config
  transcript : s'.transcript = old ++ s.transcript
  drawn : s'.drawn = s.drawn + old.length
  did : ∃ new, s'.effects = new ++ s.effects ∧ (∀ e ∈ new, e.Plain) ∧
    Restores b s.config s.drawn new old

namespace Loads

variable {b : Backend ω κ} {s t u : Session ω κ} {old : List Message}

theorem of_adds (h : Adds s t) : Loads b s t [] := by
  obtain ⟨new, heq, hnew⟩ := h.did
  exact ⟨h.config, h.transcript, h.drawn, new, heq, fun e he => (hnew e he).1,
    .nothing fun e he => (hnew e he).2⟩

/-- What is done later does not change what was restored. -/
theorem trans_adds (h : Loads b s t old) (h' : Adds t u) : Loads b s u old := by
  obtain ⟨new, heq, hplain, hrestores⟩ := h.did
  obtain ⟨new', heq', hnew'⟩ := h'.did
  refine ⟨h'.config.trans h.config, h'.transcript.trans h.transcript,
    h'.drawn.trans h.drawn, new' ++ new, by rw [heq', heq, List.append_assoc],
    fun e he => ?_, ?_⟩
  · rcases List.mem_append.1 he with he | he
    · exact (hnew' e he).1
    · exact hplain e he
  · cases hrestores with
    | nothing hnone =>
      refine .nothing fun e he => ?_
      rcases List.mem_append.1 he with he | he
      · exact (hnew' e he).2
      · exact hnone e he
    | history hasked outside now => exact .history (List.mem_append_right _ hasked) outside now

/-- Nor does what was done before. -/
theorem adds_trans (h : Adds s t) (h' : Loads b t u old) : Loads b s u old := by
  obtain ⟨new, heq, hnew⟩ := h.did
  obtain ⟨new', heq', hplain, hrestores⟩ := h'.did
  refine ⟨h'.config.trans h.config, by rw [h'.transcript, h.transcript],
    by rw [h'.drawn, h.drawn], new' ++ new, by rw [heq', heq, List.append_assoc],
    fun e he => ?_, ?_⟩
  · rcases List.mem_append.1 he with he | he
    · exact hplain e he
    · exact (hnew e he).1
  · rw [h.config, h.drawn] at hrestores
    cases hrestores with
    | nothing hnone =>
      refine .nothing fun e he => ?_
      rcases List.mem_append.1 he with he | he
      · exact hnone e he
      · exact (hnew e he).2
    | history hasked outside now => exact .history (List.mem_append_left _ hasked) outside now

/-- What was restored is what the new effects say. -/
theorem restores (h : Loads b s t old) : Restores b s.config s.drawn (s.since t) old := by
  obtain ⟨new, heq, -, hrestores⟩ := h.did
  rwa [since_eq heq]

theorem did_plain (h : Loads b s t old) : Did Effect.Plain s t := by
  obtain ⟨new, heq, hplain, -⟩ := h.did
  exact ⟨new, heq, hplain⟩

end Loads

/-! ## What is asked for -/

variable (b : Backend ω κ)

theorem loads_loadHistory (chatId : String) (s : Session ω κ) :
    ∃ old, Loads b s (s.loadHistory b chatId) old := by
  have hasked : ∀ old new, (∀ e ∈ new, Effect.Plain e) → ∀ now outside,
      old = restoredBy b s.config s.drawn now (b.history chatId outside).1 →
      (∀ e ∈ new ++ [Effect.requested (.history chatId)], e.Plain) ∧
        Restores b s.config s.drawn (new ++ [.requested (.history chatId)]) old := by
    rintro old new hnew now outside rfl
    refine ⟨fun e he => ?_, .history (by simp) outside now⟩
    rcases List.mem_append.1 he with he | he
    · exact hnew e he
    · rw [List.mem_singleton.1 he]
      trivial
  unfold loadHistory
  split
  · rename_i entries t h
    obtain ⟨hanswer, rfl⟩ := Prod.mk.inj h
    unfold restore
    dsimp only
    split
    · rename_i hnone
      -- an empty history is no news
      have hnil : entries = [] := by simpa [now] using hnone
      refine ⟨[], rfl, rfl, rfl, [.requested (.history chatId)], rfl, ?_⟩
      refine hasked [] [] (by simp) 0 s.outside ?_
      rw [show (b.history chatId s.outside).1 = .ok entries from hanswer, hnil]
      rfl
    · refine ⟨_, rfl, rfl, rfl, [.announced .transcriptChanged, .requested (.history chatId)],
        rfl, ?_⟩
      refine hasked _ [.announced .transcriptChanged] (by simp [Effect.Plain])
        (b.now (b.history chatId s.outside).2) s.outside ?_
      rw [show (b.history chatId s.outside).1 = .ok entries from hanswer]
      rfl
  · rename_i e t h
    obtain ⟨hanswer, rfl⟩ := Prod.mk.inj h
    refine ⟨[], rfl, rfl, rfl, [.announced (.warning (.noHistory e)), .requested (.history chatId)],
      rfl, ?_⟩
    refine hasked [] [.announced (.warning (.noHistory e))] (by simp [Effect.Plain]) 0 s.outside ?_
    rw [show (b.history chatId s.outside).1 = .error e from hanswer]
    rfl

theorem loads_bootstrap (s : Session ω κ) : ∃ old, Loads b s (s.bootstrap b).2 old := by
  have hask : Adds s (s.request .chatId b.chatId).2 := .request (by simp [Effect.Unasked]) _ s
  unfold bootstrap
  split
  · exact ⟨[], .of_adds (.refl s)⟩
  · split
    · rename_i chatId t h
      rw [h] at hask
      obtain ⟨old, hload⟩ := loads_loadHistory b chatId { t with chatId := some chatId }
      have hid : Adds t { t with chatId := some chatId } := ⟨⟨rfl, rfl, .of_eq rfl⟩, rfl⟩
      exact ⟨old, .adds_trans (hask.trans hid) hload⟩
    · rename_i e t h
      rw [h] at hask
      have hdown : Adds t { t with unavailable := true } := ⟨⟨rfl, rfl, .of_eq rfl⟩, rfl⟩
      exact ⟨[], .of_adds (hask.trans (hdown.trans (.announce (e := .fatal e.message) trivial _)))⟩

theorem loads_ensureChatId (s : Session ω κ) : ∃ old, Loads b s (s.ensureChatId b).2 old := by
  obtain ⟨old, hboot⟩ := loads_bootstrap b s
  unfold ensureChatId
  split
  · exact ⟨[], .of_adds (.refl s)⟩
  · split
    · rename_i h
      rw [h] at hboot
      exact ⟨old, hboot⟩
    · rename_i h
      rw [h] at hboot
      split <;> exact ⟨old, hboot⟩

theorem adds_openLine (url : String) (s : Session ω κ) : Adds s (s.openLine b url).2 := by
  have hconnected : ∀ opened, (Effect.connected url opened).Quiet :=
    fun opened => ⟨trivial, by simp [Effect.Unasked]⟩
  unfold openLine
  dsimp only
  split
  · exact ⟨⟨rfl, rfl, .record (hconnected false) { s with outside := _ }⟩, rfl⟩
  · exact ⟨⟨rfl, rfl, .record (hconnected true) { s with outside := _, line := _ }⟩, rfl⟩

/-- In a chat that is known, opening the channel does not show. -/
theorem adds_ensureLine {s : Session ω κ} (hid : s.chatId.isSome) :
    Adds s (s.ensureLine b).2 := by
  obtain ⟨chatId, hchat⟩ := Option.isSome_iff_exists.1 hid
  unfold ensureLine
  split
  · exact .refl s
  · rw [ensureChatId_of_some b hchat]
    exact adds_openLine b _ s

theorem loads_ensureLine (s : Session ω κ) : ∃ old, Loads b s (s.ensureLine b).2 old := by
  obtain ⟨old, hid⟩ := loads_ensureChatId b s
  unfold ensureLine
  split
  · exact ⟨[], .of_adds (.refl s)⟩
  · split
    · rename_i h
      rw [h] at hid
      exact ⟨old, hid⟩
    · rename_i h
      rw [h] at hid
      exact ⟨old, hid.trans_adds (adds_openLine b _ _)⟩

/-- Sending a frame over a channel that is had. -/
theorem loads_sendFrame {f : Outbound} (hf : ¬ f.IsQuestion) (s : Session ω κ) :
    ∃ old, Loads b s (s.sendFrame b f).2 old := by
  obtain ⟨old, hline⟩ := loads_ensureLine b s
  have hsent : ∀ taken, (Effect.sent f taken).Quiet :=
    fun taken => ⟨fun _ => hf, by simp [Effect.Unasked]⟩
  unfold sendFrame
  split
  · rename_i h
    rw [h] at hline
    exact ⟨old, hline⟩
  · rename_i line t h
    rw [h] at hline
    dsimp only
    split
    · exact ⟨old, hline.trans_adds
        ⟨⟨rfl, rfl, .record (hsent false) { t with outside := _, line := none }⟩, rfl⟩⟩
    · exact ⟨old, hline.trans_adds
        ⟨⟨rfl, rfl, .record (hsent true) { t with outside := _ }⟩, rfl⟩⟩

end Session
end Chat
end AnswerStream
