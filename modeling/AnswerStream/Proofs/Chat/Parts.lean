import AnswerStream.Proofs.Chat.Run

/-!
# What the parts of an operation do

Most of what an operation does is of no concern to the exchange in flight: requests,
warnings, votes, history.  Such a part `LeavesLine`: the exchange, its phase and the
channel stay as they were.  The others are opening the channel, sending over it, clearing,
asking, ending, and the frames of an answer.  Each has one lemma here that says what it
makes of the exchange, of its phase and of the channel, and no later proof looks inside.

Getting a chat, voting, clearing and asking can each come to several things.  Those are the
cases of a predicate, each with what has to be so for it (`Obtains`, `Voting`, `Clearing`,
`Asking`).
-/

namespace AnswerStream
namespace Chat

open Text

/-- The text of a question without the white space around it. -/
def trimmed (text : String) : String := String.ofList (trim text.toList)

namespace Session

variable {ω κ : Type}

/-! ## What leaves the exchange alone -/

/-- A change that leaves the exchange and its phase as they were, and no chat without an
id. -/
structure LeavesExchange (s s' : Session ω κ) : Prop where
  exchange : s'.exchange = s.exchange
  phase : s'.phase = s.phase
  chatId : s.chatId.isSome → s'.chatId.isSome

/-- A change that leaves the channel as it was, too. -/
structure LeavesLine (s s' : Session ω κ) : Prop extends LeavesExchange s s' where
  line : s'.line = s.line

theorem LeavesExchange.trans {s t u : Session ω κ} (h : LeavesExchange s t)
    (h' : LeavesExchange t u) : LeavesExchange s u :=
  ⟨h'.exchange.trans h.exchange, h'.phase.trans h.phase, fun hs => h'.chatId (h.chatId hs)⟩

theorem LeavesLine.trans {s t u : Session ω κ} (h : LeavesLine s t) (h' : LeavesLine t u) :
    LeavesLine s u :=
  ⟨h.toLeavesExchange.trans h'.toLeavesExchange, h'.line.trans h.line⟩

theorem LeavesLine.refl (s : Session ω κ) : LeavesLine s s := ⟨⟨rfl, rfl, id⟩, rfl⟩

theorem leavesLine_announce (e : Event) (s : Session ω κ) : LeavesLine s (s.announce e) :=
  ⟨⟨rfl, rfl, id⟩, rfl⟩

theorem leavesLine_request {α : Type} (r : Request) (ask : ω → Except Failure α × ω)
    (s : Session ω κ) : LeavesLine s (s.request r ask).2 :=
  ⟨⟨rfl, rfl, id⟩, rfl⟩

variable (b : Backend ω κ)

theorem leavesLine_restore (entries : List HistoryEntry) (s : Session ω κ) :
    LeavesLine s (s.restore b entries) := by
  unfold restore
  dsimp only
  split
  · exact .refl s
  · exact ⟨⟨rfl, rfl, id⟩, rfl⟩

theorem leavesLine_loadHistory (chatId : String) (s : Session ω κ) :
    LeavesLine s (s.loadHistory b chatId) := by
  have hask := leavesLine_request (.history chatId) (b.history chatId) s
  unfold loadHistory
  split
  · rename_i h
    rw [h] at hask
    exact hask.trans (leavesLine_restore b _ _)
  · rename_i h
    rw [h] at hask
    exact hask.trans (leavesLine_announce _ _)

theorem leavesLine_bootstrap (s : Session ω κ) : LeavesLine s (s.bootstrap b).2 := by
  have hask := leavesLine_request .chatId b.chatId s
  unfold bootstrap
  split
  · exact .refl s
  · split
    · rename_i chatId t h
      rw [h] at hask
      have hid : LeavesLine t { t with chatId := some chatId } := ⟨⟨rfl, rfl, fun _ => rfl⟩, rfl⟩
      exact hask.trans (hid.trans (leavesLine_loadHistory b chatId _))
    · rename_i h
      rw [h] at hask
      exact hask.trans ⟨⟨rfl, rfl, id⟩, rfl⟩

/-- The chat id that is had is the one of the session. -/
theorem ensureChatId_spec (s : Session ω κ) :
    LeavesLine s (s.ensureChatId b).2 ∧
      ∀ chatId, (s.ensureChatId b).1 = .ok chatId → (s.ensureChatId b).2.chatId = some chatId := by
  have hboot := leavesLine_bootstrap b s
  unfold ensureChatId
  split
  · rename_i chatId h
    exact ⟨.refl s, fun c hc => by cases hc; exact h⟩
  · split
    · rename_i h
      rw [h] at hboot
      exact ⟨hboot, fun c hc => by cases hc⟩
    · rename_i h
      rw [h] at hboot
      split
      · rename_i hid
        exact ⟨hboot, fun c hc => by cases hc; exact hid⟩
      · exact ⟨hboot, fun c hc => by cases hc⟩

theorem isSome_chatId_of_ensureChatId {s t : Session ω κ} {chatId : String}
    (h : s.ensureChatId b = (.ok chatId, t)) : t.chatId.isSome := by
  have hid := (ensureChatId_spec b s).2
  rw [h] at hid
  rw [hid chatId rfl]
  rfl

theorem ensureChatId_of_some {s : Session ω κ} {chatId : String} (h : s.chatId = some chatId) :
    s.ensureChatId b = (.ok chatId, s) := by
  rw [ensureChatId, h]

theorem chatId_loadHistory (chatId : String) (s : Session ω κ) :
    (s.loadHistory b chatId).chatId = s.chatId := by
  unfold loadHistory
  split
  · rename_i h
    obtain ⟨-, rfl⟩ := Prod.mk.inj h
    unfold restore
    dsimp only
    split <;> rfl
  · rename_i h
    obtain ⟨-, rfl⟩ := Prod.mk.inj h
    rfl

/-- What getting a chat id comes to: the id that is known, a new one with its history, or a
failure after which the session is of no use. -/
inductive Obtains (s : Session ω κ) : Except Failure String → Session ω κ → Prop
  | known {chatId : String} (known : s.chatId = some chatId) : Obtains s (.ok chatId) s
  | fetched {chatId : String} (unknown : s.chatId = none) (up : s.unavailable = false)
    (answer : (b.chatId s.outside).1 = .ok chatId) :
    Obtains s (.ok chatId)
      (({ (s.request .chatId b.chatId).2 with chatId := some chatId } : Session ω κ).loadHistory b
        chatId)
  | refused {e : Failure} (unknown : s.chatId = none) (up : s.unavailable = false)
    (answer : (b.chatId s.outside).1 = .error e) :
    Obtains s (.error (.bootstrap e.message))
      (({ (s.request .chatId b.chatId).2 with unavailable := true } : Session ω κ).announce
        (.fatal e.message))
  | down (unknown : s.chatId = none) (down : s.unavailable = true) :
    Obtains s (.error .unavailable) s

theorem obtains_ensureChatId (s : Session ω κ) :
    Obtains b s (s.ensureChatId b).1 (s.ensureChatId b).2 := by
  cases hid : s.chatId with
  | some chatId =>
    rw [ensureChatId_of_some b hid]
    exact .known hid
  | none =>
    rw [ensureChatId, hid]
    dsimp only
    cases hdown : s.unavailable with
    | true =>
      rw [bootstrap, if_pos hdown]
      exact .down hid hdown
    | false =>
      rw [bootstrap, if_neg (by simp [hdown])]
      split
      · rename_i e t h
        split at h
        · cases h
        · rename_i e' u hanswer
          obtain ⟨hfst, rfl⟩ := Prod.mk.inj hanswer
          obtain ⟨he, rfl⟩ := Prod.mk.inj h
          cases he
          exact .refused hid hdown hfst
      · rename_i t h
        split at h
        · rename_i chatId u hanswer
          obtain ⟨hfst, rfl⟩ := Prod.mk.inj hanswer
          obtain ⟨-, rfl⟩ := Prod.mk.inj h
          rw [chatId_loadHistory]
          exact .fetched hid hdown hfst
        · cases h

/-! ## What opens and loses the channel -/

theorem openLine_spec (url : String) (s : Session ω κ) :
    LeavesExchange s (s.openLine b url).2 ∧
      (∀ line, (s.openLine b url).1 = .ok line → (s.openLine b url).2.line = some line) ∧
      ∀ e, (s.openLine b url).1 = .error e → (s.openLine b url).2.line = s.line := by
  unfold openLine
  dsimp only
  split
  · exact ⟨⟨rfl, rfl, id⟩, fun line h => (by cases h), fun e _ => rfl⟩
  · exact ⟨⟨rfl, rfl, id⟩, fun line h => (by cases h; rfl), fun e h => by cases h⟩

theorem ensureLine_of_some {s : Session ω κ} {line : Line κ} (h : s.line = some line) :
    s.ensureLine b = (.ok line, s) := by
  rw [ensureLine, h]

/-- The channel that is had is the one of the session; there is none only if none can be
had. -/
theorem ensureLine_spec (s : Session ω κ) :
    LeavesExchange s (s.ensureLine b).2 ∧
      (∀ line, (s.ensureLine b).1 = .ok line → (s.ensureLine b).2.line = some line) ∧
      ∀ e, (s.ensureLine b).1 = .error e → (s.ensureLine b).2.line = none := by
  cases hline : s.line with
  | some line =>
    rw [ensureLine_of_some b hline]
    exact ⟨⟨rfl, rfl, id⟩, fun l h => (by cases h; exact hline), fun e h => by cases h⟩
  | none =>
    obtain ⟨hid, _⟩ := ensureChatId_spec b s
    unfold ensureLine
    rw [hline]
    dsimp only
    split
    · rename_i e t h
      rw [h] at hid
      exact ⟨hid.toLeavesExchange, fun line h => (by cases h), fun e _ => hid.line.trans hline⟩
    · rename_i chatId t h
      rw [h] at hid
      obtain ⟨hopen, hok, herror⟩ := openLine_spec b (t.config.socketUrl chatId) t
      exact ⟨hid.toLeavesExchange.trans hopen, hok,
        fun e he => (herror e he).trans (hid.line.trans hline)⟩

/-- After a frame was sent the channel is open, and after one was not it is gone. -/
theorem sendFrame_spec (f : Outbound) (s : Session ω κ) :
    LeavesExchange s (s.sendFrame b f).2 ∧
      (∀ u, (s.sendFrame b f).1 = .ok u → (s.sendFrame b f).2.line.isSome) ∧
      ∀ e, (s.sendFrame b f).1 = .error e → (s.sendFrame b f).2.line = none := by
  obtain ⟨hensure, hok, herror⟩ := ensureLine_spec b s
  unfold sendFrame
  split
  · rename_i e t h
    rw [h] at hensure herror
    exact ⟨hensure, fun u h => (by cases h), fun _ _ => herror e rfl⟩
  · rename_i line t h
    rw [h] at hensure hok
    dsimp only
    split
    · exact ⟨hensure.trans ⟨rfl, rfl, id⟩, fun u h => (by cases h), fun _ _ => rfl⟩
    · refine ⟨hensure.trans ⟨rfl, rfl, id⟩, fun u _ => ?_, fun e h => by cases h⟩
      have hopen : t.line = some line := hok line rfl
      simp [record, hopen]

/-- A frame over an open channel fails exactly if the channel does not take it. -/
theorem fst_sendFrame_of_some (f : Outbound) {s : Session ω κ} {line : Line κ}
    (h : s.line = some line) :
    (s.sendFrame b f).1 = (b.send line.handle f.toJson.print s.outside).1 := by
  rw [sendFrame, ensureLine_of_some b h]
  dsimp only
  split
  · rename_i hsend
    exact hsend.symm
  · rename_i hsend
    exact hsend.symm

/-- Connecting opens the channel, unless the session is of no use. -/
theorem snd_connect (s : Session ω κ) :
    (s.connect b).2 = if s.unavailable then s else (s.ensureLine b).2 := by
  unfold connect
  split
  · rfl
  · split
    all_goals
      rename_i h
      rw [h]

theorem snd_syncContext (value : Json) (s : Session ω κ) :
    (s.syncContext b value).2 =
      if s.unavailable then s else (s.sendFrame b (.context (s.now b) value)).2 := by
  unfold syncContext
  split <;> rfl

/-! ## How an exchange ends -/

@[simp] theorem exchange_setPhase (p : Phase) (s : Session ω κ) :
    (s.setPhase p).exchange = s.exchange := by
  unfold setPhase
  split <;> rfl

@[simp] theorem line_setPhase (p : Phase) (s : Session ω κ) : (s.setPhase p).line = s.line := by
  unfold setPhase
  split <;> rfl

@[simp] theorem chatId_setPhase (p : Phase) (s : Session ω κ) :
    (s.setPhase p).chatId = s.chatId := by
  unfold setPhase
  split <;> rfl

@[simp] theorem outside_setPhase (p : Phase) (s : Session ω κ) :
    (s.setPhase p).outside = s.outside := by
  unfold setPhase
  split <;> rfl

@[simp] theorem exchange_complete (id : String) (text : String) (closing : Option Inbound)
    (s : Session ω κ) : (s.complete id text closing).exchange = s.exchange := by
  rw [complete, exchange_setPhase]
  rfl

@[simp] theorem phase_complete (id : String) (text : String) (closing : Option Inbound)
    (s : Session ω κ) : (s.complete id text closing).phase = .idle := by
  rw [complete, phase_setPhase]

/-- A channel that is gone takes the exchange with it. -/
theorem handleClose_spec (s : Session ω κ) :
    s.handleClose.exchange = none ∧ s.handleClose.phase = .idle := by
  unfold handleClose
  dsimp only
  split
  · rename_i h
    exact ⟨by rw [exchange_setPhase, h], phase_setPhase ..⟩
  · split
    · exact ⟨by rw [exchange_setPhase]; rfl, phase_setPhase ..⟩
    · exact ⟨exchange_complete .., phase_complete ..⟩

theorem finishWithError_of_none (text : String) {s : Session ω κ} (h : s.exchange = none) :
    s.finishWithError text = s := by
  rw [finishWithError, h]

theorem finishWithError_spec (text : String) {s : Session ω κ} {x : Exchange}
    (h : s.exchange = some x) :
    (s.finishWithError text).exchange = none ∧ (s.finishWithError text).phase = .idle := by
  rw [finishWithError, h]
  dsimp only
  rw [exchange_setPhase, phase_setPhase]
  exact ⟨rfl, rfl⟩

/-! ## What a person does -/

theorem hangUp_spec (s : Session ω κ) :
    (s.hangUp b).exchange = s.exchange ∧ (s.hangUp b).phase = s.phase ∧
      (s.hangUp b).line = none := by
  unfold hangUp
  split
  · rename_i h
    exact ⟨rfl, rfl, h⟩
  · exact ⟨rfl, rfl, rfl⟩

/-- What is left when a chat was cleared: no exchange, the phase as it was, and the
channel unless the chat was reset. -/
structure Wiped (hard : Bool) (s s' : Session ω κ) : Prop where
  exchange : s'.exchange = none
  phase : s'.phase = s.phase
  line : s'.line = if hard then none else s.line

theorem wiped_wipe (hard : Bool) (s : Session ω κ) :
    Wiped hard s (if hard then s.wipe.restart b else s.wipe) := by
  cases hard with
  | false => exact ⟨rfl, rfl, rfl⟩
  | true =>
    obtain ⟨hexchange, hphase, hline⟩ := hangUp_spec b s.wipe
    have hboot := leavesLine_bootstrap b { s.wipe.hangUp b with chatId := none }
    exact ⟨hboot.exchange.trans hexchange, hboot.phase.trans hphase, hboot.line.trans hline⟩

theorem Wiped.of_leavesLine {hard : Bool} {s t u : Session ω κ} (h : LeavesLine s t)
    (hw : Wiped hard t u) : Wiped hard s u :=
  ⟨hw.exchange, hw.phase.trans h.phase, by rw [hw.line, h.line]⟩

/-- What a vote comes to.  The service is only asked for one that the first entry with the id
does not have. -/
inductive Voting (id : String) (up down : Bool) (s : Session ω κ) : Session ω κ → Prop
  | unknown (none : s.transcript.find? (fun m => m.id = id) = none) :
    Voting id up down s (s.warn (.noMessage id))
  | unchanged {m : Message} (first : s.transcript.find? (fun m => m.id = id) = some m)
    (has : m.upvote = up ∧ m.downvote = down) : Voting id up down s s
  | refused {m : Message} {e : Failure}
    (first : s.transcript.find? (fun m => m.id = id) = some m)
    (new : ¬ (m.upvote = up ∧ m.downvote = down))
    (answer : (b.vote id up down s.outside).1 = .error e) :
    Voting id up down s
      ((s.request (.vote id up down) (b.vote id up down)).2.warn (.voteFailed e))
  | noted {m : Message} (first : s.transcript.find? (fun m => m.id = id) = some m)
    (new : ¬ (m.upvote = up ∧ m.downvote = down))
    (answer : (b.vote id up down s.outside).1 = .ok ()) :
    Voting id up down s
      (((s.request (.vote id up down) (b.vote id up down)).2.editMessage id
        fun m => { m with upvote := up, downvote := down }).announce .transcriptChanged)

theorem voting_vote (id : String) (up down : Bool) (s : Session ω κ) :
    Voting b id up down s (s.vote b id up down) := by
  unfold vote
  split
  · rename_i hnone
    exact .unknown hnone
  · rename_i m hfirst
    split
    · rename_i hhas
      exact .unchanged hfirst hhas
    · rename_i hnew
      split
      · rename_i t h
        obtain ⟨hanswer, rfl⟩ := Prod.mk.inj h
        exact .noted hfirst hnew hanswer
      · rename_i e t h
        obtain ⟨hanswer, rfl⟩ := Prod.mk.inj h
        exact .refused hfirst hnew hanswer

/-- What clearing comes to.  It is announced before it is known whether there is a chat. -/
inductive Clearing (hard : Bool) (s : Session ω κ) : Session ω κ → Prop
  | noChat {t : Session ω κ} {e : Failure}
    (chat : (s.announce (.clearing hard)).ensureChatId b = (.error e, t)) :
    Clearing hard s (t.warn (.clearFailed e))
  | refused {t : Session ω κ} {chatId : String} {e : Failure}
    (chat : (s.announce (.clearing hard)).ensureChatId b = (.ok chatId, t))
    (answer : (b.clear chatId hard t.outside).1 = .error e) :
    Clearing hard s
      ((t.request (.clear chatId hard) (b.clear chatId hard)).2.warn (.clearFailed e))
  | cleared {t : Session ω κ} {chatId : String}
    (chat : (s.announce (.clearing hard)).ensureChatId b = (.ok chatId, t))
    (answer : (b.clear chatId hard t.outside).1 = .ok ()) :
    Clearing hard s
      (if hard then (t.request (.clear chatId hard) (b.clear chatId hard)).2.wipe.restart b
        else (t.request (.clear chatId hard) (b.clear chatId hard)).2.wipe)

theorem clearing_clear (hard : Bool) (s : Session ω κ) : Clearing b hard s (s.clear b hard) := by
  unfold clear
  split
  · rename_i e t hchat
    exact .noChat hchat
  · rename_i chatId t hchat
    split
    · rename_i e u h
      obtain ⟨hanswer, rfl⟩ := Prod.mk.inj h
      exact .refused hchat hanswer
    · rename_i u h
      obtain ⟨hanswer, rfl⟩ := Prod.mk.inj h
      exact .cleared hchat hanswer

/-- Clearing changes nothing about an exchange unless the service agrees, and then there
is none. -/
theorem clear_cases (hard : Bool) (s : Session ω κ) :
    LeavesLine s (s.clear b hard) ∨ Wiped hard s (s.clear b hard) ∧
      ∀ chatId, s.chatId = some chatId → (b.clear chatId hard s.outside).1 = .ok () := by
  have hid := (leavesLine_announce (.clearing hard) s).trans
    (ensureChatId_spec b (s.announce (.clearing hard))).1
  have hclearing := clearing_clear b hard s
  generalize s.clear b hard = s' at hclearing ⊢
  cases hclearing with
  | noChat chat =>
    rw [chat] at hid
    exact Or.inl (hid.trans (leavesLine_announce _ _))
  | refused chat answer =>
    rw [chat] at hid
    exact Or.inl (hid.trans ((leavesLine_request _ _ _).trans (leavesLine_announce _ _)))
  | cleared chat answer =>
    rw [chat] at hid
    refine Or.inr ⟨(wiped_wipe b hard _).of_leavesLine (hid.trans (leavesLine_request _ _ _)),
      fun c hc => ?_⟩
    -- a chat that is known is the one that was cleared
    have hsome : (s.announce (.clearing hard)).ensureChatId b =
        (.ok c, s.announce (.clearing hard)) := ensureChatId_of_some b hc
    obtain ⟨hfst, rfl⟩ := Prod.mk.inj (chat.symm.trans hsome)
    cases hfst
    exact answer

/-- What clearing a chat that is known comes to. -/
theorem clear_of_some (hard : Bool) {s : Session ω κ} {chatId : String}
    (h : s.chatId = some chatId) :
    s.clear b hard =
      let asked := ((s.announce (.clearing hard)).request (.clear chatId hard)
        (b.clear chatId hard)).2
      match (b.clear chatId hard s.outside).1 with
      | .error e => asked.warn (.clearFailed e)
      | .ok () => if hard then asked.wipe.restart b else asked.wipe := by
  have hknown : (s.announce (.clearing hard)).ensureChatId b =
      (.ok chatId, s.announce (.clearing hard)) := ensureChatId_of_some b h
  have hclearing := clearing_clear b hard s
  generalize s.clear b hard = s' at hclearing ⊢
  cases hclearing with
  | noChat chat => cases chat.symm.trans hknown
  | @refused t chatId' e chat answer =>
    cases chat.symm.trans hknown
    have hrefused : (b.clear chatId hard s.outside).1 = .error e := answer
    rw [hrefused]
  | cleared chat answer =>
    cases chat.symm.trans hknown
    have hagreed : (b.clear chatId hard s.outside).1 = .ok () := answer
    rw [hagreed]

/-- If the service agrees, clearing ends an exchange without a word about the phase. -/
theorem wiped_clear {hard : Bool} {s : Session ω κ} {chatId : String}
    (hid : s.chatId = some chatId) (hclear : (b.clear chatId hard s.outside).1 = .ok ()) :
    Wiped hard s (s.clear b hard) := by
  have hask := (leavesLine_announce (.clearing hard) s).trans
    (leavesLine_request (.clear chatId hard) (b.clear chatId hard) (s.announce (.clearing hard)))
  rw [clear_of_some b hard hid, hclear]
  exact (wiped_wipe b hard _).of_leavesLine hask

theorem leavesLine_admitImages (images : List String) (s : Session ω κ) :
    LeavesLine s (s.admitImages images).2 := by
  unfold admitImages
  split
  · exact leavesLine_announce _ s
  · exact .refl s

/-- A question that was sent is in flight over an open channel; one that was not is not
in flight. -/
theorem sendQuestion_spec (text : String) (images : List String) {s : Session ω κ}
    (hid : s.chatId.isSome) :
    ((s.sendQuestion b text images).2.exchange = none ∧
        (s.sendQuestion b text images).2.phase = .idle) ∨
      ∃ x, (s.sendQuestion b text images).2.exchange = some x ∧ x.streaming = false ∧
        (s.sendQuestion b text images).2.phase = .waiting ∧
        (s.sendQuestion b text images).2.line.isSome ∧
        (s.sendQuestion b text images).2.chatId.isSome := by
  have hadmit := leavesLine_admitImages images s
  unfold sendQuestion
  dsimp only
  -- what the steps before sending do is all that matters of them
  generalize s.admitImages images = admitted at hadmit ⊢
  have hbegun : (admitted.2.beginExchange b text admitted.1).exchange =
      some { placeholder := b.newId (admitted.2.drawn + 1) } := by
    rw [beginExchange, exchange_setPhase]
    rfl
  have hphase : (admitted.2.beginExchange b text admitted.1).phase = .waiting := by
    rw [beginExchange, phase_setPhase]
  have hchat : (admitted.2.beginExchange b text admitted.1).chatId.isSome := by
    rw [beginExchange, chatId_setPhase]
    exact hadmit.chatId hid
  generalize admitted.2.beginExchange b text admitted.1 = begun at hbegun hphase hchat ⊢
  obtain ⟨hleaves, hok, _⟩ := sendFrame_spec b (.question (begun.now b) text admitted.1) begun
  split
  · rename_i t h
    rw [h] at hleaves hok
    exact Or.inr ⟨_, hleaves.exchange.trans hbegun, rfl, hleaves.phase.trans hphase, hok () rfl,
      hleaves.chatId hchat⟩
  · rename_i e t h
    rw [h] at hleaves
    exact Or.inl (finishWithError_spec e.message (hleaves.exchange.trans hbegun))

/-- What asking comes to.  Only a text that is neither blank nor a command is put as a question,
and only once there is a chat. -/
inductive Asking (text : String) (images : List String) (s : Session ω κ) :
    Except Failure Outcome → Session ω κ → Prop
  | down (down : s.unavailable = true) : Asking text images s (.error .unavailable) s
  | stops (up : s.unavailable = false) (busy : s.phase ≠ .idle) :
    Asking text images s (.ok .stopped) (s.stop b)
  | blank (up : s.unavailable = false) (idle : s.phase = .idle) (blank : trimmed text = "") :
    Asking text images s (.ok .ignored) s
  | command {hard : Bool} (up : s.unavailable = false) (idle : s.phase = .idle)
    (command : trimmed text = if hard then "/reset" else "/clear") :
    Asking text images s (.ok .cleared) (s.clear b hard)
  | noChat {e : Failure} {t : Session ω κ} (up : s.unavailable = false) (idle : s.phase = .idle)
    (question : trimmed text ≠ "" ∧ trimmed text ≠ "/clear" ∧ trimmed text ≠ "/reset")
    (chat : s.ensureChatId b = (.error e, t)) : Asking text images s (.error .unavailable) t
  | puts {chatId : String} {t : Session ω κ} (up : s.unavailable = false) (idle : s.phase = .idle)
    (question : trimmed text ≠ "" ∧ trimmed text ≠ "/clear" ∧ trimmed text ≠ "/reset")
    (chat : s.ensureChatId b = (.ok chatId, t)) :
    Asking text images s (.ok (t.sendQuestion b (trimmed text) images).1)
      (t.sendQuestion b (trimmed text) images).2

theorem asking_ask (text : String) (images : List String) (s : Session ω κ) :
    Asking b text images s (s.ask b text images).1 (s.ask b text images).2 := by
  unfold ask
  split
  · exact .down ‹_›
  · rename_i hup
    rw [Bool.not_eq_true] at hup
    split
    · exact .stops hup ‹_›
    · rename_i hidle
      rw [ne_eq, Decidable.not_not] at hidle
      dsimp only
      rw [← trimmed]
      split
      · exact .blank hup hidle ‹_›
      · split
        · exact .command hup hidle ‹_›
        · split
          · exact .command hup hidle ‹_›
          · have hquestion : trimmed text ≠ "" ∧ trimmed text ≠ "/clear" ∧ trimmed text ≠ "/reset" :=
              ⟨‹_›, ‹_›, ‹_›⟩
            split
            · exact .noChat hup hidle hquestion ‹_›
            · exact .puts hup hidle hquestion ‹_›

theorem leavesLine_vote (id : String) (up down : Bool) (s : Session ω κ) :
    LeavesLine s (s.vote b id up down) := by
  have hask := leavesLine_request (.vote id up down) (b.vote id up down) s
  have hvoting := voting_vote b id up down s
  generalize s.vote b id up down = s' at hvoting ⊢
  cases hvoting with
  | unknown none => exact leavesLine_announce _ s
  | unchanged first has => exact .refl s
  | refused first new answer => exact hask.trans (leavesLine_announce _ _)
  | noted first new answer => exact hask.trans ⟨⟨rfl, rfl, fun hid => hid⟩, rfl⟩

/-! ## What arrives -/

theorem leavesLine_onWelcome (f : Inbound) (s : Session ω κ) :
    LeavesLine s (s.onWelcome b f) := by
  unfold onWelcome
  split
  · exact ⟨⟨rfl, rfl, id⟩, rfl⟩
  · exact .refl s

/-- Without an exchange a frame changes nothing about it. -/
theorem leavesLine_onFrame (f : Inbound) {s : Session ω κ} (h : s.exchange = none) :
    LeavesLine s (s.onFrame b f) := by
  unfold onFrame
  split
  · exact leavesLine_onWelcome b f s
  · exact ⟨⟨by simp [onStart, h], rfl, id⟩, rfl⟩
  · rw [onChunk, h]
    exact .refl s
  · rw [onStop, h]
    exact .refl s
  · rw [finishWithError_of_none _ h]
    exact .refl s

theorem onChunk_spec (chunk : String) {s : Session ω κ} {x : Exchange} (h : s.exchange = some x) :
    (s.onChunk chunk).exchange =
        some { x with chunks := x.chunks ++ chunk, streaming := true } ∧
      (s.onChunk chunk).phase = (if x.streaming then s.phase else .typing) ∧
      (s.onChunk chunk).line = s.line ∧ (s.onChunk chunk).chatId = s.chatId := by
  unfold onChunk
  rw [h]
  dsimp only
  split
  · exact ⟨rfl, rfl, rfl, rfl⟩
  · refine ⟨?_, ?_, ?_, ?_⟩
    · exact exchange_setPhase ..
    · exact phase_setPhase ..
    · exact line_setPhase ..
    · exact chatId_setPhase ..

theorem onStop_spec (f : Inbound) {s : Session ω κ} {x : Exchange} (h : s.exchange = some x) :
    (s.onStop f).exchange = none ∧ (s.onStop f).phase = .idle := by
  rw [onStop, h]
  exact ⟨exchange_complete .., phase_complete ..⟩

end Session
end Chat
end AnswerStream
