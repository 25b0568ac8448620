import AnswerStream.Proofs.Chat.Loading
import AnswerStream.Proofs.Chat.Turn

/-!
# What a session announces

Whoever shows a session goes by what it announces: that the phase is another, and that the
transcript is.  An operation announces every phase it moves to, and a phase only follows one
that it may follow (`Phase.Leads`).  And whatever an operation does to the transcript, it
announces a change when it is done with it: either the transcript is what it was, or what was
painted when a change was last announced is what is there afterwards (`Tells`).

What is painted is bookkeeping.  A session never reads it, and it changes only when a change
of the transcript is announced.  So it tells whether something changed after the last
announcement, which the transcript and the log of effects alone do not.

## What nobody notices

While no answer is in flight, a frame of an answer changes nothing at all, and neither does a
text that is no frame.  Such a text can be handed over at any time in between without a
difference to what comes.
-/

namespace AnswerStream
namespace Chat

variable {ω κ : Type}

/-! ## Phases that follow each other -/

namespace Phase

/-- A phase may come right after another. -/
inductive Precedes : Phase → Phase → Prop
  /-- A question is asked. -/
  | asks : Precedes idle waiting
  /-- Its answer begins. -/
  | begins : Precedes waiting typing
  /-- The exchange is over. -/
  | ends {p : Phase} (busy : p ≠ idle) : Precedes p idle

/-- Phases lead from one phase to another, each of them by way of one that may come before
it.  They are given with the latest first. -/
inductive Leads (p : Phase) : List Phase → Phase → Prop
  | nil : Leads p [] p
  | cons {ps : List Phase} {q r : Phase} (earlier : Leads p ps q) (step : q.Precedes r) :
    Leads p (r :: ps) r

theorem Leads.append {p q r : Phase} {ps qs : List Phase} (h : Leads p ps q)
    (h' : Leads q qs r) : Leads p (qs ++ ps) r := by
  induction h' with
  | nil => exact h
  | cons _ step ih => exact .cons ih step

end Phase

/-- The phase that was announced. -/
def Effect.phase? : Effect → Option Phase
  | announced (.phaseChanged p) => some p
  | _ => none

namespace Session

/-! ## What a change says of itself -/

/-- A change that announces the phases by which it gets to the one it ends in. -/
def Moves (s s' : Session ω κ) : Prop :=
  ∃ new, s'.effects = new ++ s.effects ∧ s.phase.Leads (new.filterMap Effect.phase?) s'.phase

/-- A change that announces its phases and what it does to the transcript: it leaves that and
what is painted, or it announces a change and leaves what is painted as the transcript is. -/
def Tells (s s' : Session ω κ) : Prop :=
  ∃ new, s'.effects = new ++ s.effects ∧ s.phase.Leads (new.filterMap Effect.phase?) s'.phase ∧
    (s'.transcript = s.transcript ∧ s'.painted = s.painted ∨
      .announced .transcriptChanged ∈ new ∧ s'.painted = s'.transcript)

variable {s t u : Session ω κ}

namespace Moves

theorem of_eq (heffects : t.effects = s.effects) (hphase : t.phase = s.phase) : Moves s t := by
  refine ⟨[], heffects, ?_⟩
  rw [hphase]
  exact .nil

theorem trans (h : Moves s t) (h' : Moves t u) : Moves s u := by
  obtain ⟨new, heq, hleads⟩ := h
  obtain ⟨new', heq', hleads'⟩ := h'
  refine ⟨new' ++ new, by rw [heq', heq, List.append_assoc], ?_⟩
  rw [List.filterMap_append]
  exact hleads.append hleads'

theorem record {e : Effect} (h : e.phase? = none) (s : Session ω κ) : Moves s (s.record e) := by
  refine ⟨[e], rfl, ?_⟩
  rw [List.filterMap_cons_none h]
  exact .nil

theorem setPhase {p : Phase} (h : s.phase.Precedes p) : Moves s (s.setPhase p) := by
  unfold Session.setPhase
  split
  · exact .of_eq rfl rfl
  · exact ⟨[.announced (.phaseChanged p)], rfl, .cons .nil h⟩

end Moves

namespace Tells

theorem of_moves (h : Moves s t) (htranscript : t.transcript = s.transcript)
    (hpainted : t.painted = s.painted) : Tells s t := by
  obtain ⟨new, heq, hleads⟩ := h
  exact ⟨new, heq, hleads, Or.inl ⟨htranscript, hpainted⟩⟩

theorem refl (s : Session ω κ) : Tells s s := of_moves (.of_eq rfl rfl) rfl rfl

theorem trans (h : Tells s t) (h' : Tells t u) : Tells s u := by
  obtain ⟨new, heq, hleads, hpaints⟩ := h
  obtain ⟨new', heq', hleads', hpaints'⟩ := h'
  refine ⟨new' ++ new, by rw [heq', heq, List.append_assoc], ?_, ?_⟩
  · rw [List.filterMap_append]
    exact hleads.append hleads'
  · rcases hpaints' with ⟨htranscript, hpainted⟩ | ⟨htold, hpainted⟩
    · -- what was painted before is still what is there
      rw [htranscript, hpainted]
      exact hpaints.imp_right fun ⟨htold, hpainted⟩ =>
        ⟨List.mem_append_right _ htold, hpainted⟩
    · exact Or.inr ⟨List.mem_append_left _ htold, hpainted⟩

/-- Whatever was done to the transcript, announcing a change makes up for it. -/
theorem of_announced (h : Moves s t) : Tells s (t.announce .transcriptChanged) := by
  obtain ⟨new, heq, hleads⟩ := h
  exact ⟨.announced .transcriptChanged :: new, congrArg (_ :: ·) heq, hleads,
    Or.inr ⟨List.mem_cons_self, rfl⟩⟩

theorem request {α : Type} (r : Request) (ask : ω → Except Failure α × ω) (s : Session ω κ) :
    Tells s (s.request r ask).2 :=
  of_moves (.record rfl { s with outside := (ask s.outside).2 }) rfl rfl

theorem warn (w : Warning) (s : Session ω κ) : Tells s (s.warn w) :=
  of_moves (.record rfl s) rfl rfl

theorem setPhase {p : Phase} (h : s.phase.Precedes p) : Tells s (s.setPhase p) := by
  refine of_moves (.setPhase h) (transcript_setPhase p s) ?_
  unfold Session.setPhase
  split <;> rfl

/-- A session may become idle at any time. -/
theorem setPhase_idle (s : Session ω κ) : Tells s (s.setPhase .idle) := by
  by_cases h : s.phase = .idle
  · rw [Session.setPhase, if_pos h]
    exact .refl s
  · exact .setPhase (.ends h)

/-- An exchange that is over is announced with what is left of it. -/
theorem of_over (h : Moves s t) :
    Tells s ((t.announce .transcriptChanged).setPhase .idle) :=
  (of_announced h).trans (setPhase_idle _)

end Tells

/-! ## What is announced before acting -/

variable (b : Backend ω κ)

theorem tells_loadHistory (chatId : String) (s : Session ω κ) :
    Tells s (s.loadHistory b chatId) := by
  have hask := Tells.request (.history chatId) (b.history chatId) s
  unfold loadHistory
  split
  · rename_i entries t h
    rw [h] at hask
    refine hask.trans ?_
    unfold restore
    dsimp only
    split
    · exact .refl t
    · refine Tells.of_announced ?_
      exact .of_eq rfl rfl
  · rename_i e t h
    rw [h] at hask
    exact hask.trans (.warn (.noHistory e) t)

theorem tells_bootstrap (s : Session ω κ) : Tells s (s.bootstrap b).2 := by
  have hask := Tells.request .chatId b.chatId s
  unfold bootstrap
  split
  · exact .refl s
  · split
    · rename_i chatId t h
      rw [h] at hask
      have hid : Tells t { t with chatId := some chatId } := .of_moves (.of_eq rfl rfl) rfl rfl
      exact hask.trans (hid.trans (tells_loadHistory b chatId _))
    · rename_i e t h
      rw [h] at hask
      exact hask.trans (.of_moves (.record rfl { t with unavailable := true }) rfl rfl)

theorem tells_ensureChatId (s : Session ω κ) : Tells s (s.ensureChatId b).2 := by
  have hboot := tells_bootstrap b s
  unfold ensureChatId
  split
  · exact .refl s
  · split
    · rename_i h
      rw [h] at hboot
      exact hboot
    · rename_i h
      rw [h] at hboot
      split <;> exact hboot

theorem tells_openLine (url : String) (s : Session ω κ) : Tells s (s.openLine b url).2 := by
  unfold openLine
  dsimp only
  split
  · exact .of_moves (.record rfl { s with outside := _ }) rfl rfl
  · exact .of_moves (.record rfl { s with outside := _, line := _ }) rfl rfl

theorem tells_ensureLine (s : Session ω κ) : Tells s (s.ensureLine b).2 := by
  have hid := tells_ensureChatId b s
  unfold ensureLine
  split
  · exact .refl s
  · split
    · rename_i h
      rw [h] at hid
      exact hid
    · rename_i h
      rw [h] at hid
      exact hid.trans (tells_openLine b _ _)

theorem tells_sendFrame (f : Outbound) (s : Session ω κ) : Tells s (s.sendFrame b f).2 := by
  have hline := tells_ensureLine b s
  unfold sendFrame
  split
  · rename_i h
    rw [h] at hline
    exact hline
  · rename_i line t h
    rw [h] at hline
    dsimp only
    split
    · exact hline.trans (.of_moves (.record rfl { t with outside := _, line := none }) rfl rfl)
    · exact hline.trans (.of_moves (.record rfl { t with outside := _ }) rfl rfl)

/-! ## What is announced when an exchange ends -/

theorem tells_complete (id : String) (text : String) (closing : Option Inbound)
    (hst : Moves s t) : Tells s (t.complete id text closing) := by
  refine Tells.of_over (hst.trans ?_)
  exact .of_eq rfl rfl

theorem tells_finishWithError (text : String) (s : Session ω κ) :
    Tells s (s.finishWithError text) := by
  unfold finishWithError
  split
  · exact .refl s
  · refine Tells.of_over ?_
    exact .of_eq rfl rfl

theorem tells_handleClose (s : Session ω κ) : Tells s s.handleClose := by
  unfold handleClose
  dsimp only
  split
  · have hlost : Tells s { s with line := none } := .of_moves (.of_eq rfl rfl) rfl rfl
    exact hlost.trans (.setPhase_idle _)
  · split
    · refine Tells.of_over ?_
      exact .of_eq rfl rfl
    · refine tells_complete _ _ _ ?_
      exact .of_eq rfl rfl

theorem tells_hangUp (s : Session ω κ) : Tells s (s.hangUp b) := by
  unfold hangUp
  split
  · exact .refl s
  · exact .of_moves (.record rfl { s with outside := _, line := none }) rfl rfl

theorem tells_stop (s : Session ω κ) : Tells s (s.stop b) :=
  (tells_hangUp b s).trans (tells_handleClose _)

/-! ## What is announced of what a person does -/

theorem tells_wipe (s : Session ω κ) : Tells s s.wipe := by
  refine Tells.of_announced ?_
  exact .of_eq rfl rfl

theorem tells_restart (s : Session ω κ) : Tells s (s.restart b) := by
  have hforget : Tells (s.hangUp b) { s.hangUp b with chatId := none } :=
    .of_moves (.of_eq rfl rfl) rfl rfl
  exact (tells_hangUp b s).trans (hforget.trans (tells_bootstrap b _))

theorem tells_clear (hard : Bool) (s : Session ω κ) : Tells s (s.clear b hard) := by
  have hannounced : Tells s (s.announce (.clearing hard)) := .of_moves (.record rfl s) rfl rfl
  have hid := hannounced.trans (tells_ensureChatId b (s.announce (.clearing hard)))
  have hclearing := clearing_clear b hard s
  generalize s.clear b hard = s' at hclearing ⊢
  cases hclearing with
  | noChat chat =>
    rw [chat] at hid
    exact hid.trans (.warn _ _)
  | refused chat answer =>
    rw [chat] at hid
    exact hid.trans ((Tells.request _ _ _).trans (.warn _ _))
  | @cleared t chatId chat answer =>
    rw [chat] at hid
    have hasked := hid.trans (Tells.request (.clear chatId hard) (b.clear chatId hard) t)
    split
    · exact hasked.trans ((tells_wipe _).trans (tells_restart b _))
    · exact hasked.trans (tells_wipe _)

theorem tells_admitImages (images : List String) (s : Session ω κ) :
    Tells s (s.admitImages images).2 := by
  unfold admitImages
  split
  · exact .warn _ s
  · exact .refl s

theorem tells_beginExchange (text : String) (images : List String) (hidle : s.phase = .idle) :
    Tells s (s.beginExchange b text images) := by
  have hstep : s.phase.Precedes .waiting := by
    rw [hidle]
    exact .asks
  refine (Tells.of_announced ?_).trans (.setPhase hstep)
  exact .of_eq rfl rfl

theorem tells_sendQuestion (text : String) (images : List String) (hidle : s.phase = .idle) :
    Tells s (s.sendQuestion b text images).2 := by
  have hadmitted := (leavesLine_admitImages images s).phase.trans hidle
  have hbegun := (tells_admitImages images s).trans
    (tells_beginExchange b text (s.admitImages images).1 hadmitted)
  unfold sendQuestion
  dsimp only
  have hsent := hbegun.trans (tells_sendFrame b (.question
    (((s.admitImages images).2.beginExchange b text (s.admitImages images).1).now b) text
    (s.admitImages images).1) _)
  split
  · rename_i t h
    rw [h] at hsent
    exact hsent.trans (.of_moves (.record rfl t) rfl rfl)
  · rename_i e t h
    rw [h] at hsent
    exact hsent.trans (tells_finishWithError e.message t)

theorem tells_ask (text : String) (images : List String) (s : Session ω κ) :
    Tells s (s.ask b text images).2 := by
  have hid := tells_ensureChatId b s
  have hleaves := (ensureChatId_spec b s).1
  have hasking := asking_ask b text images s
  generalize s.ask b text images = asked at hasking ⊢
  obtain ⟨result, s'⟩ := asked
  cases hasking with
  | down | blank => exact .refl _
  | stops => exact tells_stop b s
  | @command hard => exact tells_clear b hard s
  | noChat up idle question chat =>
    rw [chat] at hid
    exact hid
  | puts up idle question chat =>
    rw [chat] at hid hleaves
    exact hid.trans (tells_sendQuestion b _ images (hleaves.phase.trans idle))

theorem tells_vote (id : String) (up down : Bool) (s : Session ω κ) :
    Tells s (s.vote b id up down) := by
  have hask := Tells.request (.vote id up down) (b.vote id up down) s
  have hvoting := voting_vote b id up down s
  generalize s.vote b id up down = s' at hvoting ⊢
  cases hvoting with
  | unknown none => exact .warn (.noMessage id) s
  | unchanged first has => exact .refl s
  | refused first new answer => exact hask.trans (.warn _ _)
  | noted first new answer =>
    refine hask.trans (Tells.of_announced ?_)
    exact .of_eq rfl rfl

/-! ## What is announced of what arrives -/

theorem tells_onWelcome (f : Inbound) (s : Session ω κ) : Tells s (s.onWelcome b f) := by
  unfold onWelcome
  split
  · refine Tells.of_announced ?_
    exact .of_eq rfl rfl
  · exact .refl s

/-- The first part of an answer comes while it is waited for. -/
theorem tells_onChunk (chunk : String) (h : s.Consistent) : Tells s (s.onChunk chunk) := by
  unfold onChunk
  split
  · exact .refl s
  · rename_i x hx
    dsimp only
    refine Tells.of_announced ?_
    split
    · exact .of_eq rfl rfl
    · rename_i hfirst
      have hwaiting : s.phase = .waiting := by
        rw [h.phase x hx, if_neg hfirst]
      have hstep : s.phase.Precedes .typing := by
        rw [hwaiting]
        exact .begins
      exact Moves.trans (.of_eq rfl rfl) (.setPhase hstep)

theorem tells_onStop (f : Inbound) (s : Session ω κ) : Tells s (s.onStop f) := by
  unfold onStop
  split
  · exact .refl s
  · refine tells_complete _ _ _ ?_
    exact .of_eq rfl rfl

theorem tells_handleFrame (text : String) (h : s.Consistent) :
    Tells s (s.handleFrame b text) := by
  unfold handleFrame
  split
  · exact .refl s
  · rename_i f _
    unfold onFrame
    split
    · exact tells_onWelcome b f s
    · exact .of_moves (.of_eq rfl rfl) rfl rfl
    · exact tells_onChunk f.content h
    · exact tells_onStop f s
    · exact tells_finishWithError f.content s

theorem tells_handleEvent (e : ChannelEvent) (h : s.Consistent) :
    Tells s (s.handleEvent b e) := by
  cases e with
  | frame text => exact tells_handleFrame b text h
  | closed code => exact tells_handleClose s

theorem tells_pump (h : s.Consistent) : Tells s (s.pump b).2 := by
  have hmoved : ∀ outside, Tells s { s with outside } :=
    fun _ => .of_moves (.of_eq rfl rfl) rfl rfl
  unfold pump
  split
  · exact .refl s
  · dsimp only
    split
    · exact (hmoved _).trans (tells_handleEvent b _ ⟨h.phase, h.chatId⟩)
    · exact (hmoved _).trans (tells_handleClose _)
    · exact hmoved _

/-- **An operation announces what it does.** -/
theorem tells_apply (h : s.Consistent) (op : Op ω) : Tells s (op.apply b s) := by
  cases op with
  | bootstrap => exact tells_bootstrap b s
  | connect =>
    rw [Op.apply, snd_connect]
    split
    · exact .refl s
    · exact tells_ensureLine b s
  | ask text images => exact tells_ask b text images s
  | stop => exact tells_stop b s
  | vote id up down => exact tells_vote b id up down s
  | clear hard => exact tells_clear b hard s
  | syncContext value =>
    rw [Op.apply, snd_syncContext]
    split
    · exact .refl s
    · exact tells_sendFrame b _ s
  | pump => exact tells_pump b h
  | handleFrame text => exact tells_handleFrame b text h
  | handleEvent e => exact tells_handleEvent b e h
  | handleClose code => exact tells_handleClose s
  | meanwhile outside => exact .of_moves (.of_eq rfl rfl) rfl rfl

/-- So does any stretch of a run. -/
theorem tells_after (h : s.Consistent) (later : List (Op ω)) : Tells s (s.after b later) := by
  have hstep : (s.after b later).Consistent ∧ Tells s (s.after b later) := by
    induction later with
    | nil => exact ⟨h, .refl s⟩
    | cons op later ih => exact ⟨ih.1.apply op, ih.2.trans (tells_apply b ih.1 op)⟩
  exact hstep.2

/-- What is painted stays what is there. -/
theorem Tells.painted (h : Tells s t) (hs : s.painted = s.transcript) :
    t.painted = t.transcript := by
  obtain ⟨_, _, _, ⟨htranscript, hpainted⟩ | ⟨_, hpainted⟩⟩ := h
  · rw [hpainted, htranscript, hs]
  · exact hpainted

/-- A transcript that is another was announced. -/
theorem Tells.mem_since (h : Tells s t) (hother : t.transcript ≠ s.transcript) :
    .announced .transcriptChanged ∈ s.since t := by
  obtain ⟨new, heq, _, ⟨htranscript, _⟩ | ⟨htold, _⟩⟩ := h
  · exact absurd htranscript hother
  · rwa [since_eq heq]

end Session

/-! ## What nobody notices -/

/-- A text that concerns nothing but an answer in flight: a frame other than a greeting, or no
frame at all. -/
def Inbound.OfAnswer (text : String) : Prop := ∀ f, parse? text = some f → f.kind ≠ .welcome

namespace Session

variable {b : Backend ω κ} {s : Session ω κ}

/-- Without an answer in flight, a text of one does nothing. -/
theorem handleFrame_of_none (h : s.exchange = none) {text : String}
    (htext : Inbound.OfAnswer text) : s.handleFrame b text = s := by
  unfold handleFrame
  split
  · rfl
  · rename_i f hf
    unfold onFrame
    split
    · rename_i hkind
      exact absurd hkind (htext f hf)
    · have hnone : s.exchange.map (fun x => { x with chunks := "" }) = s.exchange := by rw [h]; rfl
      rw [onStart, hnone]
    · rw [onChunk, h]
    · rw [onStop, h]
    · exact finishWithError_of_none _ h

/-- Whatever hands it over, only the backend can tell. -/
theorem apply_of_delivers (h : s.exchange = none) {op : Op ω} {text : String}
    (hop : op.delivers b s = some text) (htext : Inbound.OfAnswer text) :
    op.apply b s = { s with outside := (op.apply b s).outside } := by
  obtain ⟨outside, heq⟩ := Op.exists_apply_of_delivers hop
  rw [heq, handleFrame_of_none (s := { s with outside }) h htext]

/-! ## Runs -/

/-- After some operations, whoever goes by what is announced has missed nothing. -/
structure Announces (b : Backend ω κ) (s : Session ω κ) (past : List (Op ω)) : Prop where
  /-- What was painted when a change was last announced is what is there. -/
  painted : (s.after b past).painted = (s.after b past).transcript
  /-- If operations change the transcript, one of them announces it. -/
  told : ∀ later, (s.after b (later ++ past)).transcript ≠ (s.after b past).transcript →
    .announced .transcriptChanged ∈ (s.after b past).since (s.after b (later ++ past))
  /-- Pumping until the session is idle is nothing but operations. -/
  pumped : ∀ limit, ∃ n,
    ((s.after b past).runUntilIdle b limit).2 = s.after b (List.replicate n .pump ++ past)
  /-- Without an answer in flight, a text of one leaves all of the session, whatever hands it
  over. -/
  ignored : (s.after b past).exchange = none → ∀ op text,
    op.delivers b (s.after b past) = some text → Inbound.OfAnswer text →
      s.after b (op :: past) =
        { s.after b past with outside := (s.after b (op :: past)).outside }
  /-- It makes no difference to what comes. -/
  inserted : (s.after b past).exchange = none → ∀ text, Inbound.OfAnswer text → ∀ later,
    s.after b (later ++ .handleFrame text :: past) = s.after b (later ++ past)

/-- **Every visible change is announced**, in every run. -/
theorem announces_after (config : Config) (outside : ω) (past : List (Op ω)) :
    Announces b (start config outside) past := by
  have hconsistent := consistent_after (b := b) config outside past
  refine ⟨(tells_after b (.of_none rfl) past).painted rfl, fun later hother => ?_,
    fun limit => ?_, fun hnone op text hop htext => apply_of_delivers hnone hop htext,
    fun hnone text htext later => ?_⟩
  · rw [after_append] at hother ⊢
    exact (tells_after b hconsistent later).mem_since hother
  · obtain ⟨n, hn⟩ := exists_after_runUntilIdle b limit ((start config outside).after b past)
    exact ⟨n, by rw [hn, after_append]⟩
  · rw [after_append, after_append, after_cons, Op.apply, handleFrame_of_none hnone htext]

end Session
end Chat
end AnswerStream
