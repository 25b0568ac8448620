import AnswerStream.Proofs.Chat.Entries
import AnswerStream.Proofs.Chat.Turn

/-!
# What an operation does on screen

`Redraw` lists what can happen to the entries on screen: restored ones come ahead of them, a
vote is noted on one, a greeting or a question comes behind them, the entry of the answer in
flight changes, the entries with its id go away, or all of them are gone because the chat was
cleared.  `Op.redraw` says that an operation does nothing else.  That every state of a run is
in order (`screen_after`) is proved from it case by case.
-/

namespace AnswerStream
namespace Chat

open Text

variable {ω κ : Type}

namespace Session

/-- The service agrees to clear the chat, whose id may have to be fetched first. -/
def ClearSucceeds (b : Backend ω κ) (hard : Bool) (s : Session ω κ) : Prop :=
  ∃ chatId t, (s.announce (.clearing hard)).ensureChatId b = (.ok chatId, t) ∧
    (b.clear chatId hard t.outside).1 = .ok ()

end Session

/-- An operation clears or resets the chat, and the service agrees. -/
def Op.Clears (b : Backend ω κ) (s : Session ω κ) : Op ω → Prop
  | clear hard => s.ClearSucceeds b hard
  | ask text _ =>
    s.unavailable = false ∧ s.phase = .idle ∧
      (trimmed text = "/clear" ∧ s.ClearSucceeds b false ∨
        trimmed text = "/reset" ∧ s.ClearSucceeds b true)
  | _ => False

/-! ## The cases -/

/-- What an operation does to the entries on screen. -/
inductive Redraw (b : Backend ω κ) (op : Op ω) (s s' : Session ω κ) : Prop where
  /-- Restored entries come ahead, and nothing of an answer is shown. -/
  | loads {old : List Message} (loads : Session.Loads b s s' old)
    (exchange : ∃ chunks : String → String,
      s'.exchange = s.exchange.map fun x => { x with chunks := chunks x.chunks })
  /-- A vote is noted. -/
  | votes {id : String} {up down : Bool} {before after : List Message} {m : Message}
    (vote : op = .vote id up down) (was : s.transcript = before ++ m :: after)
    (becomes : s'.transcript = before ++ { m with upvote := up, downvote := down } :: after)
    (exchange : s'.exchange = s.exchange) (quiet : Session.Quiet s s')
  /-- A greeting is shown on an empty screen. -/
  | greets {m : Message} (was : s.transcript = []) (becomes : s'.transcript = [m])
    (settled : m.Settled) (obeys : m.Obeys s'.config) (id : m.id = b.newId s.drawn)
    (idle : s.exchange = none) (exchange : s'.exchange = none)
    (config : s'.config = s.config) (drawn : s'.drawn = s.drawn + 1)
    (did : Session.Did Effect.Quiet s s')
  /-- A question is asked. -/
  | asks {text : String} {images : List String} {outcome : Outcome} {t : Session ω κ}
    {old : List Message} {answer : Message} (ask : op = .ask text images)
    (returns : (s.ask b text images).1 = .ok outcome)
    (known : trimmed text ≠ "/clear" ∧ trimmed text ≠ "/reset")
    (idle : s.exchange = none) (loads : Session.Loads b s t old) (stays : t.exchange = none)
    (poses : Session.Poses b (trimmed text) (s.config.admits images) t s' outcome answer)
  /-- The entry of the answer in flight changes. -/
  | answers {x : Exchange} {before : List Message} {entry answer : Message}
    (inFlight : s.exchange = some x) (stands : x.Stands entry)
    (was : s.transcript = before ++ [entry]) (becomes : s'.transcript = before ++ [answer])
    (displays : Displays s'.exchange [answer])
    (obeys : s'.exchange = none → answer.Obeys s'.config)
    (same : ∀ y, s'.exchange = some y → y.placeholder = x.placeholder)
    (quiet : Session.Quiet s s')
  /-- Nothing has come of the answer in flight, and the entries with its id go away. -/
  | drops {x : Exchange} (inFlight : s.exchange = some x)
    (becomes : s'.transcript = s.transcript.filter fun m => m.id ≠ x.placeholder)
    (exchange : s'.exchange = none) (quiet : Session.Quiet s s')
  /-- The chat is cleared, and what is restored afterwards is all there is. -/
  | wipes {t : Session ω κ} {old : List Message} (clears : op.Clears b s)
    (empty : t.transcript = []) (config : t.config = s.config)
    (loads : Session.Loads b t s' old) (exchange : s'.exchange = none)
    (did : Session.Did Effect.Plain s t)

namespace Redraw

variable {b : Backend ω κ} {op : Op ω} {s t u : Session ω κ}

/-- A change beside the screen. -/
theorem of_adds (h : Session.Adds s t) (exchange : t.exchange = s.exchange) :
    Redraw b op s t := by
  refine .loads (.of_adds h) ⟨id, ?_⟩
  rw [exchange]
  cases s.exchange <;> rfl

theorem of_loads {old : List Message} (h : Session.Loads b s t old)
    (exchange : t.exchange = s.exchange) : Redraw b op s t := by
  refine .loads h ⟨id, ?_⟩
  rw [exchange]
  cases s.exchange <;> rfl

/-! ### The entry of the answer -/

/-- The answer is complete, after the exchange was given up. -/
theorem of_complete {x : Exchange} (h : s.Screen b) (hx : s.exchange = some x)
    (hst : Session.Adds s t) (hnone : t.exchange = none) (text : String)
    (closing : Option Inbound) : Redraw b op s (t.complete x.placeholder text closing) := by
  obtain ⟨before, entry, hlast, hstands, _⟩ := h.last hx
  obtain ⟨hshows, hquiet⟩ := Session.complete_last text closing
    (hst.transcript.trans hlast) hstands.id
  refine .answers hx hstands hlast hshows ?_ (fun _ => ?_) ?_ (hst.toQuiet.trans hquiet)
  · rw [Session.exchange_complete, hnone]
    simpa using Message.settled_completed t.config text closing hstands.role
  · rw [hquiet.config]
    exact Message.obeys_completed t.config text closing hstands.bare hstands.role
  · rw [Session.exchange_complete, hnone]
    rintro _ ⟨⟩

theorem of_handleClose (h : s.Screen b) (hst : Session.Adds s t)
    (hexchange : t.exchange = s.exchange) : Redraw b op s t.handleClose := by
  have hforget : Session.Adds t { t with line := none, exchange := none } :=
    ⟨⟨rfl, rfl, .of_eq rfl⟩, rfl⟩
  unfold Session.handleClose
  dsimp only
  rw [hexchange]
  cases hx : s.exchange with
  | none =>
    dsimp only
    refine of_adds (hst.trans (hforget.trans (.setPhase .idle _))) ?_
    rw [Session.exchange_setPhase, hx]
  | some x =>
    dsimp only
    split
    · have hquiet : Session.Quiet t { t with
          line := none, exchange := none
          transcript := t.transcript.filter fun m => m.id ≠ x.placeholder } :=
        ⟨rfl, rfl, .of_eq rfl⟩
      refine .drops hx ?_ (Session.exchange_setPhase ..)
        (hst.toQuiet.trans (hquiet.trans (Session.quiet_show .idle _)))
      rw [← hst.transcript]
      exact Session.transcript_setPhase ..
    · exact of_complete h hx (hst.trans hforget) rfl x.chunks none

theorem of_onStop (h : s.Screen b) (hst : Session.Adds s t) (hexchange : t.exchange = s.exchange)
    (f : Inbound) : Redraw b op s (t.onStop f) := by
  have hforget : Session.Adds t { t with exchange := none } := ⟨⟨rfl, rfl, .of_eq rfl⟩, rfl⟩
  unfold Session.onStop
  rw [hexchange]
  cases hx : s.exchange with
  | none => exact of_adds hst hexchange
  | some x => exact of_complete h hx (hst.trans hforget) rfl _ (some f)

theorem of_finishWithError (h : s.Screen b) (hst : Session.Adds s t)
    (hexchange : t.exchange = s.exchange) (text : String) :
    Redraw b op s (t.finishWithError text) := by
  cases hx : s.exchange with
  | none =>
    rw [Session.finishWithError_of_none text (hexchange.trans hx)]
    exact of_adds hst hexchange
  | some x =>
    have ht := hexchange.trans hx
    obtain ⟨before, entry, hlast, hstands, _⟩ := h.last hx
    obtain ⟨hshows, hquiet⟩ := Session.finishWithError_last text ht
      (hst.transcript.trans hlast) hstands.id
    have hnone := (Session.finishWithError_spec text ht).1
    refine .answers hx hstands hlast hshows ?_ (fun _ => ?_) ?_ (hst.toQuiet.trans hquiet)
    · rw [hnone]
      simpa using Message.settled_error hstands.role _
    · exact Message.obeys_error hstands.bare _ _
    · rw [hnone]
      rintro _ ⟨⟩

theorem of_onChunk (h : s.Screen b) (hst : Session.Adds s t)
    (hexchange : t.exchange = s.exchange) (chunk : String) :
    Redraw b op s (t.onChunk chunk) := by
  cases hx : s.exchange with
  | none =>
    rw [Session.onChunk, hexchange, hx]
    exact of_adds hst hexchange
  | some x =>
    have ht := hexchange.trans hx
    obtain ⟨before, entry, hlast, hstands, _⟩ := h.last hx
    obtain ⟨hshows, hquiet⟩ := Session.onChunk_last chunk ht
      (hst.transcript.trans hlast) hstands.id
    have hafter := (Session.onChunk_spec chunk ht).1
    refine .answers hx hstands hlast hshows ?_ ?_ ?_ (hst.toQuiet.trans hquiet)
    · rw [hafter]
      exact Displays.singleton_iff.2
        ⟨hstands.id, hstands.role, by rintro ⟨⟩, fun _ => ⟨rfl, rfl⟩, hstands.bare⟩
    · rw [hafter]
      rintro ⟨⟩
    · rw [hafter]
      rintro y hy
      cases hy
      rfl

/-! ### What arrives -/

theorem of_onStart (hst : Session.Adds s t) (hexchange : t.exchange = s.exchange) :
    Redraw b op s t.onStart := by
  have hstart : Session.Adds t t.onStart := ⟨⟨rfl, rfl, .of_eq rfl⟩, rfl⟩
  refine .loads (.of_adds (hst.trans hstart)) ⟨fun _ => "", ?_⟩
  rw [← hexchange]
  rfl

theorem of_onWelcome (h : s.Screen b) (hst : Session.Adds s t) (hexchange : t.exchange = s.exchange)
    (f : Inbound) : Redraw b op s (t.onWelcome b f) := by
  unfold Session.onWelcome
  split
  · rename_i hempty
    have ht : s.transcript = [] := by
      rw [← hst.transcript]
      simpa using hempty
    -- while an answer is in flight, its entry is on screen
    have hidle : s.exchange = none := by
      cases hx : s.exchange with
      | none => rfl
      | some x =>
        obtain ⟨before, entry, hlast, _⟩ := h.last hx
        rw [ht] at hlast
        simp at hlast
    refine .greets ht rfl ⟨by rintro ⟨⟩, ?_⟩ ?_ ?_ hidle (hexchange.trans hidle) hst.config ?_ ?_
    · simp [Message.ai, Message.shown]
    · exact ⟨fun _ => ⟨rfl, rfl⟩, fun _ => rfl, by simp [Message.ai, Message.IsAnswer],
        by simp [Message.ai, Message.IsAnswer]⟩
    · exact congrArg b.newId hst.drawn
    · exact congrArg (· + 1) hst.drawn
    · exact hst.did.trans (.record (e := .announced .transcriptChanged) (Effect.Notice.quiet trivial)
        { t with transcript := _, drawn := _ })
  · exact of_adds hst hexchange

theorem of_handleFrame (h : s.Screen b) (hst : Session.Adds s t)
    (hexchange : t.exchange = s.exchange) (text : String) :
    Redraw b op s (t.handleFrame b text) := by
  unfold Session.handleFrame
  split
  · exact of_adds hst hexchange
  · rename_i f _
    unfold Session.onFrame
    split
    · exact of_onWelcome h hst hexchange f
    · exact of_onStart hst hexchange
    · exact of_onChunk h hst hexchange f.content
    · exact of_onStop h hst hexchange f
    · exact of_finishWithError h hst hexchange f.content

theorem of_pump (h : s.Screen b) : Redraw b .pump s (s.pump b).2 := by
  unfold Session.pump
  split
  · exact of_adds (.refl s) rfl
  · rename_i line _
    have hst : Session.Adds s { s with outside := (b.receive line.handle s.outside).2 } :=
      ⟨⟨rfl, rfl, .of_eq rfl⟩, rfl⟩
    dsimp only
    split
    · rename_i e _
      cases e with
      | frame text => exact of_handleFrame h hst rfl text
      | closed code => exact of_handleClose h hst rfl
    · exact of_handleClose h hst rfl
    · exact of_adds hst rfl

/-! ### What a person does -/

theorem of_stop (h : s.Screen b) : Redraw b op s (s.stop b) :=
  of_handleClose h (Session.adds_hangUp s) (Session.hangUp_spec b s).1

theorem of_vote (id : String) (up down : Bool) (s : Session ω κ) :
    Redraw b (.vote id up down) s (s.vote b id up down) := by
  have hask : Session.Adds s (s.request (.vote id up down) (b.vote id up down)).2 :=
    .request (by simp [Effect.Unasked]) _ s
  have hvoting := Session.voting_vote b id up down s
  generalize s.vote b id up down = s' at hvoting ⊢
  cases hvoting with
  | unknown none => exact of_adds (.announce (e := .warning (.noMessage id)) trivial s) rfl
  | unchanged first has => exact of_adds (.refl s) rfl
  | @refused m e first new answer =>
    exact of_adds (hask.trans (.announce (e := .warning (.voteFailed e)) trivial _)) rfl
  | @noted m first new answer =>
    obtain ⟨before, voted, after, hbefore, hafter⟩ := updateLast?_of_mem
      (fun m => { m with upvote := up, downvote := down })
      ⟨m, List.mem_of_find?_eq_some first, List.find?_some first⟩
    refine .votes rfl hbefore ?_ rfl ?_
    · show (updateLast? _ _ s.transcript).getD _ = _
      rw [hafter]
      rfl
    · exact hask.toQuiet.trans ((Session.quiet_editMessage id _ _).trans
        (Session.Adds.announce (e := .transcriptChanged) trivial _).toQuiet)

theorem of_clear {hard : Bool} (hop : s.ClearSucceeds b hard → op.Clears b s) :
    Redraw b op s (s.clear b hard) := by
  have hannounced : Session.Adds s (s.announce (.clearing hard)) :=
    .announce (e := .clearing hard) trivial s
  obtain ⟨old, hload⟩ := Session.loads_ensureChatId b (s.announce (.clearing hard))
  have hid := (Session.ensureChatId_spec b (s.announce (.clearing hard))).1
  have hwarn : ∀ (e : Failure) (t : Session ω κ), Session.Adds t (t.warn (.clearFailed e)) :=
    fun e t => .announce (e := .warning (.clearFailed e)) trivial t
  have hask : ∀ (chatId : String) (t : Session ω κ),
      Session.Adds t (t.request (.clear chatId hard) (b.clear chatId hard)).2 :=
    fun _ t => .request (by simp [Effect.Unasked]) _ t
  have hclearing := Session.clearing_clear b hard s
  generalize s.clear b hard = s' at hclearing ⊢
  cases hclearing with
  | @noChat t e chat =>
    rw [chat] at hload hid
    exact of_loads (.adds_trans hannounced (hload.trans_adds (hwarn e t))) hid.exchange
  | @refused t chatId e chat answer =>
    rw [chat] at hload hid
    exact of_loads (.adds_trans hannounced (hload.trans_adds ((hask chatId t).trans (hwarn e _))))
      hid.exchange
  | @cleared t chatId chat answer =>
    rw [chat] at hload
    have hasked := hask chatId t
    obtain ⟨old', hrestart⟩ := Session.loads_restart (b := b) hard
      (t.request (.clear chatId hard) (b.clear chatId hard)).2.wipe
    have hdid := (hannounced.did.mono fun e he => he.1).trans
      (hload.did_plain.trans (hasked.did.mono fun e he => he.1))
    refine .wipes (hop ⟨chatId, t, chat, answer⟩) rfl ?_ hrestart
      (Session.wiped_wipe b hard _).exchange ?_
    · exact hasked.config.trans (hload.config.trans hannounced.config)
    · exact hdid.trans (.record (e := .announced .transcriptChanged) trivial
        { (t.request (.clear chatId hard) (b.clear chatId hard)).2 with
          transcript := [], exchange := none })

theorem of_connect (s : Session ω κ) : Redraw b .connect s (s.connect b).2 := by
  obtain ⟨old, hload⟩ := Session.loads_ensureLine b s
  have hleaves := (Session.ensureLine_spec b s).1
  rw [Session.snd_connect]
  split
  · exact of_adds (.refl s) rfl
  · exact of_loads hload hleaves.exchange

theorem of_syncContext (value : Json) (s : Session ω κ) :
    Redraw b (.syncContext value) s (s.syncContext b value).2 := by
  rw [Session.snd_syncContext]
  split
  · exact of_adds (.refl s) rfl
  · obtain ⟨old, hload⟩ :=
      Session.loads_sendFrame b (Outbound.not_isQuestion_context (s.now b) value) s
    exact of_loads hload (Session.sendFrame_spec b _ s).1.exchange

theorem of_ask (h : s.Screen b) (hconsistent : s.Consistent) (text : String)
    (images : List String) : Redraw b (.ask text images) s (s.ask b text images).2 := by
  obtain ⟨old, hload⟩ := Session.loads_ensureChatId b s
  have hleaves := (Session.ensureChatId_spec b s).1
  have hasking := Session.asking_ask b text images s
  generalize hasked : s.ask b text images = asked at hasking ⊢
  obtain ⟨result, s'⟩ := asked
  cases hasking with
  | down | blank => exact of_adds (.refl _) rfl
  | stops => exact of_stop h
  | @command hard up idle command =>
    refine of_clear fun hagreed => ⟨up, idle, ?_⟩
    cases hard with
    | false => exact Or.inl ⟨command, hagreed⟩
    | true => exact Or.inr ⟨command, hagreed⟩
  | noChat up idle question chat =>
    rw [chat] at hload hleaves
    exact of_loads hload hleaves.exchange
  | puts up idle question chat =>
    rw [chat] at hload hleaves
    have hidle := Turn.exchange_eq_none_of_idle hconsistent idle
    obtain ⟨answer, hposes⟩ := Session.poses_sendQuestion (b := b) (trimmed text) images
      (Session.isSome_chatId_of_ensureChatId b chat)
    rw [hload.config] at hposes
    exact .asks rfl (congrArg Prod.fst hasked) question.2 hidle hload
      (hleaves.exchange.trans hidle) hposes

end Redraw

/-- **What an operation can do on screen.** -/
theorem Op.redraw (b : Backend ω κ) {s : Session ω κ} (h : s.Screen b)
    (hconsistent : s.Consistent) (op : Op ω) : Redraw b op s (op.apply b s) := by
  cases op with
  | bootstrap =>
    obtain ⟨old, hload⟩ := Session.loads_bootstrap b s
    exact .of_loads hload (Session.leavesLine_bootstrap b s).exchange
  | connect => exact .of_connect s
  | ask text images => exact .of_ask h hconsistent text images
  | stop => exact .of_stop h
  | vote id up down => exact .of_vote id up down s
  | clear hard => exact .of_clear fun hagreed => hagreed
  | syncContext value => exact .of_syncContext value s
  | pump => exact .of_pump h
  | handleFrame text => exact .of_handleFrame h (.refl s) rfl text
  | handleEvent e =>
    cases e with
    | frame text => exact .of_handleFrame h (.refl s) rfl text
    | closed code => exact .of_handleClose h (.refl s) rfl
  | handleClose code => exact .of_handleClose h (.refl s) rfl
  | meanwhile outside => exact .of_adds ⟨⟨rfl, rfl, .of_eq rfl⟩, rfl⟩ rfl

/-! ## Runs -/

namespace Session

variable {b : Backend ω κ}

/-- A vote on an entry changes nothing about what is displayed. -/
theorem displays_voted {exchange : Option Exchange} {before after : List Message} {m : Message}
    (h : Displays exchange (before ++ m :: after)) (up down : Bool) :
    Displays exchange (before ++ { m with upvote := up, downvote := down } :: after) := by
  cases exchange with
  | none =>
    obtain ⟨hbefore, hm, hafter⟩ : (∀ m' ∈ before, m'.Settled) ∧ m.Settled ∧
        ∀ m' ∈ after, m'.Settled := by simpa [or_imp, forall_and] using h
    exact List.forall_mem_append.2 ⟨hbefore, List.forall_mem_cons.2 ⟨hm.voted up down, hafter⟩⟩
  | some x =>
    rcases List.eq_nil_or_concat after with rfl | ⟨after, last, rfl⟩
    · obtain ⟨hstands, hbefore⟩ := Displays.some_concat_iff.1 h
      exact Displays.some_concat_iff.2 ⟨⟨hstands.id, hstands.role, hstands.thinks,
        hstands.streams, hstands.bare⟩, hbefore⟩
    · rw [List.concat_eq_append, ← List.cons_append, ← List.append_assoc] at h ⊢
      obtain ⟨hstands, hsettled⟩ := Displays.some_concat_iff.1 h
      obtain ⟨hbefore, hrest⟩ := List.forall_mem_append.1 hsettled
      obtain ⟨hm, hafter⟩ := List.forall_mem_cons.1 hrest
      exact Displays.some_concat_iff.2 ⟨hstands, List.forall_mem_append.2
        ⟨hbefore, List.forall_mem_cons.2 ⟨hm.voted up down, hafter⟩⟩⟩

/-- A question keeps the screen in order. -/
theorem Screen.of_poses {s s' : Session ω κ} (h : s.Screen b) (hidle : s.exchange = none)
    {text : String} {images : List String} {outcome : Outcome} {answer : Message}
    (hposes : Poses b text images s s' outcome answer) : s'.Screen b := by
  obtain ⟨now, htranscript⟩ := hposes.transcript
  rw [List.append_cons] at htranscript
  constructor
  · intro x hx
    have hdisplays := hposes.displays
    rw [hx] at hdisplays
    have hid := (Displays.singleton_iff.1 hdisplays).id
    exact ⟨s.drawn + 1, by rw [hposes.drawn]; omega, hid.symm.trans hposes.answerId⟩
  · rw [htranscript]
    refine hposes.displays.append (List.forall_mem_append.2 ⟨h.settled hidle, ?_⟩)
    rw [List.forall_mem_singleton]
    exact Message.settled_human ..

/-- What an operation can do on screen keeps it in order. -/
theorem Screen.of_redraw {op : Op ω} {s s' : Session ω κ} (h : s.Screen b)
    (hredraw : Redraw b op s s') : s'.Screen b := by
  cases hredraw with
  | loads loads exchange => exact h.of_loads loads exchange
  | votes vote was becomes exchange quiet =>
    constructor
    · rw [exchange, quiet.drawn]
      exact h.drawn
    · have hdisplays := h.displays
      rw [was] at hdisplays
      rw [exchange, becomes]
      exact displays_voted hdisplays _ _
  | greets was becomes settled obeys id idle exchange =>
    constructor
    · rw [exchange]
      rintro x ⟨⟩
    · rw [exchange, becomes]
      simpa using settled
  | asks ask returns known idle loads stays poses =>
    exact (h.of_loads loads ⟨id, by rw [stays, idle]; rfl⟩).of_poses stays poses
  | answers inFlight stands was becomes displays obeys same quiet =>
    have hdisplays := h.displays
    rw [inFlight, was] at hdisplays
    constructor
    · intro y hy
      rw [same y hy, quiet.drawn]
      exact h.drawn _ inFlight
    · rw [becomes]
      exact displays.append (Displays.some_concat_iff.1 hdisplays).2
  | drops inFlight becomes exchange quiet =>
    obtain ⟨before, entry, hlast, hstands, hsettled⟩ := h.last inFlight
    constructor
    · rw [exchange]
      rintro y ⟨⟩
    · rw [exchange, becomes, hlast, filter_concat_id hstands.id]
      exact fun m hm => hsettled m (List.mem_filter.1 hm).1
  | wipes clears empty config loads exchange did =>
    constructor
    · rw [exchange]
      rintro x ⟨⟩
    · rw [exchange, loads.transcript, empty, List.append_nil]
      exact fun m hm => (loads.mem_old hm).1

/-- **Every state of a run has its screen in order.** -/
theorem screen_after (config : Config) (outside : ω) (past : List (Op ω)) :
    ((start config outside).after b past).Screen b := by
  induction past with
  | nil => exact ⟨by rintro x ⟨⟩, List.forall_mem_nil _⟩
  | cons op past ih => exact ih.of_redraw (op.redraw b ih (consistent_after config outside past))

/-- So an operation can do no more in any state of a run. -/
theorem redraw_after (config : Config) (outside : ω) (past : List (Op ω)) (op : Op ω) :
    Redraw b op ((start config outside).after b past)
      ((start config outside).after b (op :: past)) :=
  op.redraw b (screen_after config outside past) (consistent_after config outside past)

end Session
end Chat
end AnswerStream
