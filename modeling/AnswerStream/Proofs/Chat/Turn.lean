import AnswerStream.Proofs.Chat.Parts

/-!
# What an operation does to an exchange

`Turn` lists what can happen to an exchange: it goes on, is cut off from its channel,
starts over, receives a part of its answer, begins, ends, or is forgotten.  `Op.turn`
says that an operation does nothing else.  What holds along runs is proved from it,
without looking into the operations again.
-/

namespace AnswerStream
namespace Chat

open Text

variable {ω κ : Type}

namespace Session

/-- The phase tells what has come of the exchange in flight, which belongs to a chat. -/
structure Consistent (s : Session ω κ) : Prop where
  phase : ∀ x, s.exchange = some x → s.phase = if x.streaming then .typing else .waiting
  chatId : s.exchange.isSome → s.chatId.isSome

end Session

/-- What an operation does to an exchange and its channel. -/
inductive Turn (b : Backend ω κ) (op : Op ω) (s s' : Session ω κ) : Prop where
  /-- The exchange goes on, if there is one, and keeps its channel. -/
  | goesOn (exchange : s'.exchange = s.exchange) (phase : s'.phase = s.phase)
    (keeps : s.exchange.isSome → (s.line.isSome → s'.line.isSome) ∧
      (s.chatId.isSome → s'.chatId.isSome) ∧ ¬ op.BringsMessage b s)
  /-- The exchange goes on, and has lost its channel. -/
  | cutOff (severs : op.Severs b s) (leaves : Session.LeavesExchange s s')
    (line : s'.line = none)
  /-- The answer starts over. -/
  | startsOver {x : Exchange} (before : s.exchange = some x)
    (after : s'.exchange = some { x with chunks := "" }) (phase : s'.phase = s.phase)
    (line : s'.line = s.line) (chatId : s.chatId.isSome → s'.chatId.isSome)
    (quiet : ¬ op.BringsMessage b s)
  /-- A part of the answer arrives. -/
  | receives {x : Exchange} (chunk : String) (before : s.exchange = some x)
    (after : s'.exchange = some { x with chunks := x.chunks ++ chunk, streaming := true })
    (phase : s'.phase = .typing) (line : s'.line = s.line)
    (chatId : s.chatId.isSome → s'.chatId.isSome) (brings : op.BringsMessage b s)
  /-- An exchange begins. -/
  | begins {x : Exchange} (idle : s.phase = .idle) (after : s'.exchange = some x)
    (streaming : x.streaming = false) (phase : s'.phase = .waiting) (line : s'.line.isSome)
    (chatId : s'.chatId.isSome)
  /-- The exchange ends. -/
  | ends (after : s'.exchange = none) (phase : s'.phase = .idle)
  /-- The exchange is gone, and the phase is what it was. -/
  | forgets (hard : Bool) (clears : op = .clear hard) (forgets : op.Forgets b s)
    (wiped : Session.Wiped hard s s')

namespace Turn

variable {b : Backend ω κ} {op : Op ω} {s s' : Session ω κ}

theorem of_leavesLine (h : Session.LeavesLine s s')
    (quiet : s.exchange.isSome → ¬ op.BringsMessage b s) : Turn b op s s' :=
  .goesOn h.exchange h.phase fun hs => ⟨fun hl => by rwa [h.line], h.chatId, quiet hs⟩

variable {t : Session ω κ}

/-- A frame that an operation delivers, to a session that has only been told so. -/
theorem of_onFrame (h : s.Consistent) (hst : Session.LeavesLine s t) {text : String} {f : Inbound}
    (hdelivers : op.delivers b s = some text) (hf : Inbound.parse? text = some f) :
    Turn b op s (t.onFrame b f) := by
  have hquiet : f.kind ≠ .message → ¬ op.BringsMessage b s := by
    rintro hkind ⟨text', f', htext, hparse, hmessage⟩
    rw [hdelivers] at htext
    cases htext
    rw [hf] at hparse
    cases hparse
    exact hkind hmessage
  cases hx : s.exchange with
  | none =>
    -- nothing is waited for, whatever the kind of the frame
    have hleaves := hst.trans (Session.leavesLine_onFrame b f (hst.exchange.trans hx))
    exact .of_leavesLine hleaves (by simp [hx])
  | some x =>
    have ht : t.exchange = some x := hst.exchange.trans hx
    unfold Session.onFrame
    cases hkind : f.kind with
    | welcome =>
      exact .of_leavesLine (hst.trans (Session.leavesLine_onWelcome b f t))
        fun _ => hquiet (by simp [hkind])
    | start =>
      exact .startsOver hx (by simp [Session.onStart, ht]) hst.phase hst.line hst.chatId
        (hquiet (by simp [hkind]))
    | message =>
      obtain ⟨hexchange, hphase, hline, hchat⟩ := Session.onChunk_spec f.content ht
      refine .receives f.content hx hexchange ?_ (hline.trans hst.line)
        (fun hs => by rw [hchat]; exact hst.chatId hs) ⟨text, f, hdelivers, hf, hkind⟩
      rw [hphase, hst.phase, h.phase x hx]
      cases x.streaming <;> rfl
    | stop =>
      obtain ⟨hexchange, hphase⟩ := Session.onStop_spec f ht
      exact .ends hexchange hphase
    | error =>
      obtain ⟨hexchange, hphase⟩ := Session.finishWithError_spec f.content ht
      exact .ends hexchange hphase

/-- A text that an operation delivers. -/
theorem of_handleFrame (h : s.Consistent) (hst : Session.LeavesLine s t) {text : String}
    (hdelivers : op.delivers b s = some text) : Turn b op s (t.handleFrame b text) := by
  unfold Session.handleFrame
  split
  · rename_i hf
    refine .of_leavesLine hst fun _ => ?_
    rintro ⟨text', f, htext, hparse, _⟩
    rw [hdelivers] at htext
    cases htext
    rw [hf] at hparse
    cases hparse
  · rename_i f hf
    exact .of_onFrame h hst hdelivers hf

/-- A channel that is gone ends the exchange. -/
theorem of_handleClose (t : Session ω κ) : Turn b op s t.handleClose :=
  .ends (Session.handleClose_spec t).1 (Session.handleClose_spec t).2

/-- An operation that delivers nothing brings no message. -/
theorem not_bringsMessage (h : op.delivers b s = none) : ¬ op.BringsMessage b s := by
  rintro ⟨_, _, hsome, _⟩
  rw [h] at hsome
  cases hsome

/-- A frame about the context delivers nothing. -/
theorem not_bringsMessage_of_severs (h : op.Severs b s) : ¬ op.BringsMessage b s := by
  cases op with
  | syncContext value => exact not_bringsMessage rfl
  | _ => exact h.elim

/-- A change that leaves the exchange alone, of a session without one. -/
theorem of_none (h : s.exchange = none) (exchange : s'.exchange = none)
    (phase : s'.phase = s.phase) : Turn b op s s' :=
  .goesOn (exchange.trans h.symm) phase fun hs => by rw [h] at hs; cases hs

theorem of_connect (s : Session ω κ) : Turn b .connect s (s.connect b).2 := by
  have hquiet : ¬ (Op.connect : Op ω).BringsMessage b s := not_bringsMessage rfl
  rw [Session.snd_connect]
  split
  · exact .of_leavesLine (.refl s) fun _ => hquiet
  · obtain ⟨hleaves, _⟩ := Session.ensureLine_spec b s
    have hkept : s.line.isSome → (s.ensureLine b).2.line.isSome := by
      intro hopen
      obtain ⟨line, hline⟩ := Option.isSome_iff_exists.1 hopen
      rw [Session.ensureLine_of_some b hline]
      exact hopen
    exact .goesOn hleaves.exchange hleaves.phase fun _ => ⟨hkept, hleaves.chatId, hquiet⟩

theorem of_syncContext (value : Json) (s : Session ω κ) :
    Turn b (.syncContext value) s (s.syncContext b value).2 := by
  have hquiet : ¬ (Op.syncContext value : Op ω).BringsMessage b s := not_bringsMessage rfl
  rw [Session.snd_syncContext]
  split
  · exact .of_leavesLine (.refl s) fun _ => hquiet
  · rename_i havailable
    obtain ⟨hleaves, hok, herror⟩ :=
      Session.sendFrame_spec b (.context (s.now b) value) s
    cases hsent : (s.sendFrame b (.context (s.now b) value)).1 with
    | ok u =>
      exact .goesOn hleaves.exchange hleaves.phase
        fun _ => ⟨fun _ => hok u hsent, hleaves.chatId, hquiet⟩
    | error e =>
      -- only a channel that was there before can be lost
      cases hline : s.line with
      | none =>
        exact .goesOn hleaves.exchange hleaves.phase
          fun _ => ⟨fun h => (by rw [hline] at h; cases h), hleaves.chatId, hquiet⟩
      | some line =>
        cases hx : s.exchange with
        | none => exact .of_none hx (hleaves.exchange.trans hx) hleaves.phase
        | some x =>
          rw [Session.fst_sendFrame_of_some b _ hline] at hsent
          refine .cutOff ⟨by rw [hx]; rfl, by simpa using havailable, line, e, hline, hsent⟩
            hleaves (herror e ?_)
          rw [Session.fst_sendFrame_of_some b _ hline, hsent]

theorem of_clear (h : s.Consistent) (hard : Bool) : Turn b (.clear hard) s (s.clear b hard) := by
  rcases Session.clear_cases b hard s with hleaves | ⟨hwiped, hclear⟩
  · exact .of_leavesLine hleaves fun _ => not_bringsMessage rfl
  · cases hx : s.exchange with
    | none => exact .of_none hx hwiped.exchange hwiped.phase
    | some x =>
      have hinFlight : s.exchange.isSome := by rw [hx]; rfl
      obtain ⟨chatId, hid⟩ := Option.isSome_iff_exists.1 (h.chatId hinFlight)
      exact .forgets hard rfl ⟨hinFlight, chatId, hid, hclear chatId hid⟩ hwiped

/-- A session whose phase is idle has no exchange in flight. -/
theorem exchange_eq_none_of_idle (h : s.Consistent) (hidle : s.phase = .idle) :
    s.exchange = none := by
  cases hx : s.exchange with
  | none => rfl
  | some x =>
    have hphase := h.phase x hx
    rw [hidle] at hphase
    cases hs : x.streaming <;> rw [hs] at hphase <;> cases hphase

theorem of_ask (h : s.Consistent) (text : String) (images : List String) :
    Turn b (.ask text images) s (s.ask b text images).2 := by
  have hquiet : ¬ (Op.ask text images : Op ω).BringsMessage b s := not_bringsMessage rfl
  have hleaves := (Session.ensureChatId_spec b s).1
  have hasking := Session.asking_ask b text images s
  generalize s.ask b text images = asked at hasking ⊢
  obtain ⟨result, s'⟩ := asked
  cases hasking with
  | down | blank => exact .of_leavesLine (.refl _) fun _ => hquiet
  | stops => exact .of_handleClose _
  | @command hard up idle command =>
    -- a command may clear the chat, but there is no exchange to forget
    rcases Session.clear_cases b hard s with hleaves | ⟨hwiped, _⟩
    · exact .of_leavesLine hleaves fun _ => hquiet
    · exact .of_none (exchange_eq_none_of_idle h idle) hwiped.exchange hwiped.phase
  | noChat up idle question chat =>
    rw [chat] at hleaves
    exact .of_leavesLine hleaves fun _ => hquiet
  | puts up idle question chat =>
    have hsome := Session.isSome_chatId_of_ensureChatId b chat
    rcases Session.sendQuestion_spec b (trimmed text) images hsome with
      ⟨hexchange, hphase⟩ | ⟨x, hexchange, hfresh, hphase, hline, hchat⟩
    · exact .ends hexchange hphase
    · exact .begins idle hexchange hfresh hphase hline hchat

theorem of_pump (h : s.Consistent) : Turn b .pump s (s.pump b).2 := by
  unfold Session.pump
  split
  · rename_i hline
    exact .of_leavesLine (.refl s) fun _ => not_bringsMessage (by simp [Op.delivers, hline])
  · rename_i line hline
    have hst : ∀ outside, Session.LeavesLine s { s with outside } :=
      fun _ => ⟨⟨rfl, rfl, id⟩, rfl⟩
    dsimp only
    split
    · rename_i e hreceived
      cases e with
      | frame text =>
        exact .of_handleFrame h (hst _) (by simp [Op.delivers, hline, hreceived])
      | closed code => exact .of_handleClose _
    · exact .of_handleClose _
    · rename_i hreceived
      exact .of_leavesLine (hst _)
        fun _ => not_bringsMessage (by simp [Op.delivers, hline, hreceived])

end Turn

/-- **What an operation can do to an exchange.** -/
theorem Op.turn (b : Backend ω κ) {s : Session ω κ} (h : s.Consistent) (op : Op ω) :
    Turn b op s (op.apply b s) := by
  cases op with
  | bootstrap =>
    exact .of_leavesLine (Session.leavesLine_bootstrap b s) fun _ => Turn.not_bringsMessage rfl
  | connect => exact .of_connect s
  | ask text images => exact .of_ask h text images
  | stop => exact .of_handleClose _
  | vote id up down =>
    exact .of_leavesLine (Session.leavesLine_vote b id up down s)
      fun _ => Turn.not_bringsMessage rfl
  | clear hard => exact .of_clear h hard
  | syncContext value => exact .of_syncContext value s
  | pump => exact .of_pump h
  | handleFrame text => exact .of_handleFrame h (.refl s) rfl
  | handleEvent e =>
    cases e with
    | frame text => exact .of_handleFrame h (.refl s) rfl
    | closed code => exact .of_handleClose s
  | handleClose code => exact .of_handleClose s
  | meanwhile outside =>
    exact .of_leavesLine ⟨⟨rfl, rfl, id⟩, rfl⟩ fun _ => Turn.not_bringsMessage rfl

/-! ## Runs -/

namespace Session

variable {b : Backend ω κ}

/-- A session without an exchange is consistent. -/
theorem Consistent.of_none {s : Session ω κ} (h : s.exchange = none) : s.Consistent :=
  ⟨by simp [h], by simp [h]⟩

theorem Consistent.apply {s : Session ω κ} (h : s.Consistent) (op : Op ω) :
    (op.apply b s).Consistent := by
  cases op.turn b h with
  | goesOn exchange phase keeps =>
    refine ⟨fun x hx => ?_, fun hs => ?_⟩
    · rw [exchange] at hx
      rw [phase]
      exact h.phase x hx
    · rw [exchange] at hs
      exact (keeps hs).2.1 (h.chatId hs)
  | cutOff _ leaves _ =>
    refine ⟨fun x hx => ?_, fun hs => ?_⟩
    · rw [leaves.exchange] at hx
      rw [leaves.phase]
      exact h.phase x hx
    · rw [leaves.exchange] at hs
      exact leaves.chatId (h.chatId hs)
  | @startsOver x before after phase _ chatId _ =>
    refine ⟨fun y hy => ?_, fun _ => chatId (h.chatId (by rw [before]; rfl))⟩
    rw [after] at hy
    cases hy
    rw [phase]
    exact h.phase x before
  | receives _ before after phase _ chatId _ =>
    refine ⟨fun y hy => ?_, fun _ => chatId (h.chatId (by rw [before]; rfl))⟩
    rw [after] at hy
    cases hy
    exact phase
  | begins _ after streaming phase _ chatId =>
    refine ⟨fun y hy => ?_, fun _ => chatId⟩
    rw [after] at hy
    cases hy
    rw [streaming]
    exact phase
  | ends after _ => exact .of_none after
  | forgets _ _ _ wiped => exact .of_none wiped.exchange

/-- Every state of a run is consistent. -/
theorem consistent_after (config : Config) (outside : ω) (past : List (Op ω)) :
    ((start config outside).after b past).Consistent := by
  induction past with
  | nil => exact .of_none rfl
  | cons op past ih => exact ih.apply op

end Session

end Chat
end AnswerStream
