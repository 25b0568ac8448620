import AnswerStream.Chat.Memory
import AnswerStream.Proofs.Chat.Parts

/-!
# The channel and the chat

A channel is opened to an address that is derived from the id of a chat, and from then on the
two are kept apart: the session holds the channel, and it holds the id.  What is asked,
cleared and restored concerns one chat as long as the channel that is open is the one of the
chat that is current (`Belongs`).

## Where they part

Most of an operation `LeavesChat`: it keeps the id, and it keeps the channel or loses it.  A
channel that is opened is opened to the current chat, and a reset closes the channel before
it gets another chat.  Fetching a chat id closes nothing.  So the channel stays with the
chat that it was opened to if the id is fetched again while it is open, and the service
answers with another one.  Nothing else drives the two apart (`forall_belongs_iff`).
-/

namespace AnswerStream
namespace Chat

variable {ω κ : Type}

/-- An operation gets another chat for a session while a channel is open. -/
def Op.Displaces (b : Backend ω κ) (s : Session ω κ) : Op ω → Prop
  | bootstrap => s.unavailable = false ∧ s.line.isSome ∧
    ∃ chatId, (b.chatId s.outside).1 = .ok chatId ∧ s.chatId ≠ some chatId
  | _ => False

/-- The address of a channel tells the chat. -/
theorem Config.socketUrl_injective (config : Config) : Function.Injective config.socketUrl := by
  intro chatId chatId' h
  have hpath := (String.append_right_inj config.socketRoot).1 h
  simpa [Config.chatPath, String.append_assoc] using hpath

namespace Session

/-- A channel that is open was opened to the address of the current chat. -/
def Belongs (s : Session ω κ) : Prop :=
  ∀ line, s.line = some line → ∃ chatId, s.chatId = some chatId ∧
    line.url = s.config.socketUrl chatId

/-! ## What keeps the chat -/

/-- A change that leaves the options, the chat and whether the session has failed, and opens
no channel. -/
structure LeavesChat (s s' : Session ω κ) : Prop where
  config : s'.config = s.config
  chatId : s'.chatId = s.chatId
  unavailable : s'.unavailable = s.unavailable
  line : s'.line = s.line ∨ s'.line = none

namespace LeavesChat

variable {s t u : Session ω κ}

theorem refl (s : Session ω κ) : LeavesChat s s := ⟨rfl, rfl, rfl, Or.inl rfl⟩

theorem trans (h : LeavesChat s t) (h' : LeavesChat t u) : LeavesChat s u := by
  refine ⟨h'.config.trans h.config, h'.chatId.trans h.chatId,
    h'.unavailable.trans h.unavailable, ?_⟩
  rcases h'.line with hline | hline
  · rw [hline]
    exact h.line
  · exact Or.inr hline

end LeavesChat

theorem leavesChat_announce (e : Event) (s : Session ω κ) : LeavesChat s (s.announce e) :=
  ⟨rfl, rfl, rfl, Or.inl rfl⟩

theorem leavesChat_request {α : Type} (r : Request) (ask : ω → Except Failure α × ω)
    (s : Session ω κ) : LeavesChat s (s.request r ask).2 :=
  ⟨rfl, rfl, rfl, Or.inl rfl⟩

theorem leavesChat_setPhase (p : Phase) (s : Session ω κ) : LeavesChat s (s.setPhase p) := by
  unfold setPhase
  split
  · exact .refl s
  · exact ⟨rfl, rfl, rfl, Or.inl rfl⟩

/-- What ends an exchange, or goes on with it, says so and moves to a phase. -/
theorem LeavesChat.show {s t : Session ω κ} (h : LeavesChat s t) (p : Phase) :
    LeavesChat s ((t.announce .transcriptChanged).setPhase p) :=
  h.trans ((leavesChat_announce _ t).trans (leavesChat_setPhase p _))

theorem LeavesChat.complete (id : String) (text : String) (closing : Option Inbound)
    {s t : Session ω κ} (h : LeavesChat s t) : LeavesChat s (t.complete id text closing) := by
  have hedit : LeavesChat t (t.editMessage id (completed t.config text closing)) :=
    ⟨rfl, rfl, rfl, Or.inl rfl⟩
  exact (h.trans hedit).show .idle

theorem leavesChat_finishWithError (text : String) (s : Session ω κ) :
    LeavesChat s (s.finishWithError text) := by
  unfold finishWithError
  split
  · exact .refl s
  · refine LeavesChat.show ?_ .idle
    exact ⟨rfl, rfl, rfl, Or.inl rfl⟩

theorem leavesChat_handleClose (s : Session ω κ) : LeavesChat s s.handleClose := by
  have hlost : ∀ exchange transcript,
      LeavesChat s { s with line := none, exchange, transcript } :=
    fun _ _ => ⟨rfl, rfl, rfl, Or.inr rfl⟩
  unfold handleClose
  dsimp only
  split
  · exact (hlost s.exchange s.transcript).trans (leavesChat_setPhase .idle _)
  · split
    · exact (hlost none _).show .idle
    · exact (hlost none s.transcript).complete _ _ _

variable (b : Backend ω κ)

theorem leavesChat_hangUp (s : Session ω κ) : LeavesChat s (s.hangUp b) := by
  unfold hangUp
  split
  · exact .refl s
  · exact ⟨rfl, rfl, rfl, Or.inr rfl⟩

theorem leavesChat_onWelcome (f : Inbound) (s : Session ω κ) :
    LeavesChat s (s.onWelcome b f) := by
  unfold onWelcome
  split
  · exact ⟨rfl, rfl, rfl, Or.inl rfl⟩
  · exact .refl s

theorem leavesChat_onChunk (chunk : String) (s : Session ω κ) :
    LeavesChat s (s.onChunk chunk) := by
  unfold onChunk
  split
  · exact .refl s
  · dsimp only
    split
    · exact ⟨rfl, rfl, rfl, Or.inl rfl⟩
    · rename_i x _ _
      have hshown : ∀ exchange transcript, LeavesChat s { s with exchange, transcript } :=
        fun _ _ => ⟨rfl, rfl, rfl, Or.inl rfl⟩
      exact (hshown (some { x with chunks := x.chunks ++ chunk, streaming := true }) _).trans
        ((leavesChat_setPhase .typing _).trans (leavesChat_announce _ _))

theorem leavesChat_onStop (f : Inbound) (s : Session ω κ) : LeavesChat s (s.onStop f) := by
  unfold onStop
  split
  · exact .refl s
  · have hforget : LeavesChat s { s with exchange := none } := ⟨rfl, rfl, rfl, Or.inl rfl⟩
    exact hforget.complete _ _ _

theorem leavesChat_handleFrame (text : String) (s : Session ω κ) :
    LeavesChat s (s.handleFrame b text) := by
  unfold handleFrame
  split
  · exact .refl s
  · rename_i f _
    unfold onFrame
    split
    · exact leavesChat_onWelcome b f s
    · exact ⟨rfl, rfl, rfl, Or.inl rfl⟩
    · exact leavesChat_onChunk f.content s
    · exact leavesChat_onStop f s
    · exact leavesChat_finishWithError f.content s

theorem leavesChat_handleEvent (e : ChannelEvent) (s : Session ω κ) :
    LeavesChat s (s.handleEvent b e) := by
  cases e with
  | frame text => exact leavesChat_handleFrame b text s
  | closed code => exact leavesChat_handleClose s

theorem leavesChat_pump (s : Session ω κ) : LeavesChat s (s.pump b).2 := by
  have hmoved : ∀ outside, LeavesChat s { s with outside } :=
    fun _ => ⟨rfl, rfl, rfl, Or.inl rfl⟩
  unfold pump
  split
  · exact .refl s
  · dsimp only
    split
    · exact (hmoved _).trans (leavesChat_handleEvent b _ _)
    · exact (hmoved _).trans (leavesChat_handleClose _)
    · exact hmoved _

theorem leavesChat_vote (id : String) (up down : Bool) (s : Session ω κ) :
    LeavesChat s (s.vote b id up down) := by
  have hask := leavesChat_request (.vote id up down) (b.vote id up down) s
  have hvoting := voting_vote b id up down s
  generalize s.vote b id up down = s' at hvoting ⊢
  cases hvoting with
  | unknown none => exact leavesChat_announce _ s
  | unchanged first has => exact .refl s
  | refused first new answer => exact hask.trans (leavesChat_announce _ _)
  | noted first new answer => exact hask.trans ⟨rfl, rfl, rfl, Or.inl rfl⟩

theorem leavesChat_stop (s : Session ω κ) : LeavesChat s (s.stop b) :=
  (leavesChat_hangUp b s).trans (leavesChat_handleClose _)

theorem leavesChat_admitImages (images : List String) (s : Session ω κ) :
    LeavesChat s (s.admitImages images).2 := by
  unfold admitImages
  split
  · exact leavesChat_announce _ s
  · exact .refl s

theorem leavesChat_beginExchange (text : String) (images : List String) (s : Session ω κ) :
    LeavesChat s (s.beginExchange b text images) := by
  refine LeavesChat.show ?_ .waiting
  exact ⟨rfl, rfl, rfl, Or.inl rfl⟩

theorem leavesChat_loadHistory (chatId : String) (s : Session ω κ) :
    LeavesChat s (s.loadHistory b chatId) := by
  have hask := leavesChat_request (.history chatId) (b.history chatId) s
  unfold loadHistory
  split
  · rename_i entries t h
    rw [h] at hask
    refine hask.trans ?_
    unfold restore
    dsimp only
    split
    · exact .refl t
    · exact ⟨rfl, rfl, rfl, Or.inl rfl⟩
  · rename_i e t h
    rw [h] at hask
    exact hask.trans (leavesChat_announce _ t)

/-! ## What gets a chat and a channel -/

/-- The options stay, and the chat becomes the one that the service answers with. -/
theorem bootstrap_spec (s : Session ω κ) :
    (s.bootstrap b).2.config = s.config ∧ (s.bootstrap b).2.line = s.line ∧
      (s.bootstrap b).2.chatId =
        if s.unavailable then s.chatId
        else
          match (b.chatId s.outside).1 with
          | .ok chatId => some chatId
          | .error _ => s.chatId := by
  refine ⟨?_, (leavesLine_bootstrap b s).line, ?_⟩
  · unfold bootstrap
    split
    · rfl
    · split
      · rename_i h
        obtain ⟨-, rfl⟩ := Prod.mk.inj h
        exact (leavesChat_loadHistory b _ _).config
      · rename_i h
        obtain ⟨-, rfl⟩ := Prod.mk.inj h
        rfl
  · unfold bootstrap
    split
    · rfl
    · split
      · rename_i chatId t h
        obtain ⟨hanswer, rfl⟩ := Prod.mk.inj h
        rw [hanswer]
        exact (leavesChat_loadHistory b chatId _).chatId
      · rename_i e t h
        obtain ⟨hanswer, rfl⟩ := Prod.mk.inj h
        rw [hanswer]
        rfl

variable {s t : Session ω κ}

theorem Belongs.of_none (h : s.line = none) : s.Belongs := by
  intro line hline
  rw [h] at hline
  cases hline

/-- The channel belongs to the chat as long as both are what they were. -/
theorem Belongs.congr (h : s.Belongs) (hconfig : t.config = s.config)
    (hchat : t.chatId = s.chatId) (hline : t.line = s.line) : t.Belongs := by
  intro line hopen
  rw [hline] at hopen
  rw [hconfig, hchat]
  exact h line hopen

theorem Belongs.of_leavesChat (h : s.Belongs) (hst : LeavesChat s t) : t.Belongs := by
  rcases hst.line with hline | hline
  · exact h.congr hst.config hst.chatId hline
  · exact .of_none hline

/-- A channel that is open has a chat, so that no other one is fetched. -/
theorem Belongs.ensureChatId (h : s.Belongs) : (s.ensureChatId b).2.Belongs := by
  cases hid : s.chatId with
  | some chatId =>
    rw [ensureChatId_of_some b hid]
    exact h
  | none =>
    have hnone : s.line = none := by
      cases hline : s.line with
      | none => rfl
      | some line =>
        obtain ⟨chatId, hchat, _⟩ := h line hline
        rw [hid] at hchat
        cases hchat
    exact .of_none ((ensureChatId_spec b s).1.line.trans hnone)

/-- A channel that is opened for the current chat belongs to it. -/
theorem Belongs.openLine (h : s.Belongs) {chatId : String} (hid : s.chatId = some chatId) :
    (s.openLine b (s.config.socketUrl chatId)).2.Belongs := by
  unfold Session.openLine
  dsimp only
  split
  · exact h.congr rfl rfl rfl
  · rintro line hline
    cases hline
    exact ⟨chatId, hid, rfl⟩

theorem Belongs.ensureLine (h : s.Belongs) : (s.ensureLine b).2.Belongs := by
  have hchat := h.ensureChatId b
  have hknown := (ensureChatId_spec b s).2
  unfold Session.ensureLine
  split
  · exact h
  · split
    · rename_i heq
      rw [heq] at hchat
      exact hchat
    · rename_i chatId t heq
      rw [heq] at hchat hknown
      exact hchat.openLine b (hknown chatId rfl)

theorem Belongs.sendFrame (h : s.Belongs) (f : Outbound) : (s.sendFrame b f).2.Belongs := by
  have hline := h.ensureLine b
  unfold Session.sendFrame
  split
  · rename_i heq
    rw [heq] at hline
    exact hline
  · rename_i heq
    rw [heq] at hline
    dsimp only
    split
    · exact .of_none rfl
    · exact hline.congr rfl rfl rfl

/-- A reset closes the channel before it gets another chat. -/
theorem belongs_restart (s : Session ω κ) : (s.restart b).Belongs := by
  refine .of_none ((bootstrap_spec b _).2.1.trans ?_)
  exact (hangUp_spec b s).2.2

theorem Belongs.clear (h : s.Belongs) (hard : Bool) : (s.clear b hard).Belongs := by
  have hchat := (h.of_leavesChat (leavesChat_announce (.clearing hard) s)).ensureChatId b
  have hclearing := clearing_clear b hard s
  generalize s.clear b hard = s' at hclearing ⊢
  cases hclearing with
  | noChat chat =>
    rw [chat] at hchat
    exact hchat.of_leavesChat (leavesChat_announce _ _)
  | @refused t chatId e chat answer =>
    rw [chat] at hchat
    have hasked := leavesChat_request (.clear chatId hard) (b.clear chatId hard) t
    exact hchat.of_leavesChat (hasked.trans (leavesChat_announce _ _))
  | @cleared t chatId chat answer =>
    rw [chat] at hchat
    have hasked := leavesChat_request (.clear chatId hard) (b.clear chatId hard) t
    split
    · exact belongs_restart b _
    · exact hchat.of_leavesChat (hasked.trans ⟨rfl, rfl, rfl, Or.inl rfl⟩)

theorem Belongs.sendQuestion (h : s.Belongs) (text : String) (images : List String) :
    (s.sendQuestion b text images).2.Belongs := by
  have hbegun := (h.of_leavesChat (leavesChat_admitImages images s)).of_leavesChat
    (leavesChat_beginExchange b text (s.admitImages images).1 _)
  unfold Session.sendQuestion
  dsimp only
  have hsent := hbegun.sendFrame b (.question
    (((s.admitImages images).2.beginExchange b text (s.admitImages images).1).now b) text
    (s.admitImages images).1)
  split
  · rename_i heq
    rw [heq] at hsent
    exact hsent.of_leavesChat (leavesChat_announce _ _)
  · rename_i heq
    rw [heq] at hsent
    exact hsent.of_leavesChat (leavesChat_finishWithError _ _)

theorem Belongs.ask (h : s.Belongs) (text : String) (images : List String) :
    (s.ask b text images).2.Belongs := by
  have hchat := h.ensureChatId b
  have hasking := asking_ask b text images s
  generalize s.ask b text images = asked at hasking ⊢
  obtain ⟨result, s'⟩ := asked
  cases hasking with
  | down | blank => exact h
  | stops => exact h.of_leavesChat (leavesChat_stop b s)
  | @command hard => exact h.clear b hard
  | noChat up idle question chat =>
    rw [chat] at hchat
    exact hchat
  | puts up idle question chat =>
    rw [chat] at hchat
    exact hchat.sendQuestion b _ images

/-- A chat id that is fetched parts the chat from an open channel exactly if it is
another one. -/
theorem Belongs.bootstrap_iff (h : s.Belongs) :
    (s.bootstrap b).2.Belongs ↔ ¬ (Op.bootstrap : Op ω).Displaces b s := by
  obtain ⟨hconfig, hline, hchat⟩ := bootstrap_spec b s
  cases hdown : s.unavailable with
  | true =>
    rw [if_pos hdown] at hchat
    refine ⟨fun _ hop => ?_, fun _ => h.congr hconfig hchat hline⟩
    cases hdown.symm.trans hop.1
  | false =>
    rw [if_neg (by simp [hdown])] at hchat
    cases hanswer : (b.chatId s.outside).1 with
    | error e =>
      rw [hanswer] at hchat
      refine ⟨?_, fun _ => h.congr hconfig hchat hline⟩
      rintro - ⟨-, -, chatId, hok, -⟩
      cases hanswer.symm.trans hok
    | ok chatId =>
      rw [hanswer] at hchat
      constructor
      · -- the channel has the address of the chat it was opened to
        rintro hbelongs ⟨-, hopen, chatId', hok, hother⟩
        cases hanswer.symm.trans hok
        obtain ⟨line, hsome⟩ := Option.isSome_iff_exists.1 hopen
        obtain ⟨now, hnow, hurl⟩ := hbelongs line (hline.trans hsome)
        obtain ⟨was, hwas, hurl'⟩ := h line hsome
        rw [hchat] at hnow
        cases hnow
        rw [hconfig, hurl'] at hurl
        rw [s.config.socketUrl_injective hurl] at hwas
        exact hother hwas
      · intro hop
        cases hopen : s.line with
        | none => exact .of_none (hline.trans hopen)
        | some line =>
          have hsame : s.chatId = some chatId := Decidable.byContradiction fun hother =>
            hop ⟨hdown, by rw [hopen]; rfl, chatId, hanswer, hother⟩
          exact h.congr hconfig (hchat.trans hsame.symm) hline

/-! ## Runs -/

variable {b}

/-- An operation parts the channel from the chat exactly if it gets another chat. -/
theorem Belongs.apply_iff (h : s.Belongs) (op : Op ω) :
    (op.apply b s).Belongs ↔ ¬ op.Displaces b s := by
  -- only fetching the chat id has two outcomes
  have hstays : (op.apply b s).Belongs → ¬ op.Displaces b s →
      ((op.apply b s).Belongs ↔ ¬ op.Displaces b s) := fun h h' => iff_of_true h h'
  cases op with
  | bootstrap => exact h.bootstrap_iff b
  | connect =>
    refine hstays ?_ id
    rw [Op.apply, snd_connect]
    split
    · exact h
    · exact h.ensureLine b
  | ask text images => exact hstays (h.ask b text images) id
  | stop => exact hstays (h.of_leavesChat (leavesChat_stop b s)) id
  | vote id up down => exact hstays (h.of_leavesChat (leavesChat_vote b id up down s)) (fun h => h)
  | clear hard => exact hstays (h.clear b hard) id
  | syncContext value =>
    refine hstays ?_ id
    rw [Op.apply, snd_syncContext]
    split
    · exact h
    · exact h.sendFrame b _
  | pump => exact hstays (h.of_leavesChat (leavesChat_pump b s)) id
  | handleFrame text => exact hstays (h.of_leavesChat (leavesChat_handleFrame b text s)) id
  | handleEvent e => exact hstays (h.of_leavesChat (leavesChat_handleEvent b e s)) id
  | handleClose code => exact hstays (h.of_leavesChat (leavesChat_handleClose s)) id
  | meanwhile outside => exact hstays (h.congr rfl rfl rfl) id

/-- **The open channel belongs to the current chat in all of a run exactly if no other chat
is fetched in it while a channel is open.** -/
theorem forall_belongs_iff (config : Config) (outside : ω) (past : List (Op ω)) :
    (∀ earlier, earlier <:+ past → ((start config outside).after b earlier).Belongs) ↔
      ∀ op earlier, op :: earlier <:+ past →
        ¬ op.Displaces b ((start config outside).after b earlier) := by
  constructor
  · intro h op earlier hpast
    exact ((h earlier ((List.suffix_cons op earlier).trans hpast)).apply_iff op).1
      (h (op :: earlier) hpast)
  · intro h earlier hearlier
    induction earlier with
    | nil => exact .of_none rfl
    | cons op earlier ih =>
      exact ((ih ((List.suffix_cons op earlier).trans hearlier)).apply_iff op).2
        (h op earlier hearlier)

/-- A chat id that is fetched with a channel open leaves the channel with the chat before. -/
theorem not_belongs_fetched :
    ¬ ((start { baseUrl := "http://bots.test", sessionId := "s1" } {}).after Memory.backend
      [.bootstrap, .connect]).Belongs := by
  intro h
  have hopen : ((start { baseUrl := "http://bots.test", sessionId := "s1" } {}).after
      Memory.backend [.bootstrap, .connect]).line.map Line.url =
        some "ws://bots.test/api/chat/s1/chat-1/ws" := by decide +kernel
  have hid : ((start { baseUrl := "http://bots.test", sessionId := "s1" } {}).after
      Memory.backend [.bootstrap, .connect]).chatId = some "chat-2" := by decide +kernel
  obtain ⟨line, hline, hwas⟩ := Option.map_eq_some_iff.1 hopen
  obtain ⟨chatId, hchat, hurl⟩ := h line hline
  cases hid.symm.trans hchat
  rw [hwas] at hurl
  exact absurd hurl (by decide +kernel)

end Session
end Chat
end AnswerStream
