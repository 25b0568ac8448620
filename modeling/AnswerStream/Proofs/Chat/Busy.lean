import AnswerStream.Proofs.Chat.Teardown

/-!
# Asking while an exchange is in flight

Whoever asks a session that is not idle stops it, whatever the text: the text is not even
looked at.  Stopping hangs up and then does what is done when a channel is gone.  The first
part is all that the backend gets to see (`outside_stop`), and what comes of closing the
channel is not looked at either.

The phase of a session can be other than idle without an exchange, if its chat was cleared
while an answer was on its way.  Then there is no entry to complete or to remove, and the
screen stays as it is.  Otherwise the entry of the answer comes last, so it is the one that
changes, or it goes away with whatever has its id.  In either case the state is one of a run
again, without an exchange, and in such a state no entry stands for an answer
(`Screen.settled`).
-/

namespace AnswerStream
namespace Chat
namespace Session

variable {ω κ : Type}

/-- A session has stopped its exchange, and done nothing else. -/
structure OnlyStops (b : Backend ω κ) (s s' : Session ω κ) : Prop where
  /-- The backend was told to close the channel if there was one, and nothing more. -/
  outside : s'.outside = match s.line with
    | none => s.outside
    | some line => (b.close line.handle normalClosure s.outside).2
  /-- The other effects are events: that an entry has changed if there was an exchange, and
  that the session is idle. -/
  effects : s'.effects = .announced (.phaseChanged .idle) ::
    (s.exchange.toList.map (fun _ => .announced .transcriptChanged) ++
      s.line.toList.map (fun _ => .closed normalClosure) ++ s.effects)
  /-- Every entry is one that was there: none is gone, or just those with the id of the answer. -/
  entries : s'.transcript.map Message.id = s.transcript.map Message.id ∨
    ∃ x, s.exchange = some x ∧ s'.transcript = s.transcript.filter fun m => m.id ≠ x.placeholder
  /-- As long as ids are fresh that is the last one at most. -/
  only : s.Fresh b → s'.transcript.map Message.id <+: s.transcript.map Message.id
  /-- None stands for an answer that has not begun. -/
  thinking : ∀ m ∈ s'.transcript, m.kind ≠ .thinking
  phase : s'.phase = .idle
  exchange : s'.exchange = none
  line : s'.line = none

variable {b : Backend ω κ} {s : Session ω κ}

/-! ## What stopping leaves -/

theorem effects_setPhase {p : Phase} (h : s.phase ≠ p) :
    (s.setPhase p).effects = .announced (.phaseChanged p) :: s.effects := by
  rw [setPhase, if_neg h]
  rfl

/-- A channel that is gone is noted as such, the exchange is over, and nobody outside is
told. -/
theorem effects_handleClose (hbusy : s.phase ≠ .idle) :
    s.handleClose.effects = .announced (.phaseChanged .idle) ::
      (s.exchange.toList.map (fun _ => .announced .transcriptChanged) ++ s.effects) := by
  unfold handleClose
  dsimp only
  cases s.exchange with
  | none => exact effects_setPhase hbusy
  | some x =>
    dsimp only
    split <;> exact effects_setPhase hbusy

theorem outside_handleClose : s.handleClose.outside = s.outside := by
  unfold handleClose
  dsimp only
  cases s.exchange with
  | none => exact outside_setPhase ..
  | some x =>
    dsimp only
    split <;> exact outside_setPhase ..

theorem line_handleClose : s.handleClose.line = none := by
  unfold handleClose
  dsimp only
  cases s.exchange with
  | none => exact line_setPhase ..
  | some x =>
    dsimp only
    split <;> exact line_setPhase ..

theorem effects_hangUp :
    (s.hangUp b).effects = s.line.toList.map (fun _ => .closed normalClosure) ++ s.effects := by
  unfold hangUp
  cases s.line <;> rfl

/-- All that the backend sees of stopping is that the channel is closed. -/
theorem outside_stop : (s.stop b).outside = match s.line with
    | none => s.outside
    | some line => (b.close line.handle normalClosure s.outside).2 := by
  rw [stop, outside_handleClose, hangUp]
  cases s.line <;> rfl

theorem effects_stop (hbusy : s.phase ≠ .idle) :
    (s.stop b).effects = .announced (.phaseChanged .idle) ::
      (s.exchange.toList.map (fun _ => .announced .transcriptChanged) ++
        s.line.toList.map (fun _ => .closed normalClosure) ++ s.effects) := by
  obtain ⟨hexchange, hphase, -⟩ := hangUp_spec b s
  have hstill : (s.hangUp b).phase ≠ .idle := by rwa [hphase]
  rw [stop, effects_handleClose hstill, hexchange, effects_hangUp, List.append_assoc]

/-- Without an exchange the screen stays as it is. -/
theorem transcript_handleClose (h : s.exchange = none) :
    s.handleClose.transcript = s.transcript := by
  unfold handleClose
  dsimp only
  rw [h]
  exact transcript_setPhase ..

/-- With one, its entry shows what has arrived and keeps its id, or it goes away. -/
theorem entries_stop (hscreen : s.Screen b) (hbusy : s.phase ≠ .idle) :
    (s.stop b).transcript.map Message.id = s.transcript.map Message.id ∨
      ∃ x, s.exchange = some x ∧
        (s.stop b).transcript = s.transcript.filter fun m => m.id ≠ x.placeholder := by
  have hspares : Spares s (s.hangUp b) := spares_hangUp s
  cases hx : s.exchange with
  | none =>
    left
    rw [stop, transcript_handleClose (hspares.exchange.trans hx), hspares.transcript]
  | some x =>
    obtain ⟨before, entry, hlast, hstands, -⟩ := hscreen.last hx
    have htorn := tornDown_handleClose hx hbusy hlast hstands hspares
    rw [stop, htorn.transcript]
    split
    · exact Or.inr ⟨x, rfl, rfl⟩
    · left
      rw [hlast, List.map_append, List.map_append]
      rfl

/-- With fresh ids no other entry goes away. -/
theorem isPrefix_stop (hscreen : s.Screen b) (hbusy : s.phase ≠ .idle) (hfresh : s.Fresh b) :
    (s.stop b).transcript.map Message.id <+: s.transcript.map Message.id := by
  rcases entries_stop hscreen hbusy with hsame | ⟨x, hx, hfilter⟩
  · exact hsame ▸ List.prefix_rfl
  · obtain ⟨before, entry, hlast, hstands, -⟩ := hscreen.last hx
    rw [hfilter, hscreen.filter_apart hfresh hx hlast hstands.id, hlast, List.map_append]
    exact List.prefix_append _ _

/-- An operation that stops a busy session does nothing else, in every state of a run. -/
theorem onlyStops_of_apply (config : Config) (outside : ω) (past : List (Op ω))
    (hbusy : ((start config outside).after b past).phase ≠ .idle) (op : Op ω)
    (hop : op.apply b ((start config outside).after b past) =
      ((start config outside).after b past).stop b) :
    OnlyStops b ((start config outside).after b past)
      ((start config outside).after b (op :: past)) := by
  have hscreen := screen_after (b := b) config outside past
  have hlater := screen_after (b := b) config outside (op :: past)
  rw [after_cons, hop] at hlater ⊢
  obtain ⟨hexchange, hphase⟩ :=
    handleClose_spec (((start config outside).after b past).hangUp b)
  exact
    { outside := outside_stop
      effects := effects_stop hbusy
      entries := entries_stop hscreen hbusy
      only := isPrefix_stop hscreen hbusy
      thinking := fun m hm => (hlater.settled hexchange m hm).kind
      phase := hphase
      exchange := hexchange
      line := line_handleClose }

/-! ## Asking -/

/-- **Asking while busy only stops**, in every state of a run in which the session is
available: the text and the images are left alone. -/
theorem ask_of_busy_after (config : Config) (outside : ω) (past : List (Op ω))
    (hup : ((start config outside).after b past).unavailable = false)
    (hbusy : ((start config outside).after b past).phase ≠ .idle) (text : String)
    (images : List String) :
    (((start config outside).after b past).ask b text images).1 = .ok .stopped ∧
      OnlyStops b ((start config outside).after b past)
        (((start config outside).after b past).ask b text images).2 := by
  have hask : ((start config outside).after b past).ask b text images =
      (.ok .stopped, ((start config outside).after b past).stop b) := by
    simp [ask, hup, hbusy]
  exact ⟨congrArg Prod.fst hask,
    onlyStops_of_apply config outside past hbusy (.ask text images) (congrArg Prod.snd hask)⟩

/-- A command is no exception, and a channel that cannot be closed is none. -/
theorem ask_of_busy_after_failing_close :
    ((start {} {}).after Memory.backend
        [.meanwhile { lines := 1, fed := some 0, failClose := true }, .ask "q" []]).unavailable =
          false ∧
      ((start {} {}).after Memory.backend
        [.meanwhile { lines := 1, fed := some 0, failClose := true }, .ask "q" []]).phase ≠ .idle ∧
      (((start {} {}).after Memory.backend
          [.meanwhile { lines := 1, fed := some 0, failClose := true }, .ask "q" []]).ask
            Memory.backend "/clear" []).1 = .ok .stopped := by
  have hup : ((start {} {}).after Memory.backend
      [.meanwhile { lines := 1, fed := some 0, failClose := true },
        .ask "q" []]).unavailable = false := by decide +kernel
  have hbusy : ((start {} {}).after Memory.backend
      [.meanwhile { lines := 1, fed := some 0, failClose := true },
        .ask "q" []]).phase ≠ .idle := by decide +kernel
  have hstops := ask_of_busy_after (b := Memory.backend) {} {}
    [.meanwhile { lines := 1, fed := some 0, failClose := true }, .ask "q" []] hup hbusy "/clear" []
  exact ⟨hup, hbusy, hstops.1⟩

end Session
end Chat
end AnswerStream
