import AnswerStream.Chat.Memory
import AnswerStream.Proofs.Chat.Redraw

/-!
# How an answer comes to its end

An answer that has begun ends in the same way whether the person stops it, its channel is
closed or runs dry, or the service says that it is complete and nothing else: its entry shows
what has arrived, as a complete answer, and the session is idle.  If nothing has arrived, an
answer that is cut off leaves nothing behind.

Cutting off and completing are different paths.  Completing also copies what came with the
last frame, and that is where they could part.  They do not, because the entry of an answer
in flight has none of it yet (`Exchange.Stands`), and a frame that carries only its kind
brings nothing.

## What goes away

An answer that is cut off before anything has arrived is not looked up from the end, as one
that is completed is.  Every entry with its id goes away.  As long as ids are fresh that is its
own entry alone (`Converges.only`), but a service that knows the id can have it on another one
(`not_converges_after`).
-/

namespace AnswerStream
namespace Chat

variable {ω κ : Type}

namespace Op

/-- An operation that cuts an answer off: the person stops it, its channel is closed, or it
is asked for an event and has no more. -/
def CutsOff (b : Backend ω κ) (s : Session ω κ) : Op ω → Prop
  | stop | handleClose _ | handleEvent (.closed _) => True
  | pump => ∃ line, s.line = some line ∧
    ((b.receive line.handle s.outside).1 = .exhausted ∨
      ∃ code, (b.receive line.handle s.outside).1 = .event (.closed code))
  | _ => False

/-- An operation hands over a last frame that carries only its kind. -/
def Completes (b : Backend ω κ) (s : Session ω κ) (op : Op ω) : Prop :=
  ∃ text, op.delivers b s = some text ∧ Inbound.parse? text = some { kind := .stop }

end Op

namespace Session

/-- An answer is over: what is left on screen, no exchange, and what was announced. -/
structure TornDown (s s' : Session ω κ) (left : List Message) : Prop where
  transcript : s'.transcript = left
  phase : s'.phase = .idle
  exchange : s'.exchange = none
  events : s'.events = .phaseChanged .idle :: .transcriptChanged :: s.events

/-- The ways in which the answer in flight can end come to the same. -/
structure Converges (b : Backend ω κ) (s : Session ω κ) (x : Exchange) (before : List Message)
    (entry : Message) : Prop where
  last : s.transcript = before ++ [entry]
  id : entry.id = x.placeholder
  /-- What has arrived is shown as complete. -/
  arrived : x.chunks ≠ "" → ∀ op : Op ω, op.CutsOff b s ∨ op.Completes b s →
    TornDown s (op.apply b s) (before ++ [completed s.config x.chunks none entry])
  /-- If nothing has arrived, just the entries with the id of the answer go away, -/
  empty : x.chunks = "" → ∀ op : Op ω, op.CutsOff b s →
    TornDown s (op.apply b s) (s.transcript.filter fun m => m.id ≠ x.placeholder)
  /-- and as long as ids are fresh that is the entry of the answer. -/
  only : s.Fresh b → s.transcript.filter (fun m => m.id ≠ x.placeholder) = before

/-! ## One way and the other -/

/-- A change that concerns none of what an answer needs to end. -/
structure Spares (s t : Session ω κ) : Prop where
  config : t.config = s.config
  transcript : t.transcript = s.transcript
  phase : t.phase = s.phase
  exchange : t.exchange = s.exchange
  events : t.events = s.events

variable {b : Backend ω κ} {s t : Session ω κ} {x : Exchange} {before : List Message}
  {entry : Message}

theorem spares_hangUp (s : Session ω κ) : Spares s (s.hangUp b) := by
  unfold hangUp
  split <;> exact ⟨rfl, rfl, rfl, rfl, rfl⟩

/-- A session that was not idle and has given its exchange up says what is left, and that
it is idle. -/
theorem tornDown_show {u : Session ω κ} {left : List Message} (hbusy : s.phase ≠ .idle)
    (htranscript : u.transcript = left) (hphase : u.phase = s.phase) (hexchange : u.exchange = none)
    (hevents : u.events = s.events) :
    TornDown s ((u.announce .transcriptChanged).setPhase .idle) left := by
  refine ⟨?_, phase_setPhase .., ?_, ?_⟩
  · rw [transcript_setPhase]
    exact htranscript
  · rw [exchange_setPhase]
    exact hexchange
  · have hannounced : (u.announce .transcriptChanged).phase ≠ .idle := by
      rw [← hphase] at hbusy
      exact hbusy
    rw [setPhase, if_neg hannounced]
    exact congrArg (.phaseChanged .idle :: .transcriptChanged :: ·) hevents

/-- A frame that carries only its kind adds nothing to an entry that has nothing yet. -/
theorem completed_bare (config : Config) (text : String) (h : x.Stands entry) :
    completed config text (some { kind := .stop }) entry = completed config text none entry := by
  obtain ⟨hreferences, hurls, hquestions, hprompt, -⟩ := h.bare
  have htimestamp : ((none : Option Timestamp) <|> entry.timestamp) = entry.timestamp := rfl
  simp [completed, addClosing, hreferences, hurls, hquestions, hprompt, htimestamp]

section Ends

variable (hx : s.exchange = some x) (hbusy : s.phase ≠ .idle)
  (hs : s.transcript = before ++ [entry]) (hstands : x.Stands entry)
include hx hbusy hs hstands

omit hx in
/-- What has arrived is shown as complete, after the exchange was given up. -/
theorem tornDown_complete {u : Session ω κ} (hu : Spares { s with exchange := none } u)
    (text : String) (closing : Option Inbound) :
    TornDown s (u.complete x.placeholder text closing)
      (before ++ [completed s.config text closing entry]) := by
  refine tornDown_show hbusy ?_ hu.phase hu.exchange hu.events
  rw [← hstands.id, ← show u.config = s.config from hu.config]
  exact transcript_editMessage (hu.transcript.trans hs) _

/-- A channel that is gone completes what has arrived, and drops the entries that stand for
nothing. -/
theorem tornDown_handleClose (hst : Spares s t) :
    TornDown s t.handleClose
      (if x.chunks = "" then s.transcript.filter fun m => m.id ≠ x.placeholder
        else before ++ [completed s.config x.chunks none entry]) := by
  have hforget : Spares { s with exchange := none } { t with line := none, exchange := none } :=
    ⟨hst.config, hst.transcript, hst.phase, rfl, hst.events⟩
  unfold handleClose
  dsimp only
  rw [hst.exchange, hx]
  dsimp only
  split
  · exact tornDown_show hbusy (by rw [hst.transcript]) hst.phase rfl hst.events
  · exact tornDown_complete hbusy hs hstands hforget x.chunks none

/-- So does a last frame that carries only its kind, if anything has arrived. -/
theorem tornDown_handleFrame (hst : Spares s t) (hchunks : x.chunks ≠ "") {text : String}
    (hf : Inbound.parse? text = some { kind := .stop }) :
    TornDown s (t.handleFrame b text) (before ++ [completed s.config x.chunks none entry]) := by
  have hforget : Spares { s with exchange := none } { t with exchange := none } :=
    ⟨hst.config, hst.transcript, hst.phase, rfl, hst.events⟩
  rw [handleFrame, hf]
  show TornDown s (t.onStop { kind := .stop }) _
  rw [onStop, hst.exchange, hx]
  dsimp only
  rw [if_neg hchunks, ← completed_bare s.config x.chunks hstands]
  exact tornDown_complete hbusy hs hstands hforget x.chunks _

end Ends

/-! ## All ways -/

/-- Whatever cuts an answer off, it is as if its channel were gone. -/
theorem exists_handleClose_of_cutsOff {op : Op ω} (hop : op.CutsOff b s) :
    ∃ t, Spares s t ∧ op.apply b s = t.handleClose := by
  cases op with
  | stop => exact ⟨_, spares_hangUp s, rfl⟩
  | handleClose code => exact ⟨s, ⟨rfl, rfl, rfl, rfl, rfl⟩, rfl⟩
  | handleEvent e =>
    cases e with
    | frame text => exact hop.elim
    | closed code => exact ⟨s, ⟨rfl, rfl, rfl, rfl, rfl⟩, rfl⟩
  | pump =>
    obtain ⟨line, hline, hreceived⟩ := hop
    refine ⟨{ s with outside := (b.receive line.handle s.outside).2 }, ⟨rfl, rfl, rfl, rfl, rfl⟩, ?_⟩
    rw [Op.apply, pump, hline]
    rcases hreceived with hreceived | ⟨code, hreceived⟩
    · simp only [hreceived]
    · simp only [hreceived]
      rfl
  | _ => exact hop.elim

/-- **All ways to end an answer come to the same**, in every state of a run. -/
theorem converges_after (config : Config) (outside : ω) (past : List (Op ω))
    (hx : ((start config outside).after b past).exchange = some x) :
    ∃ before entry, Converges b ((start config outside).after b past) x before entry := by
  have hscreen := screen_after (b := b) config outside past
  obtain ⟨before, entry, hs, hstands, -⟩ := hscreen.last hx
  have hbusy : ((start config outside).after b past).phase ≠ .idle := by
    intro hidle
    rw [Turn.exchange_eq_none_of_idle (consistent_after config outside past) hidle] at hx
    cases hx
  refine ⟨before, entry, hs, hstands.id, fun hchunks op hop => ?_, fun hchunks op hop => ?_,
    fun hfresh => hscreen.filter_apart hfresh hx hs hstands.id⟩
  · rcases hop with hop | ⟨text, hop, hf⟩
    · obtain ⟨t, hst, heq⟩ := exists_handleClose_of_cutsOff hop
      have htorn := tornDown_handleClose hx hbusy hs hstands hst
      rw [if_neg hchunks] at htorn
      rwa [heq]
    · obtain ⟨outside, heq⟩ := Op.exists_apply_of_delivers hop
      rw [heq]
      refine tornDown_handleFrame hx hbusy hs hstands ?_ hchunks hf
      exact ⟨rfl, rfl, rfl, rfl, rfl⟩
  · obtain ⟨t, hst, heq⟩ := exists_handleClose_of_cutsOff hop
    have htorn := tornDown_handleClose hx hbusy hs hstands hst
    rw [if_pos hchunks] at htorn
    rwa [heq]

/-- An answer of which a part has arrived. -/
theorem converges_partly :
    ((start {} {}).after Memory.backend
        [.handleFrame "\x7b\"type\":\"message\",\"data\":\"x\"\x7d", .ask "q" []]).exchange =
          some { placeholder := numberedId 1, chunks := "x", streaming := true } ∧
      ∃ before entry, Converges Memory.backend ((start {} {}).after Memory.backend
        [.handleFrame "\x7b\"type\":\"message\",\"data\":\"x\"\x7d", .ask "q" []])
          { placeholder := numberedId 1, chunks := "x", streaming := true } before entry := by
  have hparse : Inbound.parse? "\x7b\"type\":\"message\",\"data\":\"x\"\x7d" =
      some { kind := .message, data := some "x" } := by decide +kernel
  have hasked : ((start {} {}).after Memory.backend [.ask "q" []]).exchange =
      some { placeholder := numberedId 1 } := by decide +kernel
  have hx : ((start {} {}).after Memory.backend
      [.handleFrame "\x7b\"type\":\"message\",\"data\":\"x\"\x7d", .ask "q" []]).exchange =
        some { placeholder := numberedId 1, chunks := "x", streaming := true } := by
    have hchunk := (onChunk_spec "x" hasked).1
    rw [String.empty_append] at hchunk
    rw [after_cons, Op.apply]
    -- the session after the question is not to be evaluated
    generalize (start {} {}).after Memory.backend [.ask "q" []] = s at hchunk ⊢
    rw [handleFrame, hparse]
    exact hchunk
  exact ⟨hx, converges_after (b := Memory.backend) {} {} _ hx⟩

/-- An entry that is restored during an answer, and has its id, goes away with it when the
answer is stopped.  And there is nothing to pump once the channel was given up: of a context
that could not be sent, an answer is left that does not end. -/
theorem not_converges_after :
    (((start {} {}).after Memory.backend [.bootstrap,
        .meanwhile { history := [{ role := .human, text := "a", id := some (numberedId 1) }] },
        .ask "q" []]).exchange = some { placeholder := numberedId 1 } ∧
      ((start {} {}).after Memory.backend [.bootstrap,
        .meanwhile { history := [{ role := .human, text := "a", id := some (numberedId 1) }] },
        .ask "q" []]).transcript.map Message.text = ["a", "q", ""] ∧
      ((start {} {}).after Memory.backend [.stop, .bootstrap,
        .meanwhile { history := [{ role := .human, text := "a", id := some (numberedId 1) }] },
        .ask "q" []]).transcript.map Message.text = ["q"]) ∧
    ((start {} {}).after Memory.backend [.pump, .syncContext .null,
      .meanwhile { failSend := true }, .ask "q" []]).exchange =
        some { placeholder := numberedId 1 } := by
  decide +kernel

end Session
end Chat
end AnswerStream
