import AnswerStream.Chat.Memory
import AnswerStream.Proofs.Chat.Phase
import AnswerStream.Proofs.Chat.Redraw
import AnswerStream.Proofs.Markup.Origin

/-!
# The transcript over a run

Three properties of what is on screen, for every run of a session over any backend.  Where
one of them tells entries apart by their ids, the ids that were drawn have to be fresh.

* What an entry shows follows from what it says, and the cursor stands in no entry but the
  one that an answer is streaming into (`renders_after`).
* An entry stands for an answer that has not begun exactly while there is one, and the entry
  of an answer in flight comes last (`placeholders_after`).
* Entries stay.  Unless the chat is cleared, an operation puts restored entries ahead of what
  is there and new ones behind it.  In between only the entry of the answer in flight and the
  votes of an entry change (`extends_apply`).

All three are read off the invariant of the screen and off what a single operation can do
there.  Whether an answer has begun is a matter of the run, as it is for the phase.
-/

namespace AnswerStream
namespace Chat
namespace Session

open Text

variable {ω κ : Type}

/-! ## What entries show -/

/-- An answer is streaming into an entry: it is in flight, and a part of it has come. -/
def StreamsInto (b : Backend ω κ) (s : Session ω κ) (past : List (Op ω)) (m : Message) : Prop :=
  ∃ x, (s.after b past).exchange = some x ∧ m.id = x.placeholder ∧ Answered b s past

/-- Every entry shows what it says. -/
structure Renders (b : Backend ω κ) (s : Session ω κ) (past : List (Op ω)) : Prop where
  /-- An answer that is streaming is shown as one that goes on. -/
  streaming : ∀ m ∈ (s.after b past).transcript, StreamsInto b s past m →
    m.role = .ai ∧ m.kind = .message ∧ m.html = Markup.render .streaming m.text
  /-- Everything else is shown as complete, -/
  settled : ∀ m ∈ (s.after b past).transcript, ¬ StreamsInto b s past m → m.html = m.shown .final
  /-- and without the cursor. -/
  noCursor : ∀ m ∈ (s.after b past).transcript, ¬ StreamsInto b s past m →
    ¬ Markup.typingCursor.toList <:+: m.html.toList
  /-- What stands for an answer that has not begun says nothing. -/
  thinking : ∀ m ∈ (s.after b past).transcript, m.kind = .thinking → m.text = ""

/-- What is shown as complete has no cursor. -/
theorem not_infix_cursor_shown (m : Message) :
    ¬ Markup.typingCursor.toList <:+: (m.shown .final).toList := by
  unfold Message.shown
  split
  · exact Markup.not_infix_cursor_escape m.text
  · exact Markup.not_infix_cursor_escape m.text
  · decide
  · exact Markup.not_infix_cursor_render rfl m.text
  · exact Markup.not_infix_cursor_render rfl m.text

variable {b : Backend ω κ}

/-- What is on screen during an answer: the entries ahead of its own are settled, and its own
is shown as what has come of it. -/
theorem mem_transcript_inFlight (config : Config) (outside : ω) (past : List (Op ω))
    (hfresh : ((start config outside).after b past).Fresh b)
    {x : Exchange} (hx : ((start config outside).after b past).exchange = some x)
    {m : Message} (hm : m ∈ ((start config outside).after b past).transcript) :
    (m.Settled ∧ m.id ≠ x.placeholder) ∨ x.Stands m := by
  have hscreen := screen_after (b := b) config outside past
  obtain ⟨before, entry, htranscript, hstands, hsettled⟩ := hscreen.last hx
  have hapart := hscreen.apart hfresh hx htranscript hstands.id
  rw [htranscript] at hm
  rcases List.mem_append.1 hm with hm | hm
  · exact Or.inl ⟨hsettled m hm, hapart m hm⟩
  · rw [List.mem_singleton.1 hm]
    exact Or.inr hstands

/-- **Every entry shows what it says**, in every state of a run with fresh ids. -/
theorem renders_after (config : Config) (outside : ω) (past : List (Op ω))
    (hfresh : ((start config outside).after b past).Fresh b) :
    Renders b (start config outside) past := by
  have hscreen := screen_after (b := b) config outside past
  have hmark := fun x => streaming_iff_answered (b := b) config outside past (x := x)
  have hsettled : ∀ m ∈ ((start config outside).after b past).transcript,
      ¬ StreamsInto b (start config outside) past m →
        m.html = m.shown .final ∧ (m.kind = .thinking → m.text = "") := by
    intro m hm hnot
    cases hx : ((start config outside).after b past).exchange with
    | none =>
      have hdone := hscreen.settled hx m hm
      exact ⟨hdone.html, fun hkind => absurd hkind hdone.kind⟩
    | some x =>
      rcases mem_transcript_inFlight config outside past hfresh hx hm with ⟨hdone, _⟩ | hstands
      · exact ⟨hdone.html, fun hkind => absurd hkind hdone.kind⟩
      · -- its own entry is not streamed into, so nothing has come
        have hwaits : x.streaming = false := by
          cases hs : x.streaming with
          | false => rfl
          | true => exact absurd ⟨x, hx, hstands.id, (hmark x hx).1 hs⟩ hnot
        obtain ⟨hkind, htext, hhtml⟩ := hstands.thinks hwaits
        exact ⟨by simp [Message.shown, hstands.role, hkind, hhtml], fun _ => htext⟩
  have hstreaming : ∀ m ∈ ((start config outside).after b past).transcript,
      StreamsInto b (start config outside) past m →
        m.role = .ai ∧ m.kind = .message ∧ m.html = Markup.render .streaming m.text := by
    rintro m hm ⟨x, hx, hid, hanswered⟩
    rcases mem_transcript_inFlight config outside past hfresh hx hm with ⟨_, hne⟩ | hstands
    · exact absurd hid hne
    · exact ⟨hstands.role, hstands.streams ((hmark x hx).2 hanswered)⟩
  refine ⟨hstreaming, fun m hm hnot => (hsettled m hm hnot).1, fun m hm hnot => ?_,
    fun m hm hkind => ?_⟩
  · rw [(hsettled m hm hnot).1]
    exact not_infix_cursor_shown m
  · by_cases hinto : StreamsInto b (start config outside) past m
    · rw [(hstreaming m hm hinto).2.1] at hkind
      cases hkind
    · exact (hsettled m hm hinto).2 hkind

/-- An answer of which a part has arrived, behind an entry with an id of its own. -/
theorem renders_after_part :
    ((start {} { history := [{ role := .human, text := "a", id := some "m" }] }).after
        Memory.backend [.handleFrame "\x7b\"type\":\"message\",\"data\":\"x\"\x7d",
          .ask "q" []]).Fresh Memory.backend ∧
      Renders Memory.backend
        (start {} { history := [{ role := .human, text := "a", id := some "m" }] })
        [.handleFrame "\x7b\"type\":\"message\",\"data\":\"x\"\x7d", .ask "q" []] := by
  have hfresh : ((start {} { history := [{ role := .human, text := "a", id := some "m" }] }).after
      Memory.backend [.handleFrame "\x7b\"type\":\"message\",\"data\":\"x\"\x7d",
        .ask "q" []]).Fresh Memory.backend := by decide +kernel
  exact ⟨hfresh, renders_after _ _ _ hfresh⟩

/-! ## What stands for an answer -/

/-- Entries stand for answers in flight. -/
structure Placeholders (b : Backend ω κ) (s : Session ω κ) (past : List (Op ω)) : Prop where
  /-- At most one stands for an answer that has not begun. -/
  atMostOne : (s.after b past).transcript.countP Message.isPlaceholder ≤ 1
  /-- One does exactly while an answer is in flight that has not begun. -/
  thinking : (∃ m ∈ (s.after b past).transcript, m.kind = .thinking) ↔
    (s.after b past).exchange.isSome ∧ ¬ Answered b s past
  /-- The entry of an answer in flight is the last one, and as long as ids are fresh the only
  one with its id. -/
  last : ∀ x, (s.after b past).exchange = some x → ∃ before entry,
    (s.after b past).transcript = before ++ [entry] ∧ entry.id = x.placeholder ∧
      ((s.after b past).Fresh b → ∀ m ∈ before, m.id ≠ x.placeholder)

theorem countP_isPlaceholder_of_settled {entries : List Message} (h : ∀ m ∈ entries, m.Settled) :
    entries.countP Message.isPlaceholder = 0 :=
  List.countP_eq_zero.2 fun m hm => by simpa [Message.isPlaceholder] using (h m hm).kind

/-- **An entry stands for an answer exactly while there is one**, in every state of a run. -/
theorem placeholders_after (config : Config) (outside : ω) (past : List (Op ω)) :
    Placeholders b (start config outside) past := by
  have hscreen := screen_after (b := b) config outside past
  cases hx : ((start config outside).after b past).exchange with
  | none =>
    have hsettled := hscreen.settled hx
    refine ⟨?_, ?_, fun x hx' => by rw [hx] at hx'; cases hx'⟩
    · rw [countP_isPlaceholder_of_settled hsettled]
      exact Nat.zero_le 1
    · rw [hx]
      exact ⟨fun ⟨m, hm, hkind⟩ => absurd hkind (hsettled m hm).kind, by rintro ⟨⟨⟩, _⟩⟩
  | some x =>
    obtain ⟨before, entry, htranscript, hstands, hsettled⟩ := hscreen.last hx
    have hmark := streaming_iff_answered config outside past hx
    have hthinks : entry.kind = .thinking ↔ x.streaming = false := by
      cases hs : x.streaming with
      | false => simp [(hstands.thinks hs).1]
      | true => simp [(hstands.streams hs).1]
    refine ⟨?_, ?_, fun y hy => ?_⟩
    · rw [htranscript, List.countP_append, countP_isPlaceholder_of_settled hsettled, Nat.zero_add]
      exact List.countP_le_length
    · rw [hx, htranscript, ← hmark]
      constructor
      · rintro ⟨m, hm, hkind⟩
        rcases List.mem_append.1 hm with hm | hm
        · exact absurd hkind (hsettled m hm).kind
        · rw [List.mem_singleton.1 hm] at hkind
          exact ⟨rfl, by simp [hthinks.1 hkind]⟩
      · rintro ⟨_, hnot⟩
        exact ⟨entry, by simp, hthinks.2 (by simpa using hnot)⟩
    · rw [hx] at hy
      cases hy
      exact ⟨before, entry, htranscript, hstands.id,
        fun hfresh => hscreen.apart hfresh hx htranscript hstands.id⟩

/-! ## Entries stay -/

/-- What an operation leaves of the entries on screen. -/
inductive Kept (op : Op ω) (s : Session ω κ) : List Message → Prop
  /-- All of them, as they were. -/
  | same : Kept op s s.transcript
  /-- All but the entry of the answer in flight, which is another or gone. -/
  | answered {x : Exchange} {before left : List Message} {entry : Message}
    (inFlight : s.exchange = some x) (was : s.transcript = before ++ [entry])
    (id : entry.id = x.placeholder) (short : left.length ≤ 1) : Kept op s (before ++ left)
  /-- All of them, with a vote noted on one. -/
  | voted {id : String} {up down : Bool} {before after : List Message} {m : Message}
    (vote : op = .vote id up down) (was : s.transcript = before ++ m :: after) :
    Kept op s (before ++ { m with upvote := up, downvote := down } :: after)

/-- An operation only adds to the screen: restored entries ahead of what it leaves of it, and
entries with new ids behind. -/
def Extends (b : Backend ω κ) (op : Op ω) (s s' : Session ω κ) : Prop :=
  ∃ restored kept added, s'.transcript = restored ++ kept ++ added ∧
    Restores b s.config s.drawn (s.since s') restored ∧ Kept op s kept ∧
      ∀ m ∈ added, ∃ n, m.id = b.newId n ∧ s.drawn ≤ n

/-- Later effects other than requests for the history do not change what was restored. -/
theorem Loads.restores_trans {s t u : Session ω κ} {old : List Message} (h : Loads b s t old)
    (h' : Did Effect.Unasked t u) : Restores b s.config s.drawn (s.since u) old := by
  obtain ⟨new, heq, _, hrestores⟩ := h.did
  obtain ⟨new', heq', hnew'⟩ := h'
  have hsince : u.effects = (new' ++ new) ++ s.effects := by
    rw [heq', heq, List.append_assoc]
  rw [since_eq hsince]
  cases hrestores with
  | nothing hnone =>
    refine .nothing fun e he => ?_
    rcases List.mem_append.1 he with he | he
    · exact hnew' e he
    · exact hnone e he
  | history hasked outside now => exact .history (List.mem_append_right _ hasked) outside now

/-- What asks for no history restores nothing. -/
theorem Did.restores {s t : Session ω κ} (h : Did Effect.Quiet s t) (config : Config)
    (first : Nat) : Restores b config first (s.since t) [] :=
  .nothing fun e he => (h.forall_since e he).2

/-- A question asks for no history once there is a chat. -/
theorem Poses.did {text : String} {images : List String} {s s' : Session ω κ}
    {outcome : Outcome} {answer : Message} (h : Poses b text images s s' outcome answer) :
    Did Effect.Unasked s s' := by
  rcases h.effects with ⟨_, new, now, hnew, heq⟩ | ⟨_, hdid⟩
  · refine ⟨_ :: _ :: new, heq, fun e he => ?_⟩
    rcases List.mem_cons.1 he with rfl | he
    · rintro _ ⟨⟩
    · rcases List.mem_cons.1 he with rfl | he
      · rintro _ ⟨⟩
      · exact (hnew e he).2
  · exact hdid.mono fun e he => he.2

/-- **Unless the chat is cleared, an operation only adds to the screen**: as long as ids are
fresh, nothing that is there is altered, dropped, doubled or moved, except for the entry of the
answer in flight and a vote. -/
theorem extends_apply (config : Config) (outside : ω) (past : List (Op ω)) (op : Op ω)
    (hfresh : ((start config outside).after b past).Fresh b)
    (hkeeps : ¬ op.Clears b ((start config outside).after b past)) :
    Extends b op ((start config outside).after b past)
      ((start config outside).after b (op :: past)) := by
  cases redraw_after (b := b) config outside past op with
  | @loads old loads _ =>
    exact ⟨old, _, [], by rw [loads.transcript, List.append_nil], loads.restores, .same,
      List.forall_mem_nil _⟩
  | votes vote was becomes _ quiet =>
    exact ⟨[], _, [], by rw [becomes]; simp, quiet.did.restores _ _, .voted vote was,
      List.forall_mem_nil _⟩
  | @greets m was becomes _ _ id _ _ _ _ did =>
    refine ⟨[], _, [m], ?_, did.restores _ _, .same, ?_⟩
    · rw [becomes, was]
      rfl
    · rw [List.forall_mem_singleton]
      exact ⟨_, id, Nat.le_refl _⟩
  | @asks text images outcome t old answer _ _ _ _ loads _ poses =>
    obtain ⟨now, htranscript⟩ := poses.transcript
    have hle : ((start config outside).after b past).drawn ≤ t.drawn := by
      rw [loads.drawn]
      omega
    refine ⟨old, _, _, by rw [htranscript, loads.transcript], loads.restores_trans poses.did,
      .same, fun m hm => ?_⟩
    simp only [List.mem_cons, List.not_mem_nil, or_false] at hm
    rcases hm with rfl | rfl
    · exact ⟨_, rfl, hle⟩
    · exact ⟨_, poses.answerId, by omega⟩
  | @answers x before entry answer inFlight stands was becomes _ _ _ quiet =>
    exact ⟨[], before ++ [answer], [], by rw [becomes]; simp, quiet.did.restores _ _,
      .answered inFlight was stands.id (Nat.le_refl 1), List.forall_mem_nil _⟩
  | drops inFlight becomes _ quiet =>
    have hscreen := screen_after (b := b) config outside past
    obtain ⟨before, entry, was, hstands, -⟩ := hscreen.last inFlight
    have hleft := hscreen.filter_apart hfresh inFlight was hstands.id
    exact ⟨[], before ++ [], [], by rw [becomes, hleft]; simp, quiet.did.restores _ _,
      .answered inFlight was hstands.id (Nat.zero_le 1), List.forall_mem_nil _⟩
  | wipes clears => exact absurd clears hkeeps

/-- A question in a chat with a history restores it ahead of the question. -/
theorem extends_ask_restoring :
    ((start {} { history := [{ role := .human, text := "a" }] }).after Memory.backend []).Fresh
        Memory.backend ∧
      ¬ (Op.ask "q" []).Clears Memory.backend
        ((start {} { history := [{ role := .human, text := "a" }] }).after Memory.backend []) ∧
      Extends Memory.backend (.ask "q" [])
        ((start {} { history := [{ role := .human, text := "a" }] }).after Memory.backend [])
        ((start {} { history := [{ role := .human, text := "a" }] }).after Memory.backend
          [.ask "q" []]) := by
  have hkeeps : ¬ (Op.ask "q" []).Clears Memory.backend
      ((start {} { history := [{ role := .human, text := "a" }] }).after Memory.backend []) := by
    rintro ⟨_, _, ⟨h, _⟩ | ⟨h, _⟩⟩
    · exact absurd h (by decide)
    · exact absurd h (by decide)
  have hfresh : ((start {} { history := [{ role := .human, text := "a" }] }).after
      Memory.backend []).Fresh Memory.backend := by decide
  exact ⟨hfresh, hkeeps, extends_apply _ _ _ _ hfresh hkeeps⟩

end Session
end Chat
end AnswerStream
