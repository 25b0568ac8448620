import AnswerStream.Proofs.Chat.Announced

/-!
# Phases in rounds

The phases that a session announces come in rounds, one for each question: the session waits,
it may begin to type, and it is idle again.  Only the last round can be unfinished, and the
phase that was announced last is the one the session is in.

A session moves to a phase in several places without a look at where it comes from.  That
none of these moves is out of turn is part of what an operation announces (`Tells`), because
the phase tells what has come of the exchange in flight (`Consistent`).  What is left here is
to read rounds off phases that lead to each other.
-/

namespace AnswerStream
namespace Chat

variable {ω κ : Type}

namespace Phase

/-- A round: an exchange from its question to its end. -/
def IsRound (phases : List Phase) : Prop :=
  phases = [waiting, idle] ∨ phases = [waiting, typing, idle]

/-- What has been announced of a round that has got to a phase. -/
def begun : Phase → List Phase
  | idle => []
  | waiting => [waiting]
  | typing => [waiting, typing]

/-- Phases that start from an idle session are rounds, and one that has begun. -/
theorem Leads.exists_rounds {ps : List Phase} {q : Phase} (h : Leads idle ps q) :
    ∃ rounds : List (List Phase), (∀ r ∈ rounds, IsRound r) ∧
      ps.reverse = rounds.flatten ++ q.begun := by
  induction h with
  | nil => exact ⟨[], by simp, rfl⟩
  | @cons ps q r _ step ih =>
    obtain ⟨rounds, hrounds, heq⟩ := ih
    rw [List.reverse_cons, heq, List.append_assoc]
    cases step with
    | asks => exact ⟨rounds, hrounds, rfl⟩
    | begins => exact ⟨rounds, hrounds, rfl⟩
    | ends busy =>
      -- the round that has begun is complete
      have hround : IsRound (q.begun ++ [idle]) := by
        cases q with
        | idle => exact absurd rfl busy
        | waiting => exact Or.inl rfl
        | typing => exact Or.inr rfl
      refine ⟨rounds ++ [q.begun ++ [idle]], fun r hr => ?_, by simp [begun]⟩
      rcases List.mem_append.1 hr with hr | hr
      · exact hrounds r hr
      · rw [List.mem_singleton.1 hr]
        exact hround

/-- A round that has begun can go on. -/
theorem begun_prefix_round (q : Phase) : q.begun <+: [waiting, typing, idle] := by
  cases q <;> decide

/-- The phase that was announced last is the one they lead to. -/
theorem Leads.head? {p q : Phase} {ps : List Phase} (h : Leads p ps q) : q = ps.head?.getD p := by
  cases h <;> rfl

/-- A phase comes right after one that may come before it. -/
theorem Leads.precedes {p q r : Phase} {later ps : List Phase}
    (h : Leads p (later ++ r :: ps) q) : (ps.head?.getD p).Precedes r := by
  induction later generalizing q with
  | nil =>
    cases h with
    | cons earlier step => rwa [← earlier.head?]
  | cons r' later ih =>
    cases h with
    | cons earlier step => exact ih earlier

end Phase

namespace Session

/-- The phases that were announced, the earliest first. -/
def phases (s : Session ω κ) : List Phase := (s.effects.filterMap Effect.phase?).reverse

/-- The phases that were announced come in rounds. -/
structure InRounds (s : Session ω κ) : Prop where
  /-- They are the beginning of a sequence of rounds. -/
  rounds : ∃ rounds : List (List Phase), (∀ r ∈ rounds, Phase.IsRound r) ∧
    s.phases <+: rounds.flatten
  /-- The last one is the phase the session is in. -/
  current : s.phase = s.phases.getLast?.getD .idle
  /-- A session that types was waiting right before, -/
  typing : ∀ earlier later, s.phases = earlier ++ .typing :: later →
    earlier.getLast? = some .waiting
  /-- and one that waits was idle. -/
  waiting : ∀ earlier later, s.phases = earlier ++ .waiting :: later →
    earlier.getLast?.getD .idle = .idle

theorem inRounds_of_leads {s : Session ω κ}
    (h : Phase.Leads .idle (s.effects.filterMap Effect.phase?) s.phase) : s.InRounds := by
  have hprecedes : ∀ earlier later p, s.phases = earlier ++ p :: later →
      (earlier.getLast?.getD .idle).Precedes p := by
    intro earlier later p heq
    have hlast : s.effects.filterMap Effect.phase? = later.reverse ++ p :: earlier.reverse := by
      rw [← List.reverse_reverse (s.effects.filterMap Effect.phase?), ← phases, heq]
      simp
    rw [hlast] at h
    simpa using h.precedes
  refine ⟨?_, ?_, fun earlier later heq => ?_, fun earlier later heq => ?_⟩
  · obtain ⟨rounds, hrounds, heq⟩ := h.exists_rounds
    refine ⟨rounds ++ [[.waiting, .typing, .idle]], fun r hr => ?_, ?_⟩
    · rcases List.mem_append.1 hr with hr | hr
      · exact hrounds r hr
      · rw [List.mem_singleton.1 hr]
        exact Or.inr rfl
    · rw [phases, heq, List.flatten_append, List.flatten_singleton]
      exact (List.prefix_append_right_inj _).2 s.phase.begun_prefix_round
  · rw [phases, List.getLast?_reverse]
    exact h.head?
  · have hstep := hprecedes earlier later .typing heq
    cases hlast : earlier.getLast? with
    | none =>
      rw [hlast] at hstep
      cases hstep
    | some p =>
      rw [hlast] at hstep
      cases hstep
      rfl
  · have hstep := hprecedes earlier later .waiting heq
    generalize earlier.getLast?.getD .idle = p at hstep ⊢
    cases hstep
    rfl

/-- **The phases of a run come in rounds.** -/
theorem inRounds_after (b : Backend ω κ) (config : Config) (outside : ω) (past : List (Op ω)) :
    ((start config outside).after b past).InRounds := by
  obtain ⟨new, heq, hleads, _⟩ := tells_after b (s := start config outside) (.of_none rfl) past
  refine inRounds_of_leads ?_
  rw [heq, start, List.append_nil]
  exact hleads

end Session
end Chat
end AnswerStream
