import AnswerStream.Proofs.Chat.Questions

/-!
# Switches

A configuration can turn features off, and what is off is nowhere to be seen: no entry has
references or addresses, none has images and no question is sent with any, and no answer can
be voted on or played back.  A feature that is on is there for every finished answer and for
nothing else, whether the answer was restored or has just come.

The switches are looked at where history is restored, where an answer is completed and where
a question is asked.  That the other operations need not look at them is because the entry of
an answer in flight is bare (`Exchange.Stands`), and the entries they write are no answers.
-/

namespace AnswerStream
namespace Chat

variable {ω κ : Type}

namespace Session

/-- An entry, with those that come behind it, stands for the answer in flight: it is the last
one with the id of the answer, which is how it is found. -/
def Pending (s : Session ω κ) (m : Message) (after : List Message) : Prop :=
  ∃ x, s.exchange = some x ∧ m.id = x.placeholder ∧ ∀ m' ∈ after, m'.id ≠ x.placeholder

/-- A session keeps to the switches of a configuration, and so do the questions that were
sent. -/
structure KeepsTo (config : Config) (s : Session ω κ) (questions : List String) : Prop where
  /-- Without references no entry has any, and no addresses. -/
  references : config.disableReferences = true →
    ∀ m ∈ s.transcript, m.references = [] ∧ m.urls = []
  /-- Without images no entry has any, -/
  images : config.disableImageUpload = true → ∀ m ∈ s.transcript, m.images = []
  /-- and every question that was sent is a plain text. -/
  plain : config.disableImageUpload = true → ∀ sent ∈ questions, ∃ text,
    (Json.parse? sent).bind (Json.get? "data") = some (.ofText text)
  /-- What can be voted on are the finished answers, unless that is off. -/
  feedback : ∀ before m after, s.transcript = before ++ m :: after →
    (m.feedback = true ↔
      (¬ s.Pending m after ∧ m.IsAnswer) ∧ config.disableFeedback = false)
  /-- So it is with what can be played back. -/
  speakable : ∀ before m after, s.transcript = before ++ m :: after →
    (m.speakable = true ↔
      (¬ s.Pending m after ∧ m.IsAnswer) ∧ config.disableSpeechPlayback = false)

variable {b : Backend ω κ} {op : Op ω} {s s' t : Session ω κ}

/-- No operation changes the options. -/
theorem config_of_redraw (h : Redraw b op s s') : s'.config = s.config := by
  cases h with
  | loads loads _ => exact loads.config
  | votes _ _ _ _ quiet => exact quiet.config
  | greets _ _ _ _ _ _ _ config => exact config
  | asks _ _ _ _ loads _ poses => exact poses.config.trans loads.config
  | answers _ _ _ _ _ _ _ quiet => exact quiet.config
  | drops _ _ _ quiet => exact quiet.config
  | wipes _ _ config loads => exact loads.config.trans config

theorem config_after (config : Config) (outside : ω) (past : List (Op ω)) :
    ((start config outside).after b past).config = config := by
  induction past with
  | nil => rfl
  | cons op past ih =>
    exact (config_of_redraw (redraw_after config outside past op)).trans ih

/-! ## Finished entries -/

/-- All entries but the one of the answer in flight, which comes last. -/
def finished (s : Session ω κ) : List Message :=
  if s.exchange.isSome then s.transcript.dropLast else s.transcript

theorem finished_of_none (h : s.exchange = none) : s.finished = s.transcript := by
  simp [finished, h]

theorem finished_of_some {x : Exchange} {before : List Message} {entry : Message}
    (h : s.exchange = some x) (hlast : s.transcript = before ++ [entry]) :
    s.finished = before := by
  simp [finished, h, hlast]

/-- The finished entries on screen keep to the switches. -/
def FinishedObey (s : Session ω κ) : Prop := ∀ m ∈ s.finished, m.Obeys s.config

theorem FinishedObey.of_loads {old : List Message} (h : s.FinishedObey) (hscreen : s.Screen b)
    (hloads : Loads b s t old)
    (hexchange : ∃ chunks : String → String,
      t.exchange = s.exchange.map fun x => { x with chunks := chunks x.chunks }) :
    t.FinishedObey := by
  obtain ⟨chunks, hexchange⟩ := hexchange
  have hfinished : t.finished = old ++ s.finished := by
    cases hx : s.exchange with
    | none =>
      rw [hx] at hexchange
      rw [finished_of_none hexchange, finished_of_none hx, hloads.transcript]
    | some x =>
      obtain ⟨before, entry, hlast, -, -⟩ := hscreen.last hx
      rw [hx] at hexchange
      rw [finished_of_some hx hlast, finished_of_some hexchange]
      rw [hloads.transcript, hlast, List.append_assoc]
  intro m hm
  rw [hloads.config]
  rw [hfinished] at hm
  rcases List.mem_append.1 hm with hm | hm
  · exact (hloads.mem_old hm).2
  · exact h m hm

/-- The question obeys as far as its images do, and its answer once it is over. -/
theorem FinishedObey.of_poses {text : String} {images : List String} {outcome : Outcome}
    {answer : Message} (h : s.FinishedObey) (hidle : s.exchange = none)
    (himages : s.config.disableImageUpload = true → images = [])
    (hposes : Poses b text images s s' outcome answer) : s'.FinishedObey := by
  obtain ⟨now, htranscript⟩ := hposes.transcript
  rw [List.append_cons] at htranscript
  have hasked : ∀ m ∈ s.transcript ++ [Message.human (b.newId s.drawn) now text images],
      m.Obeys s'.config := by
    rw [hposes.config]
    refine List.forall_mem_append.2 ⟨?_, List.forall_mem_singleton.2 ?_⟩
    · rw [← finished_of_none hidle]
      exact h
    · exact Message.obeys_human himages _ now text
  cases hx : s'.exchange with
  | none =>
    rw [FinishedObey, finished_of_none hx, htranscript]
    exact List.forall_mem_append.2 ⟨hasked, List.forall_mem_singleton.2 (hposes.obeys hx)⟩
  | some x =>
    rw [FinishedObey, finished_of_some hx htranscript]
    exact hasked

/-- The entry that a vote is noted on is as finished as it was. -/
theorem FinishedObey.of_votes {before after : List Message} {m : Message} (h : s.FinishedObey)
    (up down : Bool) (was : s.transcript = before ++ m :: after)
    (becomes : s'.transcript = before ++ { m with upvote := up, downvote := down } :: after)
    (exchange : s'.exchange = s.exchange) (config : s'.config = s.config) :
    s'.FinishedObey := by
  have hvoted : ∀ rest : List Message, (∀ m' ∈ before ++ m :: rest, m'.Obeys s.config) →
      ∀ m' ∈ before ++ { m with upvote := up, downvote := down } :: rest, m'.Obeys s.config := by
    intro rest hobey
    obtain ⟨hbefore, hrest⟩ := List.forall_mem_append.1 hobey
    obtain ⟨hm, hrest⟩ := List.forall_mem_cons.1 hrest
    exact List.forall_mem_append.2 ⟨hbefore, List.forall_mem_cons.2 ⟨hm.voted up down, hrest⟩⟩
  unfold FinishedObey at h ⊢
  rw [config]
  cases hx : s.exchange with
  | none =>
    rw [finished_of_none hx, was] at h
    rw [finished_of_none (exchange.trans hx), becomes]
    exact hvoted after h
  | some x =>
    rcases List.eq_nil_or_concat after with rfl | ⟨rest, last, rfl⟩
    · rw [finished_of_some hx was] at h
      rwa [finished_of_some (exchange.trans hx) becomes]
    · rw [List.concat_eq_append, ← List.cons_append, ← List.append_assoc] at was becomes
      rw [finished_of_some hx was] at h
      rw [finished_of_some (exchange.trans hx) becomes]
      exact hvoted rest h

/-- What an operation can do on screen keeps to the switches. -/
theorem FinishedObey.of_redraw (h : s.FinishedObey) (hscreen : s.Screen b)
    (hredraw : Redraw b op s s') : s'.FinishedObey := by
  cases hredraw with
  | loads loads exchange => exact h.of_loads hscreen loads exchange
  | votes _ was becomes exchange quiet => exact h.of_votes _ _ was becomes exchange quiet.config
  | greets _ becomes _ obeys _ _ exchange =>
    rw [FinishedObey, finished_of_none exchange, becomes]
    exact List.forall_mem_singleton.2 obeys
  | asks _ _ _ idle loads stays poses =>
    refine (h.of_loads hscreen loads ⟨id, by rw [stays, idle]; rfl⟩).of_poses stays
      (fun hoff => ?_) poses
    rw [loads.config] at hoff
    exact if_pos hoff
  | answers inFlight _ was becomes _ obeys _ quiet =>
    rw [FinishedObey, finished_of_some inFlight was, ← quiet.config] at h
    cases hy : s'.exchange with
    | none =>
      rw [FinishedObey, finished_of_none hy, becomes]
      exact List.forall_mem_append.2 ⟨h, List.forall_mem_singleton.2 (obeys hy)⟩
    | some y =>
      rw [FinishedObey, finished_of_some hy becomes]
      exact h
  | drops inFlight becomes exchange quiet =>
    obtain ⟨before, entry, hlast, hstands, -⟩ := hscreen.last inFlight
    rw [FinishedObey, finished_of_some inFlight hlast, ← quiet.config] at h
    rw [FinishedObey, finished_of_none exchange, becomes, hlast, filter_concat_id hstands.id]
    exact fun m hm => h m (List.mem_filter.1 hm).1
  | wipes _ empty _ loads exchange _ =>
    rw [FinishedObey, finished_of_none exchange, loads.transcript, empty, List.append_nil,
      loads.config]
    exact fun m hm => (loads.mem_old hm).2

theorem finishedObey_after (config : Config) (outside : ω) (past : List (Op ω)) :
    ((start config outside).after b past).FinishedObey := by
  induction past with
  | nil => exact List.forall_mem_nil _
  | cons op past ih =>
    exact ih.of_redraw (screen_after config outside past) (redraw_after config outside past op)

/-! ## Questions -/

/-- Where images are off, every question is delivered without any. -/
theorem withoutImages_after (config : Config) (outside : ω) (past : List (Op ω))
    (hoff : config.disableImageUpload = true) :
    ∀ f ∈ ((start config outside).after b past).delivered,
      ∃ now text, f = Outbound.question now text [] := by
  induction past with
  | nil => exact List.forall_mem_nil _
  | cons op past ih =>
    by_cases hsent : op.ReturnsSent b ((start config outside).after b past)
    · obtain ⟨q, now, ⟨text, images, _, _, _, himages, _⟩, hdelivered, _⟩ :=
        sends_of_returnsSent hsent
      rw [config_after, Config.admits, if_pos hoff] at himages
      rw [after_cons, hdelivered, himages]
      exact List.forall_mem_cons.2 ⟨⟨now, q.text, rfl⟩, ih⟩
    · rw [(did_plain_of_redraw (redraw_after config outside past op) hsent).delivered]
      exact ih

/-- So what the channels take of it is a plain text. -/
theorem plain_after (config : Config) (outside : ω) (past : List (Op ω))
    (hoff : config.disableImageUpload = true) :
    ∀ sent ∈ takenQuestions b config outside past, ∃ text,
      (Json.parse? sent).bind (Json.get? "data") = some (.ofText text) := by
  intro sent hsent
  rw [takenQuestions_eq] at hsent
  obtain ⟨f, hf, rfl⟩ := List.mem_map.1 hsent
  obtain ⟨now, text, rfl⟩ := withoutImages_after config outside past hoff f hf
  exact ⟨text, (Question.carriedBy ⟨"", text, []⟩ now).data⟩

/-! ## Every state -/

/-- A member of a list is the last one, or it comes ahead of the last one. -/
theorem last_or_ahead {before after front : List Message} {m entry : Message}
    (h : before ++ m :: after = front ++ [entry]) :
    after = [] ∧ m = entry ∨ entry ∈ after ∧ m ∈ front := by
  rcases List.eq_nil_or_concat after with rfl | ⟨rest, last, rfl⟩
  · obtain ⟨-, hentry⟩ := List.append_inj' h rfl
    exact Or.inl ⟨rfl, List.singleton_inj.1 hentry⟩
  · rw [List.concat_eq_append, ← List.cons_append, ← List.append_assoc] at h
    obtain ⟨rfl, hentry⟩ := List.append_inj' h rfl
    obtain rfl := List.singleton_inj.1 hentry
    exact Or.inr ⟨by simp, by simp⟩

/-- An entry on screen is finished and keeps to the switches, or it is pending and bare. -/
theorem obeys_or_bare (hscreen : s.Screen b) (h : s.FinishedObey)
    {before after : List Message} {m : Message} (hm : s.transcript = before ++ m :: after) :
    ¬ s.Pending m after ∧ m.Obeys s.config ∨ s.Pending m after ∧ m.Bare := by
  cases hx : s.exchange with
  | none =>
    rw [FinishedObey, finished_of_none hx] at h
    refine Or.inl ⟨?_, h m (by simp [hm])⟩
    rintro ⟨x, hx', -⟩
    rw [hx] at hx'
    cases hx'
  | some x =>
    obtain ⟨front, entry, hlast, hstands, -⟩ := hscreen.last hx
    rw [FinishedObey, finished_of_some hx hlast] at h
    rcases last_or_ahead (hm.symm.trans hlast) with ⟨rfl, rfl⟩ | ⟨hbehind, hahead⟩
    · exact Or.inr ⟨⟨x, hx, hstands.id, List.forall_mem_nil _⟩, hstands.bare⟩
    · refine Or.inl ⟨?_, h m hahead⟩
      rintro ⟨y, hy, -, hafter⟩
      rw [hx] at hy
      cases hy
      exact hafter entry hbehind hstands.id

/-- **Every state of a run keeps to the switches**, with what the channels took until then. -/
theorem keepsTo_after (config : Config) (outside : ω) (past : List (Op ω)) :
    ((start config outside).after b past).KeepsTo config
      (takenQuestions b config outside past) := by
  have hcases : ∀ before m after,
      ((start config outside).after b past).transcript = before ++ m :: after →
      ¬ ((start config outside).after b past).Pending m after ∧ m.Obeys config ∨
        ((start config outside).after b past).Pending m after ∧ m.Bare := by
    intro before m after hm
    have hor := obeys_or_bare (screen_after (b := b) config outside past)
      (finishedObey_after config outside past) hm
    rwa [config_after] at hor
  refine ⟨fun hoff m hm => ?_, fun hoff m hm => ?_, plain_after config outside past,
    fun before m after hm => ?_, fun before m after hm => ?_⟩
  · obtain ⟨before, after, hm⟩ := List.append_of_mem hm
    rcases hcases before m after hm with ⟨-, hobeys⟩ | ⟨-, hreferences, hurls, _⟩
    · exact hobeys.references hoff
    · exact ⟨hreferences, hurls⟩
  · obtain ⟨before, after, hm⟩ := List.append_of_mem hm
    rcases hcases before m after hm with ⟨-, hobeys⟩ | ⟨-, _, _, _, _, himages, _⟩
    · exact hobeys.images hoff
    · exact himages
  · rcases hcases before m after hm with ⟨hnot, hobeys⟩ | ⟨hpending, _, _, _, _, _, hfeedback, _⟩
    · rw [hobeys.feedback]
      simp [hnot]
    · simp [hfeedback, hpending]
  · rcases hcases before m after hm with ⟨hnot, hobeys⟩ | ⟨hpending, _, _, _, _, _, _, hspeakable⟩
    · rw [hobeys.speakable]
      simp [hnot]
    · simp [hspeakable, hpending]

end Session
end Chat
end AnswerStream
