import AnswerStream.Proofs.Chat.Loading

/-!
# What is on screen

Every entry on screen is settled, which means that what it shows follows from what it says,
except for the one that stands for the answer in flight.  That one comes last.  It shows
nothing until a part of the answer has come, and then the parts so far, as an answer that
goes on.

## Which entry is changed

An operation that changes an entry looks it up by its id, from the end.  The entry of the
answer in flight comes last, so it is the one that is found, whatever ids the others have
(`Displays`, `Screen`).  An answer that is dropped is another matter: every entry with its id
goes away.  That it is the only one is not up to the session, which draws its ids at random
and takes those that the service gives as they are.  It has to be assumed (`Fresh`).
-/

namespace AnswerStream
namespace Chat

open Text

variable {ω κ : Type}

/-! ## Entries -/

namespace Message

/-- What an entry shows, with what the bot says rendered with the given options. -/
def shown (o : Markup.Options) (m : Message) : String :=
  match m.role, m.kind with
  | .human, _ | .ai, .error => escape m.text
  | .ai, .thinking => ""
  | .ai, .message | .ai, .welcome => Markup.render o m.text

/-- An answer, be it complete or not. -/
def IsAnswer (m : Message) : Prop := m.role = .ai ∧ m.kind = .message

/-- An entry has nothing that only comes with the end of an answer. -/
def Bare (m : Message) : Prop :=
  m.references = [] ∧ m.urls = [] ∧ m.relatedQuestions = [] ∧ m.relatedQuestionPrompt = none ∧
    m.images = [] ∧ m.feedback = false ∧ m.speakable = false

/-- An entry that is complete, and shows what it says. -/
structure Settled (m : Message) : Prop where
  kind : m.kind ≠ .thinking
  html : m.html = m.shown .final

/-- Votes do not show. -/
theorem Settled.voted {m : Message} (h : m.Settled) (up down : Bool) :
    Settled { m with upvote := up, downvote := down } :=
  ⟨h.kind, h.html⟩

theorem settled_human (id : String) (now : Nat) (text : String) (images : List String) :
    (human id now text images).Settled :=
  ⟨by rintro ⟨⟩, rfl⟩

theorem settled_error {m : Message} (hrole : m.role = .ai) (text : String) :
    Settled { m with kind := .error, text, html := escape text } :=
  ⟨by rintro ⟨⟩, by simp [shown, hrole]⟩

theorem settled_restore (config : Config) (id : String) (now : Nat) (e : HistoryEntry) :
    (e.restore config id now).Settled := by
  unfold HistoryEntry.restore
  cases e.role with
  | human => exact ⟨by rintro ⟨⟩, by simp [shown, human]⟩
  | ai => exact ⟨by rintro ⟨⟩, by simp [shown, ai]⟩

theorem settled_completed (config : Config) (text : String) (closing : Option Inbound)
    {m : Message} (hrole : m.role = .ai) : (Session.completed config text closing m).Settled := by
  cases closing with
  | none => exact ⟨by rintro ⟨⟩, by simp [Session.completed, shown, hrole]⟩
  | some f => exact ⟨by rintro ⟨⟩, by simp [Session.completed, Session.addClosing, shown, hrole]⟩

theorem bare_thinking (id : String) (now : Nat) : (thinking id now).Bare :=
  ⟨rfl, rfl, rfl, rfl, rfl, rfl, rfl⟩

/-! ### Switches -/

/-- A complete entry keeps to the switches: it has nothing that is off, and it can be voted on
and played back exactly if it is an answer for which that is not off. -/
structure Obeys (config : Config) (m : Message) : Prop where
  references : config.disableReferences = true → m.references = [] ∧ m.urls = []
  images : config.disableImageUpload = true → m.images = []
  feedback : m.feedback = true ↔ m.IsAnswer ∧ config.disableFeedback = false
  speakable : m.speakable = true ↔ m.IsAnswer ∧ config.disableSpeechPlayback = false

/-- Votes are no concern of the switches. -/
theorem Obeys.voted {config : Config} {m : Message} (h : m.Obeys config) (up down : Bool) :
    Obeys config { m with upvote := up, downvote := down } :=
  ⟨h.references, h.images, h.feedback, h.speakable⟩

/-- What is no answer has to be bare. -/
theorem Bare.obeys {m : Message} (h : m.Bare) (hkind : m.kind ≠ .message) (config : Config) :
    m.Obeys config := by
  obtain ⟨hreferences, hurls, _, _, himages, hfeedback, hspeakable⟩ := h
  exact ⟨fun _ => ⟨hreferences, hurls⟩, fun _ => himages, by simp [hfeedback, IsAnswer, hkind],
    by simp [hspeakable, IsAnswer, hkind]⟩

theorem obeys_error {m : Message} (h : m.Bare) (text : String) (config : Config) :
    Obeys config { m with kind := .error, text, html := escape text } :=
  Bare.obeys (m := { m with kind := .error, text, html := escape text }) h (by rintro ⟨⟩) config

theorem obeys_human {config : Config} {images : List String}
    (h : config.disableImageUpload = true → images = []) (id : String) (now : Nat)
    (text : String) : (human id now text images).Obeys config :=
  ⟨fun _ => ⟨rfl, rfl⟩, h, by simp [human, IsAnswer], by simp [human, IsAnswer]⟩

theorem obeys_restore (config : Config) (id : String) (now : Nat) (e : HistoryEntry) :
    (e.restore config id now).Obeys config := by
  unfold HistoryEntry.restore
  cases e.role with
  | human => exact ⟨fun _ => ⟨rfl, rfl⟩, fun _ => rfl, by simp [human, IsAnswer],
      by simp [human, IsAnswer]⟩
  | ai => exact ⟨fun hoff => by simp [ai, hoff], fun _ => rfl, by simp [ai, IsAnswer],
      by simp [ai, IsAnswer]⟩

theorem obeys_completed (config : Config) (text : String) (closing : Option Inbound)
    {m : Message} (h : m.Bare) (hrole : m.role = .ai) :
    (Session.completed config text closing m).Obeys config := by
  obtain ⟨hreferences, hurls, _, _, himages, _, _⟩ := h
  cases closing with
  | none => exact ⟨fun _ => ⟨hreferences, hurls⟩, fun _ => himages,
      by simp [Session.completed, IsAnswer, hrole], by simp [Session.completed, IsAnswer, hrole]⟩
  | some f => exact ⟨fun hoff => by simp [Session.completed, Session.addClosing, *],
      fun _ => himages, by simp [Session.completed, Session.addClosing, IsAnswer, hrole],
      by simp [Session.completed, Session.addClosing, IsAnswer, hrole]⟩

end Message

/-- An entry stands for an exchange: it has the id of the answer, shows what has come of it,
and has nothing that only comes with the last frame. -/
structure Exchange.Stands (x : Exchange) (m : Message) : Prop where
  id : m.id = x.placeholder
  role : m.role = .ai
  thinks : x.streaming = false → m.kind = .thinking ∧ m.text = "" ∧ m.html = ""
  streams : x.streaming = true → m.kind = .message ∧ m.html = Markup.render .streaming m.text
  bare : m.Bare

/-- Entries are settled, except for the last one if there is an exchange in flight, which
that one stands for. -/
def Displays : Option Exchange → List Message → Prop
  | none, entries => ∀ m ∈ entries, m.Settled
  | some x, entries => ∃ before entry, entries = before ++ [entry] ∧ x.Stands entry ∧
    ∀ m ∈ before, m.Settled

namespace Displays

variable {x : Exchange} {before : List Message} {entry : Message}

@[simp] theorem none_iff {entries : List Message} :
    Displays none entries ↔ ∀ m ∈ entries, m.Settled :=
  Iff.rfl

theorem some_concat_iff :
    Displays (some x) (before ++ [entry]) ↔ x.Stands entry ∧ ∀ m ∈ before, m.Settled := by
  constructor
  · rintro ⟨before', entry', heq, hstands, hbefore⟩
    obtain ⟨rfl, hentry⟩ := List.append_inj' heq rfl
    obtain rfl := List.singleton_inj.1 hentry
    exact ⟨hstands, hbefore⟩
  · rintro ⟨hstands, hbefore⟩
    exact ⟨before, entry, rfl, hstands, hbefore⟩

theorem singleton_iff {m : Message} : Displays (some x) [m] ↔ x.Stands m := by
  have hconcat : Displays (some x) ([] ++ [m]) ↔ _ := some_concat_iff
  simpa using hconcat

/-- What has arrived is of no concern to what is displayed, as long as it is not shown. -/
theorem map_chunks {exchange : Option Exchange} {entries : List Message}
    (h : Displays exchange entries) (chunks : String → String) :
    Displays (exchange.map fun x => { x with chunks := chunks x.chunks }) entries := by
  cases exchange with
  | none => exact h
  | some x =>
    obtain ⟨before, entry, rfl, hstands, hbefore⟩ := h
    exact ⟨before, entry, rfl,
      ⟨hstands.id, hstands.role, hstands.thinks, hstands.streams, hstands.bare⟩, hbefore⟩

/-- Settled entries may be put ahead, whatever their ids are. -/
theorem append {exchange : Option Exchange} {old entries : List Message}
    (h : Displays exchange entries) (hsettled : ∀ m ∈ old, m.Settled) :
    Displays exchange (old ++ entries) := by
  cases exchange with
  | none => exact List.forall_mem_append.2 ⟨hsettled, h⟩
  | some x =>
    obtain ⟨before, entry, rfl, hstands, hbefore⟩ := h
    rw [← List.append_assoc, some_concat_iff]
    exact ⟨hstands, List.forall_mem_append.2 ⟨hsettled, hbefore⟩⟩

end Displays

namespace Session

/-- What is on screen in any state of a run: the entries display the exchange, whose id was
drawn. -/
structure Screen (b : Backend ω κ) (s : Session ω κ) : Prop where
  drawn : ∀ x, s.exchange = some x → ∃ n < s.drawn, x.placeholder = b.newId n
  displays : Displays s.exchange s.transcript

/-- The ids that were drawn differ from every other id in use: of each there is at most one on
screen. -/
def Fresh (b : Backend ω κ) (s : Session ω κ) : Prop :=
  ∀ n < s.drawn, (s.transcript.map Message.id).count (b.newId n) ≤ 1

instance (b : Backend ω κ) (s : Session ω κ) : Decidable (s.Fresh b) :=
  inferInstanceAs (Decidable (∀ n < s.drawn, _))

variable {b : Backend ω κ} {s t : Session ω κ} {old : List Message}

section Dropped

variable {x : Exchange} {before : List Message} {entry : Message}

/-- The last entry is one of those with its id, and goes away with them. -/
theorem filter_concat_id (hid : entry.id = x.placeholder) :
    (before ++ [entry]).filter (fun m => m.id ≠ x.placeholder) =
      before.filter fun m => m.id ≠ x.placeholder := by
  simp [List.filter_append, hid]

namespace Screen

/-- The entry of an exchange comes last. -/
theorem last (h : s.Screen b) (hx : s.exchange = some x) :
    ∃ before entry, s.transcript = before ++ [entry] ∧ x.Stands entry ∧
      ∀ m ∈ before, m.Settled := by
  have hdisplays := h.displays
  rw [hx] at hdisplays
  exact hdisplays

theorem settled (h : s.Screen b) (hx : s.exchange = none) : ∀ m ∈ s.transcript, m.Settled := by
  have hdisplays := h.displays
  rw [hx] at hdisplays
  exact hdisplays

/-- As long as ids are fresh, no entry ahead of it has its id. -/
theorem apart (h : s.Screen b) (hfresh : s.Fresh b) (hx : s.exchange = some x)
    (hlast : s.transcript = before ++ [entry]) (hid : entry.id = x.placeholder) :
    ∀ m ∈ before, m.id ≠ x.placeholder := by
  obtain ⟨n, hn, hdrawn⟩ := h.drawn x hx
  have hcount := hfresh n hn
  rw [hlast, List.map_append, List.count_append, List.map_singleton, hid, hdrawn,
    List.count_singleton_self] at hcount
  have hnone : b.newId n ∉ before.map Message.id := List.count_eq_zero.1 (by omega)
  intro m hm heq
  exact hnone (List.mem_map.2 ⟨m, hm, heq.trans hdrawn⟩)

/-- So it is the only one that goes away. -/
theorem filter_apart (h : s.Screen b) (hfresh : s.Fresh b) (hx : s.exchange = some x)
    (hlast : s.transcript = before ++ [entry]) (hid : entry.id = x.placeholder) :
    s.transcript.filter (fun m => m.id ≠ x.placeholder) = before := by
  rw [hlast, filter_concat_id hid]
  exact List.filter_eq_self.2 fun m hm => by simpa using h.apart hfresh hx hlast hid m hm

end Screen

end Dropped

/-! ## Restored entries -/

theorem mem_restored {config : Config} {first now : Nat} {entries : List HistoryEntry}
    {m : Message} (hm : m ∈ restored b config first now entries) : m.Settled ∧ m.Obeys config := by
  obtain ⟨e, -, rfl⟩ := List.mem_map.1 hm
  exact ⟨Message.settled_restore .., Message.obeys_restore ..⟩

/-- What is restored is settled and keeps to the switches. -/
theorem Loads.mem_old (h : Loads b s t old) {m : Message} (hm : m ∈ old) :
    m.Settled ∧ m.Obeys s.config := by
  cases h.restores with
  | nothing => cases hm
  | history _ outside now =>
    revert hm
    cases (b.history _ outside).1 with
    | error e => rintro ⟨⟩
    | ok entries => exact mem_restored

/-- Restoring history keeps the screen in order. -/
theorem Screen.of_loads (h : s.Screen b) (hloads : Loads b s t old)
    (hexchange : ∃ chunks : String → String,
      t.exchange = s.exchange.map fun x => { x with chunks := chunks x.chunks }) :
    t.Screen b := by
  obtain ⟨chunks, hexchange⟩ := hexchange
  constructor
  · intro y hy
    rw [hexchange] at hy
    obtain ⟨x, hx, rfl⟩ := Option.map_eq_some_iff.1 hy
    obtain ⟨n, hn, hdrawn⟩ := h.drawn x hx
    exact ⟨n, by rw [hloads.drawn]; omega, hdrawn⟩
  · rw [hexchange, hloads.transcript]
    exact (h.displays.append fun m hm => (hloads.mem_old hm).1).map_chunks chunks

end Session
end Chat
end AnswerStream
