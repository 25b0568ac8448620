import AnswerStream.Proofs.Scan.Steps

/-!
# A scan on one tape

`Progress` keeps what is written into each open region apart.  A scan can as well write everything
to the end of one text, its output, and remember for each open region where its content starts.
The entry text of a region is then written when the region is entered, and has to be cut off again
if the region is left with nothing inside.  Such a `Tape` works with offsets into its output, and
offsets can go wrong: a frame may start beyond the end, a subtraction may fall below zero, and a cut
may hit the middle of a character, for offsets count bytes.

Here every such operation is checked, and what fails a check has no result.  `sub?`, `slice?`,
`truncate?` and the lookups by index are the checks of single operations.  `Tape.checked` asks
after each change of the tape whether its frames still fit (`Tape.Fits`).

## Why nothing fails

The tape is determined by the regions: `Progress.tape` lays them out one after the other.  The
frames of such a tape fit (`Progress.fits_tape`), and each operation of a tape does there what the
operation of the scan does (`Progress.write?_tape`, `leave?_tape`, `follow?_tape` and others).  So
no operation has to be followed through the checks more than once.
-/

namespace AnswerStream
namespace Scan

open Text

/-! ## Checked operations -/

/-- A difference, unless it is below zero. -/
def sub? (m n : Nat) : Option Nat := if n ≤ m then some (m - n) else none

/-- A sum, unless it is above the limit. -/
def add? (limit m n : Nat) : Option Nat := if m + n ≤ limit then some (m + n) else none

/-- The `n` characters from place `i` on, if there are as many. -/
def slice? (cs : List Char) (i n : Nat) : Option (List Char) :=
  if i + n ≤ cs.length then some ((cs.drop i).take n) else none

/-- The character before place `i`, if there is one.  It has to be found where one should be. -/
def preceding? (cs : List Char) (i : Nat) : Option (Option Char) :=
  if i = 0 then some none else (cs[i - 1]?).map some

/-- The first `n` bytes of a text, if a character ends there. -/
def truncate? (s : String) (n : Nat) : Option String :=
  if h : String.Pos.Raw.IsValid s ⟨n⟩ then some (s.sliceTo ⟨⟨n⟩, h⟩).copy else none

theorem sub?_add (m n : Nat) : sub? (m + n) n = some m := by
  rw [sub?, if_pos (Nat.le_add_left n m), Nat.add_sub_cancel]

/-- What follows the text `before`, which is read backwards. -/
theorem slice?_append (before taken ws : List Char) :
    slice? (before.reverse ++ (taken ++ ws)) before.length taken.length = some taken := by
  rw [← before.length_reverse, slice?, if_pos (by simp), List.drop_left, List.take_left]

theorem preceding?_append (before cs : List Char) :
    preceding? (before.reverse ++ cs) before.length = some before.head? := by
  cases before with
  | nil => rfl
  | cons c before => simp [preceding?]

/-- A text that was appended can be cut off again. -/
theorem truncate?_append (a b : String) : truncate? (a ++ b) a.utf8ByteSize = some a := by
  have hvalid : String.Pos.Raw.IsValid (a ++ b) ⟨a.utf8ByteSize⟩ :=
    String.Pos.Raw.isValid_iff_exists_append.2 ⟨a, b, rfl, rfl⟩
  rw [truncate?, dif_pos hvalid]
  exact congrArg some ((String.Pos.splits _).eq_left ⟨rfl, rfl⟩)

variable {σ : Type}

/-! ## The tape -/

/-- An open region on a tape. -/
structure Frame (σ : Type) where
  /-- Its state. -/
  state : σ
  /-- The delimiter that opened it. -/
  pair : Option Char
  /-- How many bytes of output there were when its entry text had been written. -/
  openedAt : Nat
  /-- How many bytes its entry text has. -/
  entryLength : Nat

/-- A scan that writes everything to the end of one text. -/
structure Tape (σ : Type) where
  /-- What was written. -/
  out : String := ""
  /-- The open regions, outermost first. -/
  frames : List (Frame σ) := []
  /-- The token being collected. -/
  pending : String := ""
  /-- The character of the input before that token. -/
  before : Option Char := none

namespace Tape

/-- The frames lie in the output, and each of them starts after the ones around it. -/
structure Fits (p : Tape σ) : Prop where
  /-- A frame has room for its entry text, and starts within the output. -/
  inside : ∀ f ∈ p.frames, f.entryLength ≤ f.openedAt ∧ f.openedAt ≤ p.out.utf8ByteSize
  /-- The entry text of a frame comes after the start of the frames around it. -/
  nested : p.frames.Pairwise fun f g => f.openedAt ≤ g.openedAt - g.entryLength

instance (p : Tape σ) : Decidable p.Fits :=
  decidable_of_iff
    ((∀ f ∈ p.frames, f.entryLength ≤ f.openedAt ∧ f.openedAt ≤ p.out.utf8ByteSize) ∧
      p.frames.Pairwise fun f g => f.openedAt ≤ g.openedAt - g.entryLength)
    ⟨fun h => ⟨h.1, h.2⟩, fun h => ⟨h.inside, h.nested⟩⟩

/-- The tape, if its frames fit. -/
def checked (p : Tape σ) : Option (Tape σ) := if p.Fits then some p else none

variable (t : Table σ)

/-- The state of the innermost region. -/
def current (p : Tape σ) : σ :=
  match p.frames.getLast? with
  | none => t.initial
  | some f => f.state

/-- The delimiter of the innermost region. -/
def pair (p : Tape σ) : Option Char :=
  match p.frames.getLast? with
  | none => none
  | some f => f.pair

/-- Whether nothing was written in the innermost region. -/
def fresh (p : Tape σ) : Bool :=
  match p.frames.getLast? with
  | none => true
  | some f => p.out.utf8ByteSize = f.openedAt

/-- Write to the end of the output. -/
def write? (text : String) (p : Tape σ) : Option (Tape σ) :=
  checked { p with out := p.out ++ text }

/-- Open a region. -/
def enter? (s : σ) (pair : Option Char) (p : Tape σ) : Option (Tape σ) :=
  let out := p.out ++ (t.rules s).entry
  checked { p with
    out := out
    frames := p.frames ++
      [{ state := s, pair, openedAt := out.utf8ByteSize,
         entryLength := (t.rules s).entry.utf8ByteSize }] }

/-- Close the innermost region: write its exit text, or cut off its entry text if nothing was
written after that. -/
def leave? (p : Tape σ) : Option (Tape σ) :=
  match p.frames.getLast? with
  | none => some p
  | some f =>
    if p.out.utf8ByteSize = f.openedAt then do
      let size ← sub? f.openedAt f.entryLength
      let out ← truncate? p.out size
      checked { p with out, frames := p.frames.dropLast }
    else checked { p with out := p.out ++ (t.rules f.state).exit, frames := p.frames.dropLast }

/-- Add rewritten text to the token, which starts at place `i` if it was empty. -/
def collect? (text : String) (cs : List Char) (i : Nat) (p : Tape σ) : Option (Tape σ) :=
  if text = "" then some p
  else if p.pending = "" then do
    let before ← preceding? cs i
    return { p with pending := text, before }
  else some { p with pending := p.pending ++ text }

/-- Finish the token and write it. -/
def flush? (source target : σ) (own : Option (Token σ → String)) (p : Tape σ) : Option (Tape σ) :=
  let k : Token σ := { text := p.pending, source, target, before := p.before, fresh := p.fresh }
  { p with pending := "", before := none }.write? (Progress.written t own k)

/-- The state that a target leads to. -/
def destination? (target : Target σ) (p : Tape σ) : Option σ :=
  match target with
  | .stay => some (p.current t)
  | .state s => some s
  | .pop =>
    if 1 < p.frames.length then (p.frames[p.frames.length - 2]?).map Frame.state
    else some t.initial

/-- Write consumed text if this is the place for it. -/
def writeAt? (here place : Placement) (text : String) (p : Tape σ) : Option (Tape σ) :=
  if here = place then p.write? text else some p

/-- Enter the initial state if no region is open. -/
def reenter? (p : Tape σ) : Option (Tape σ) :=
  if p.frames = [] then p.enter? t t.initial none else some p

/-- The `n` characters from place `i` on as a transition of the state `source` writes them. -/
def consumed? (tr : Transition σ) (source : σ) (cs : List Char) (i n : Nat) : Option String :=
  if n = 0 ∨ tr.place = .drop then some ""
  else (slice? cs i n).map (Progress.rewritten t source tr.chars)

/-- Leave the innermost region, unless the next one is to lie inside it. -/
def depart? (nested : Bool) (p : Tape σ) : Option (Tape σ) :=
  if nested then some p else p.leave? t

/-- Go to the target of a transition. -/
def move? (tr : Transition σ) (ch : Char) (text : String) (p : Tape σ) : Option (Tape σ) :=
  match tr.target with
  | .stay => p.writeAt? .between tr.place text
  | .pop => do
    let p ← p.leave? t
    let p ← p.writeAt? .between tr.place text
    p.reenter? t
  | .state s => do
    let p ← p.depart? t tr.nested
    let p ← p.writeAt? .between tr.place text
    p.enter? t s (tr.delimiter ch)

/-- Write consumed text inside the region that was entered, or carry it into the next token. -/
def arrive? (place : Placement) (text : String) (cs : List Char) (i : Nat) (p : Tape σ) :
    Option (Tape σ) :=
  match place with
  | .opening => p.write? text
  | .carry => p.collect? text cs i
  | _ => some p

/-- Follow a transition at the character `ch` that consumes `n` characters from place `i` on. -/
def follow? (tr : Transition σ) (cs : List Char) (i n : Nat) (ch : Char) (p : Tape σ) :
    Option (Tape σ) := do
  let source := p.current t
  let target ← p.destination? t tr.target
  let text ← consumed? t tr source cs i n
  let p ← p.flush? t source target tr.tokens
  let p ← p.writeAt? .closing tr.place text
  let p ← p.move? t tr ch text
  p.arrive? tr.place text cs i

/-- Let the character at place `i` join the token. -/
def keep? (cs : List Char) (i : Nat) (p : Tape σ) : Option (Tape σ) := do
  let taken ← slice? cs i 1
  p.collect? (Progress.rewritten t (p.current t) none taken) cs i

/-- Close `n` regions, which must be all. -/
def close? : Nat → Tape σ → Option (Tape σ)
  | 0, p => if p.frames = [] then some p else none
  | n + 1, p => do
    let p ← p.leave? t
    close? n p

/-- Finish the last token and close every region. -/
def finish? (p : Tape σ) : Option String := do
  let p ← p.flush? t (p.current t) t.initial none
  let p ← p.close? t p.frames.length
  return p.out

end Tape

/-! ## Regions laid out on a tape -/

/-- What a tape has in its output: the content of each region after that of the one around it and
its own entry text. -/
def Table.output (t : Table σ) (outside : String) : List (Region σ) → String
  | [] => outside
  | r :: rs => t.output outside rs ++ (t.rules r.state).entry ++ r.content

/-- The frame of the region `r` inside the regions `rs`. -/
def Table.frame (t : Table σ) (outside : String) (r : Region σ) (rs : List (Region σ)) :
    Frame σ where
  state := r.state
  pair := r.pair
  openedAt := (t.output outside rs ++ (t.rules r.state).entry).utf8ByteSize
  entryLength := (t.rules r.state).entry.utf8ByteSize

/-- The frames of regions that are laid out on a tape. -/
def Table.layout (t : Table σ) (outside : String) : List (Region σ) → List (Frame σ)
  | [] => []
  | r :: rs => t.layout outside rs ++ [t.frame outside r rs]

/-- The content of a region starts after its entry text, and that after all around it. -/
theorem Table.openedAt_frame (t : Table σ) (outside : String) (r : Region σ)
    (rs : List (Region σ)) : (t.frame outside r rs).openedAt =
      (t.output outside rs).utf8ByteSize + (t.frame outside r rs).entryLength :=
  String.utf8ByteSize_append

namespace Progress

variable (t : Table σ)

/-- The tape of a scan. -/
def tape (p : Progress σ) : Tape σ where
  out := t.output p.outside p.regions
  frames := t.layout p.outside p.regions
  pending := p.pending
  before := p.before

variable {t}

theorem layout_fits (outside : String) (rs : List (Region σ)) :
    (∀ f ∈ t.layout outside rs,
      f.entryLength ≤ f.openedAt ∧ f.openedAt ≤ (t.output outside rs).utf8ByteSize) ∧
    (t.layout outside rs).Pairwise fun f g => f.openedAt ≤ g.openedAt - g.entryLength := by
  induction rs with
  | nil => simp [Table.layout]
  | cons r rs ih =>
    obtain ⟨hinside, hnested⟩ := ih
    have hopened := t.openedAt_frame outside r rs
    constructor
    · intro f hf
      have hsize : (t.output outside (r :: rs)).utf8ByteSize =
          (t.frame outside r rs).openedAt + r.content.utf8ByteSize := String.utf8ByteSize_append
      rcases List.mem_append.1 hf with hf | hf
      · have hle := hinside f hf
        omega
      · obtain rfl := List.mem_singleton.1 hf
        omega
    · refine List.pairwise_append.2 ⟨hnested, List.pairwise_singleton _ _, fun f hf g hg => ?_⟩
      obtain rfl := List.mem_singleton.1 hg
      have hle := (hinside f hf).2
      omega

/-- The frames of a scan fit. -/
theorem fits_tape (p : Progress σ) : (p.tape t).Fits where
  inside := (layout_fits p.outside p.regions).1
  nested := (layout_fits p.outside p.regions).2

/-- A tape that is laid out passes the check. -/
theorem checked_of_eq {q : Tape σ} {p : Progress σ} (h : q = p.tape t) :
    q.checked = some (p.tape t) := by
  rw [h]
  exact if_pos p.fits_tape

/-- The innermost region has the last frame. -/
theorem getLast?_frames_tape {p : Progress σ} {r : Region σ} {rs : List (Region σ)}
    (h : p.regions = r :: rs) :
    (p.tape t).frames.getLast? = some (t.frame p.outside r rs) := by
  rw [tape, h, Table.layout, List.getLast?_concat]

@[simp] theorem current_tape (p : Progress σ) : (p.tape t).current t = p.current t := by
  unfold Tape.current current
  cases h : p.regions with
  | nil => simp [tape, h, Table.layout]
  | cons r rs =>
    rw [getLast?_frames_tape h]
    rfl

@[simp] theorem pair_tape (p : Progress σ) : (p.tape t).pair = p.pair := by
  unfold Tape.pair pair
  cases h : p.regions with
  | nil => simp [tape, h, Table.layout]
  | cons r rs =>
    rw [getLast?_frames_tape h]
    rfl

@[simp] theorem fresh_tape (p : Progress σ) : (p.tape t).fresh = p.fresh := by
  unfold Tape.fresh fresh
  cases h : p.regions with
  | nil => simp [tape, h, Table.layout]
  | cons r rs =>
    rw [getLast?_frames_tape h]
    simp [tape, h, Table.output, Table.frame]

/-- Writing goes to the end of the output. -/
theorem tape_write (text : String) (p : Progress σ) :
    (p.write text).tape t = { p.tape t with out := (p.tape t).out ++ text } := by
  unfold write
  split
  · simp [tape, *, Table.output, Table.layout]
  · simp [tape, *, Table.output, Table.layout, Table.frame, String.append_assoc]

@[simp] theorem write?_tape (text : String) (p : Progress σ) :
    (p.tape t).write? text = some ((p.write text).tape t) := by
  rw [Tape.write?, checked_of_eq (tape_write text p).symm]

@[simp] theorem enter?_tape (s : σ) (pair : Option Char) (p : Progress σ) :
    (p.tape t).enter? t s pair = some ((p.enter s pair).tape t) := by
  refine checked_of_eq ?_
  simp [tape, enter, Table.output, Table.layout, Table.frame]

/-- Leaving a region writes its exit text, or cuts off its entry text. -/
@[simp] theorem leave?_tape (p : Progress σ) :
    (p.tape t).leave? t = some ((p.leave t).tape t) := by
  unfold Tape.leave? leave
  cases h : p.regions with
  | nil => simp [tape, h, Table.layout]
  | cons r rs =>
    have hout : (p.tape t).out =
        t.output p.outside rs ++ (t.rules r.state).entry ++ r.content := by
      rw [tape, h, Table.output]
    have hframes : (p.tape t).frames.dropLast = t.layout p.outside rs := by
      rw [tape, h, Table.layout, List.dropLast_concat]
    have hsize : (t.output p.outside rs ++ (t.rules r.state).entry ++ r.content).utf8ByteSize =
        (t.frame p.outside r rs).openedAt + r.content.utf8ByteSize := String.utf8ByteSize_append
    rw [getLast?_frames_tape h, hout, hframes, hsize]
    by_cases hc : r.content = ""
    · -- The entry text is the end of the output, so cutting it off leaves what was there before.
      simp only [hc, String.append_empty, String.utf8ByteSize_empty, Nat.add_zero, if_true,
        Table.wrap]
      rw [t.openedAt_frame, sub?_add, Option.bind_eq_bind, Option.bind_some, truncate?_append,
        Option.bind_eq_bind, Option.bind_some]
      refine checked_of_eq ?_
      rw [tape_write]
      simp [tape]
    · have hne : (t.frame p.outside r rs).openedAt + r.content.utf8ByteSize ≠
          (t.frame p.outside r rs).openedAt := by simp [hc]
      simp only [if_neg hne, Table.wrap, if_neg hc]
      refine checked_of_eq ?_
      rw [tape_write]
      simp [tape, Table.frame, String.append_assoc]

@[simp] theorem collect?_tape (text : String) (before cs : List Char) (p : Progress σ) :
    (p.tape t).collect? text (before.reverse ++ cs) before.length =
      some ((p.collect text before).tape t) := by
  unfold Tape.collect? collect
  split
  · rfl
  · have hpending : (p.tape t).pending = p.pending := rfl
    rw [hpending]
    split
    · rw [preceding?_append]
      rfl
    · rfl

@[simp] theorem flush?_tape (source target : σ) (own : Option (Token σ → String))
    (p : Progress σ) :
    (p.tape t).flush? t source target own = some ((p.flush t source target own).tape t) := by
  rw [Tape.flush?, fresh_tape, flush, ← write?_tape]
  rfl

@[simp] theorem destination?_tape (target : Target σ) (p : Progress σ) :
    (p.tape t).destination? t target = some (p.destination t target) := by
  cases target with
  | stay => simp [Tape.destination?, destination]
  | state s => rfl
  | pop =>
    unfold Tape.destination? destination
    rcases h : p.regions with _ | ⟨r, _ | ⟨r', rs⟩⟩
    · simp [tape, h, Table.layout]
    · simp [tape, h, Table.layout]
    · simp [tape, h, Table.layout, Table.frame]

@[simp] theorem writeAt?_tape (here place : Placement) (text : String) (p : Progress σ) :
    (p.tape t).writeAt? here place text = some ((p.writeAt here place text).tape t) := by
  unfold Tape.writeAt? writeAt
  split
  · exact write?_tape _ _
  · rfl

@[simp] theorem reenter?_tape (p : Progress σ) :
    (p.tape t).reenter? t = some ((p.reenter t).tape t) := by
  unfold Tape.reenter? reenter
  cases h : p.regions with
  | nil => rw [if_pos (by simp [tape, h, Table.layout]), enter?_tape]
  | cons r rs => rw [if_neg (by simp [tape, h, Table.layout])]

/-- The consumed characters are rewritten, if they are not dropped. -/
theorem consumed?_append (tr : Transition σ) (source : σ) (before taken ws : List Char) :
    Tape.consumed? t tr source (before.reverse ++ (taken ++ ws)) before.length taken.length =
      some (if tr.place = .drop then "" else rewritten t source tr.chars taken) := by
  unfold Tape.consumed?
  by_cases hdrop : tr.place = .drop
  · rw [if_pos (Or.inr hdrop), if_pos hdrop]
  · rw [if_neg hdrop]
    cases taken with
    | nil => simp [rewritten]
    | cons c taken => rw [if_neg (by simp [hdrop]), slice?_append, Option.map_some]

/-- A transition does to a tape what it does to the scan. -/
theorem follow?_tape (tr : Transition σ) (before taken ws : List Char) (ch : Char)
    (p : Progress σ) :
    (p.tape t).follow? t tr (before.reverse ++ (taken ++ ws)) before.length taken.length ch =
      some ((p.follow t tr before ch taken).tape t) := by
  simp only [Tape.follow?, follow, current_tape, destination?_tape, consumed?_append, flush?_tape,
    writeAt?_tape, Option.bind_eq_bind, Option.bind_some]
  generalize (if tr.place = .drop then "" else rewritten t (p.current t) tr.chars taken) = text
  generalize ((p.flush t (p.current t) (p.destination t tr.target) tr.tokens).writeAt .closing
    tr.place text) = q
  unfold Tape.move? Tape.depart? Tape.arrive?
  cases tr.target with
  | stay => cases tr.place <;> simp
  | pop => cases tr.place <;> simp
  | state s => cases tr.place <;> cases tr.nested <;> simp

theorem keep?_tape (before cs : List Char) (ch : Char) (p : Progress σ) :
    (p.tape t).keep? t (before.reverse ++ ch :: cs) before.length =
      some ((p.keep t before ch).tape t) := by
  have hslice : slice? (before.reverse ++ ch :: cs) before.length 1 = some [ch] :=
    slice?_append before [ch] cs
  rw [Tape.keep?, hslice, Option.bind_eq_bind, Option.bind_some, current_tape, collect?_tape]
  rfl

@[simp] theorem length_frames_tape (p : Progress σ) :
    (p.tape t).frames.length = p.regions.length := by
  show (t.layout p.outside p.regions).length = _
  induction p.regions with
  | nil => rfl
  | cons r rs ih =>
    rw [Table.layout, List.length_append, ih]
    rfl

/-- Closing every region leaves the output that the regions come to. -/
theorem exists_close?_tape (p : Progress σ) :
    ∃ q : Tape σ, (p.tape t).close? t p.regions.length = some q ∧
      q.out = Progress.close t p.outside p.regions "" := by
  induction hn : p.regions.length generalizing p with
  | zero =>
    have hr : p.regions = [] := List.length_eq_zero_iff.1 hn
    refine ⟨p.tape t, ?_, ?_⟩
    · simp [tape, hr, Table.layout, Tape.close?]
    · simp [tape, hr, Table.output, Progress.close]
  | succ n ih =>
    obtain ⟨r, rs, hr⟩ := List.exists_cons_of_length_eq_add_one hn
    obtain ⟨q, hq, hout⟩ := ih (p.leave t) (by simpa [leave, hr] using hn)
    refine ⟨q, ?_, ?_⟩
    · rw [Tape.close?, leave?_tape, Option.bind_eq_bind, Option.bind_some, hq]
    · rw [hout, ← close_eq_close_leave (by simp [hr])]

/-- A tape comes to the markup that the scan comes to. -/
theorem finish?_tape (p : Progress σ) : (p.tape t).finish? t = some (p.complete t) := by
  obtain ⟨q, hq, hout⟩ := exists_close?_tape (t := t)
    (p.flush t (p.current t) t.initial none)
  simp only [Tape.finish?, current_tape, flush?_tape, length_frames_tape, Option.bind_eq_bind,
    Option.bind_some, hq, hout]
  rfl

end Progress

end Scan
end AnswerStream
