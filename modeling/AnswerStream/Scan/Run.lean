import AnswerStream.Scan.Table

/-!
# Running a table

A scan holds a stack of open regions, each with the text written inside it so
far, and the token being collected.  What is written goes into the innermost
region; when a region is left, its text moves out into the one around it, wrapped
in the region's entry and exit text.  A region in which nothing was written
leaves nothing behind, not even its wrapper.

## Visiting a character

Each character is visited once.  A visit first follows transitions that consume
nothing, which only move the scan between states; at most `hopLimit` of them, so
states that send the character back and forth cannot hold the scan for ever.
After that the character is consumed, in one of two ways: a transition takes it,
perhaps with characters after it, or it joins the token.

A transition that consumes nothing and would not move the scan, or comes after
the limit, is the end of the matter: no later transition is tried, and the
character joins the token.
-/

namespace AnswerStream
namespace Scan

open Text

/-- An open region. -/
structure Region (σ : Type) where
  /-- Its state. -/
  state : σ
  /-- The delimiter that opened it. -/
  pair : Option Char
  /-- What was written inside it. -/
  content : String

/-- A scan under way. -/
structure Progress (σ : Type) where
  /-- What was written outside every region. -/
  outside : String := ""
  /-- The open regions, innermost first. -/
  regions : List (Region σ) := []
  /-- The token being collected. -/
  pending : String := ""
  /-- The character of the input before that token. -/
  before : Option Char := none
  /-- The tokens finished so far, the latest first. -/
  finished : List (Token σ) := []

/-- How many transitions that consume nothing may follow each other at one
character. -/
def hopLimit : Nat := 16

variable {σ : Type} (t : Table σ)

/-! ## Regions -/

/-- The text of a finished region.  An empty one has none. -/
def Table.wrap (r : Region σ) : String :=
  if r.content = "" then "" else (t.rules r.state).entry ++ r.content ++ (t.rules r.state).exit

namespace Progress

/-- The state of the innermost region. -/
def current (p : Progress σ) : σ :=
  match p.regions with
  | [] => t.initial
  | r :: _ => r.state

/-- The delimiter of the innermost region. -/
def pair (p : Progress σ) : Option Char :=
  match p.regions with
  | [] => none
  | r :: _ => r.pair

/-- Whether nothing was written in the innermost region. -/
def fresh (p : Progress σ) : Bool :=
  match p.regions with
  | [] => true
  | r :: _ => r.content = ""

/-- Write into the innermost region. -/
def write (text : String) (p : Progress σ) : Progress σ :=
  match p.regions with
  | [] => { p with outside := p.outside ++ text }
  | r :: rs => { p with regions := { r with content := r.content ++ text } :: rs }

/-- Open a region inside the innermost one. -/
def enter (state : σ) (pair : Option Char) (p : Progress σ) : Progress σ :=
  { p with regions := { state, pair, content := "" } :: p.regions }

/-- Close the innermost region and hand its text to the one around it. -/
def leave (p : Progress σ) : Progress σ :=
  match p.regions with
  | [] => p
  | r :: rs => { p with regions := rs }.write (t.wrap r)

@[simp] theorem regions_enter (state : σ) (pair : Option Char) (p : Progress σ) :
    (p.enter state pair).regions = { state, pair, content := "" } :: p.regions := rfl

@[simp] theorem fresh_enter (state : σ) (pair : Option Char) (p : Progress σ) :
    (p.enter state pair).fresh = true := rfl

@[simp] theorem current_enter (state : σ) (pair : Option Char) (p : Progress σ) :
    (p.enter state pair).current t = state := rfl

/-- Writing opens and closes nothing. -/
@[simp] theorem length_regions_write (text : String) (p : Progress σ) :
    (p.write text).regions.length = p.regions.length := by
  unfold write
  split <;> simp_all

/-- A scan that leaves the region it has just entered is where it was. -/
theorem leave_enter (state : σ) (pair : Option Char) (p : Progress σ) :
    (p.enter state pair).leave t = p.write "" := by
  simp [leave, enter, Table.wrap]

/-! ## Tokens -/

/-- Characters as the state `s` writes them, unless `own` says how. -/
def rewritten (s : σ) (own : Option (Char → String)) (cs : List Char) : String :=
  rewrite ((own <|> (t.rules s).chars).getD t.chars) cs

/-- Add rewritten text to the token.  The first text of a token fixes the
character before it. -/
def collect (text : String) (before : List Char) (p : Progress σ) : Progress σ :=
  if text = "" then p
  else if p.pending = "" then { p with pending := text, before := before.head? }
  else { p with pending := p.pending ++ text }

/-- The token being collected, as it stands when the scan moves from the state
`source` to the state `target`. -/
def token (source target : σ) (p : Progress σ) : Token σ where
  text := p.pending
  source := source
  target := target
  before := p.before
  fresh := p.fresh

/-- How a token is written: by `own`, else by the rules of its state, else as it
is. -/
def written (own : Option (Token σ → String)) (k : Token σ) : String :=
  match own <|> (t.rules k.source).tokens with
  | some f => f k
  | none => k.text

/-- Finish the token and write it into the innermost region. -/
def flush (source target : σ) (own : Option (Token σ → String)) (p : Progress σ) : Progress σ :=
  let k := p.token source target
  { p with pending := "", before := none, finished := k :: p.finished }.write (written t own k)

/-! ## Transitions -/

/-- The state that a target leads to. -/
def destination (target : Target σ) (p : Progress σ) : σ :=
  match target with
  | .stay => p.current t
  | .state s => s
  | .pop =>
    match p.regions with
    | _ :: r :: _ => r.state
    | _ => t.initial

/-- Write consumed text if this is the place for it. -/
def writeAt (here place : Placement) (text : String) (p : Progress σ) : Progress σ :=
  if here = place then p.write text else p

/-- Enter the initial state if no region is open. -/
def reenter (p : Progress σ) : Progress σ :=
  match p.regions with
  | [] => p.enter t.initial none
  | _ :: _ => p

/-- Follow a transition at the character `ch` that consumes the characters
`taken`, which start after the text `before`. -/
def follow (tr : Transition σ) (before : List Char) (ch : Char) (taken : List Char)
    (p : Progress σ) : Progress σ :=
  let source := p.current t
  let place := tr.place
  let text := if place = .drop then "" else rewritten t source tr.chars taken
  let p := (p.flush t source (p.destination t tr.target) tr.tokens).writeAt .closing place text
  let p :=
    match tr.target with
    | .stay => p.writeAt .between place text
    | .pop => ((p.leave t).writeAt .between place text).reenter t
    | .state s =>
      let p := if tr.nested then p else p.leave t
      (p.writeAt .between place text).enter s (tr.delimiter ch)
  match place with
  | .opening => p.write text
  | .carry => p.collect text before
  | _ => p

/-! ## The run -/

/-- What the rules see at a character. -/
def look (before : List Char) (ch : Char) (after : List Char) (p : Progress σ) : Context where
  before := before
  ch := ch
  after := after
  pair := p.pair

/-- The transition that fires at a character. -/
def firing (before : List Char) (ch : Char) (after : List Char) (p : Progress σ) :
    Option (Transition σ) :=
  (t.rules (p.current t)).transitions.find? fun tr => tr.fires (p.look before ch after)

/-- Let a character join the token. -/
def keep (before : List Char) (ch : Char) (p : Progress σ) : Progress σ :=
  p.collect (rewritten t (p.current t) none [ch]) before

variable [DecidableEq σ]

/-- Visit a character with `hops` moves to spend.  The number says how many
characters after it were consumed with it. -/
def visit (before : List Char) (ch : Char) (after : List Char) :
    Nat → Progress σ → Progress σ × Nat
  | hops, p =>
    match p.firing t before ch after with
    | none => (p.keep t before ch, 0)
    | some tr =>
      if tr.zeroWidth then
        if tr.moves (p.current t) then
          match hops with
          | 0 => (p.keep t before ch, 0)
          | hops + 1 => visit before ch after hops (p.follow t tr before ch [])
        else (p.keep t before ch, 0)
      else
        let more := after.take (tr.reach (p.look before ch after))
        (p.follow t tr before ch (ch :: more), more.length)

/-- Scan the text after `before`, of which the first `skip` characters are
already consumed. -/
def scan : (before : List Char) → (text : List Char) → (skip : Nat) → Progress σ → Progress σ
  | _, [], _, p => p
  | before, ch :: after, skip + 1, p => scan (ch :: before) after skip p
  | before, ch :: after, 0, p =>
    let visited := p.visit t before ch after hopLimit
    scan (ch :: before) after visited.2 visited.1

/-- Close every region, the innermost first, and return all that was written. -/
def close (outside : String) : List (Region σ) → String → String
  | [], inner => outside ++ inner
  | r :: rs, inner => close outside rs (t.wrap { r with content := r.content ++ inner })

end Progress

namespace Table

variable [DecidableEq σ]

/-- A scan before its first character: the initial state is open. -/
def start : Progress σ := Progress.enter t.initial none {}

/-- A scan after its last character, with its last token finished. -/
def finish (text : String) : Progress σ :=
  let p := t.start.scan t [] text.toList 0
  p.flush t (p.current t) t.initial none

/-- The markup of a text. -/
def run (text : String) : String :=
  let p := t.finish text
  Progress.close t p.outside p.regions ""

/-- The tokens of a text, in order. -/
def tokens (text : String) : List (Token σ) := (t.finish text).finished.reverse

end Table

end Scan
end AnswerStream
