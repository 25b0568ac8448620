import AnswerStream.Scan.Context
import AnswerStream.Text.Escape
import AnswerStream.Text.Quoted
import AnswerStream.Text.Record

/-!
# Rule tables

A table says how a text is cut into regions.  It has states; each state has an
ordered list of transitions, and the first one that fires at a character decides
what becomes of it.  A character that no transition claims joins the token that
is being collected.

The state type is a parameter, so a table for one notation names its states by
its own inductive type and every state has rules by construction.  A state with
no rules of its own has the empty ones.

## Where consumed characters go

A transition that consumes characters has to say on which side of the region
boundary they end up.  That is its `Placement`, and each target has a usual one:
a stay writes them in place, a pop leaves them inside the region it closes, and
entering a state puts them inside the region it opens.
-/

namespace AnswerStream
namespace Scan

open Text

/-- Where a transition sends the scan. -/
inductive Target (σ : Type) where
  /-- Finish the token and keep the state. -/
  | stay
  /-- Return to the enclosing region, or to the initial state if there is none. -/
  | pop
  /-- Enter a state. -/
  | state (s : σ)
  deriving DecidableEq

/-- Where the characters that a transition consumes end up. -/
inductive Placement where
  /-- Inside the region being left, before its exit text. -/
  | closing
  /-- Inside the region being entered, after its entry text. -/
  | opening
  /-- Outside both. -/
  | between
  /-- At the start of the next token. -/
  | carry
  /-- Nowhere. -/
  | drop
  deriving DecidableEq

/-- Which delimiter closes a region that a transition enters. -/
inductive Pairing where
  /-- None in particular. -/
  | none
  /-- The character at which the transition fired. -/
  | trigger
  /-- A fixed character. -/
  | fixed (c : Char)
  deriving DecidableEq

/-- A token at the moment it is finished. -/
structure Token (σ : Type) where
  /-- Its text, already rewritten character by character. -/
  text : String
  /-- The state that collected it. -/
  source : σ
  /-- The state the scan moves to. -/
  target : σ
  /-- The character of the input just before it. -/
  before : Option Char
  /-- Whether its region holds nothing yet. -/
  fresh : Bool

/-- One entry of a state's list. -/
structure Transition (σ : Type) where
  /-- Where the scan goes. -/
  target : Target σ
  /-- The places where the transition fires. -/
  fires : Context → Bool := fun _ => false
  /-- How many characters it consumes beyond the first. -/
  extra : Nat := 0
  /-- The same count, taken from the place where it fires; it has precedence. -/
  measure : Option (Context → Nat) := none
  /-- Whether it consumes nothing, so that its character is looked at again. -/
  zeroWidth : Bool := false
  /-- Whether the state it enters lies inside the current region. -/
  nested : Bool := false
  /-- The delimiter of the region it enters. -/
  pair : Pairing := .none
  /-- Where consumed characters go, if not to the usual place. -/
  placement : Option Placement := none
  /-- How consumed characters are rewritten, if not as in the state it leaves. -/
  chars : Option (Char → String) := none
  /-- How the finished token is written, if not as in the state it leaves. -/
  tokens : Option (Token σ → String) := none

/-- What a table says about one state. -/
structure Rules (σ : Type) where
  /-- Its transitions, in order of preference. -/
  transitions : List (Transition σ) := []
  /-- The text that opens its region. -/
  entry : String := ""
  /-- The text that closes its region. -/
  exit : String := ""
  /-- How its characters are rewritten, if not as in the table. -/
  chars : Option (Char → String) := none
  /-- How its tokens are written, if not as they are. -/
  tokens : Option (Token σ → String) := none

/-- States, their rules, and how characters are rewritten where no rule says
otherwise. -/
structure Table (σ : Type) where
  /-- The table's name. -/
  name : String
  /-- The state in which a scan starts. -/
  initial : σ
  /-- The states that have rules. -/
  states : List σ
  /-- The rules of every state. -/
  rules : σ → Rules σ
  /-- The usual rewriting of a character. -/
  chars : Char → String := escapeChar

namespace Transition

variable {σ : Type}

/-- The placement of a transition: its own, or the usual one of its target. -/
def place (t : Transition σ) : Placement :=
  match t.placement with
  | some p => p
  | none =>
    match t.target with
    | .stay => .between
    | .pop => .closing
    | .state _ => .opening

/-- The number of characters a transition takes beyond the first. -/
def reach (t : Transition σ) (c : Context) : Nat :=
  match t.measure with
  | some f => f c
  | none => t.extra

/-- Whether firing in the state `s` without consuming anything would change
where the scan stands.  A stay does not, nor does replacing a state by itself. -/
def moves [DecidableEq σ] (t : Transition σ) (s : σ) : Bool :=
  match t.target with
  | .stay => false
  | .pop => true
  | .state q => t.nested || q ≠ s

/-- The delimiter of the region that a transition opens at the character `ch`. -/
def delimiter (t : Transition σ) (ch : Char) : Option Char :=
  match t.pair with
  | .none => none
  | .trigger => some ch
  | .fixed c => some c

@[simp] theorem place_of_some {t : Transition σ} {p : Placement} (h : t.placement = some p) :
    t.place = p := by
  simp [place, h]

@[simp] theorem reach_of_none {t : Transition σ} (h : t.measure = none) (c : Context) :
    t.reach c = t.extra := by
  simp [reach, h]

end Transition

/-- A region wrapped in a `span` of the given class. -/
def Rules.span {σ : Type} (cls : String) (transitions : List (Transition σ))
    (tokens : Option (Token σ → String) := none) : Rules σ where
  transitions := transitions
  entry := "<span class=\"" ++ cls ++ "\">"
  exit := "</span>"
  tokens := tokens

/-- A region wrapped in a tag that has no attributes. -/
def Rules.tagged {σ : Type} (tag : String) (transitions : List (Transition σ))
    (tokens : Option (Token σ → String) := none) : Rules σ where
  transitions := transitions
  entry := "<" ++ tag ++ ">"
  exit := "</" ++ tag ++ ">"
  tokens := tokens

/-! ## Tables and transitions in messages -/

namespace Target

/-- A target in a message. -/
def describe {σ : Type} (label : σ → String) : Target σ → String
  | .stay => "Stay"
  | .pop => "Pop"
  | .state s => showCall "State" [quote (label s)]

end Target

namespace Placement

/-- A placement in a message. -/
def describe : Placement → String
  | .closing => "Closing"
  | .opening => "Opening"
  | .between => "Between"
  | .carry => "Carry"
  | .drop => "Drop"

end Placement

namespace Pairing

/-- The source of a delimiter in a message. -/
def describe : Pairing → String
  | .none => "None"
  | .trigger => "Trigger"
  | .fixed c => showCall "Fixed" [quoteChar c]

end Pairing

/-- A transition in a message.  What it computes is not shown. -/
def Transition.describe {σ : Type} (label : σ → String) (t : Transition σ) : String :=
  showOpenRecord "Transition"
    [("target", t.target.describe label), ("step", toString t.extra),
      ("zero_width", showBool t.zeroWidth), ("nest", showBool t.nested),
      ("pair", t.pair.describe), ("placement", showOption (t.placement.map Placement.describe))]

/-- What can be said of a table without running it. -/
structure Summary where
  /-- The table's name. -/
  name : String
  /-- The name of its initial state. -/
  initial : String
  /-- The names of its states, in alphabetical order. -/
  states : List String
  deriving DecidableEq

/-- The names of a table's states, sorted. -/
def Table.summary {σ : Type} (label : σ → String) (t : Table σ) : Summary where
  name := t.name
  initial := label t.initial
  states := (t.states.map label).mergeSort (· ≤ ·)

/-- A table in a message. -/
def Summary.describe (s : Summary) : String :=
  showRecord "RuleTable"
    [("name", quote s.name), ("initial", quote s.initial),
      ("states", showList (s.states.map quote))]

end Scan
end AnswerStream
