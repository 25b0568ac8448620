import AnswerStream.Json.Value

/-!
# Reading values as data

A decoder takes a value apart and refuses what does not fit.  A record may be
written as an object, in which unknown fields are ignored and a known one must
not occur twice, or as a list of its fields in order, of which some may be
missing at the end.  A name out of a fixed set may be written as a string, or as
an object whose only field has that name and no content.
-/

namespace AnswerStream
namespace Json

/-- A text. -/
def text? : Json → Option String
  | .string s => s
  | _ => none

/-- A truth value. -/
def bool? : Json → Option Bool
  | .bool b => some b
  | _ => none

/-- A natural number of at most 64 bits, written as an integer. -/
def Number.natural? (n : Number) : Option Nat :=
  if !n.negative ∧ n.fraction = [] ∧ n.exponent = none ∧ n.whole < UInt64.size then some n.whole
  else none

/-- A natural number of at most 64 bits. -/
def natural? : Json → Option Nat
  | .number n => n.natural?
  | _ => none

/-- A list whose items are read by `f`. -/
def list? {α : Type} (f : Json → Option α) : Json → Option (List α)
  | .array items => items.mapM f
  | _ => none

/-- Null, or a value read by `f`. -/
def optional? {α : Type} (f : Json → Option α) : Json → Option (Option α)
  | .null => some none
  | v => (f v).map some

/-- The fields of a record whose field names, in order, are `names`. -/
def record? (names : List String) : Json → Option (List (String × Json))
  | .object fields => do
    let named ← fields.mapM fun f => f.1.map fun name => (name, f.2)
    let known := named.filter fun f => names.contains f.1
    if (known.map Prod.fst).Nodup then some known else none
  | .array items => if items.length ≤ names.length then some (names.zip items) else none
  | _ => none

/-- The field `name` read by `f`, or `absent` if it is missing. -/
def fieldD {α : Type} (fields : List (String × Json)) (name : String) (f : Json → Option α)
    (absent : Option α) : Option α :=
  match List.lookup name fields with
  | some v => f v
  | none => absent

/-- A name out of a fixed set. -/
def named? {α : Type} (names : List (String × α)) : Json → Option α
  | .string s => s.bind fun name => List.lookup name names
  | .object [(some name, .null)] => List.lookup name names
  | _ => none

/-- The field `name` of an object, the first if there are several. -/
def get? (name : String) : Json → Option Json
  | .object fields => List.lookup (some name) fields
  | _ => none

@[simp] theorem fieldD_nil {α : Type} (name : String) (f : Json → Option α) (absent : Option α) :
    fieldD [] name f absent = absent := rfl

@[simp] theorem fieldD_cons_self {α : Type} (name : String) (v : Json)
    (fields : List (String × Json)) (f : Json → Option α) (absent : Option α) :
    fieldD ((name, v) :: fields) name f absent = f v := by
  simp [fieldD]

@[simp] theorem fieldD_cons_of_ne {α : Type} {name other : String} (h : name ≠ other) (v : Json)
    (fields : List (String × Json)) (f : Json → Option α) (absent : Option α) :
    fieldD ((other, v) :: fields) name f absent = fieldD fields name f absent := by
  simp [fieldD, List.lookup_cons, beq_false_of_ne h]

@[simp] theorem text?_ofText (s : String) : (ofText s).text? = some s := rfl

@[simp] theorem bool?_bool (b : Bool) : (bool b).bool? = some b := rfl

theorem natural?_ofNat {n : Nat} (h : n < UInt64.size) : (ofNat n).natural? = some n := by
  simp [natural?, Number.natural?, ofNat, h]

theorem get?_ofFields (name : String) (fields : List (String × Json)) :
    (ofFields fields).get? name = List.lookup name fields := by
  rw [ofFields, get?]
  induction fields with
  | nil => rfl
  | cons f fields ih =>
    obtain ⟨other, v⟩ := f
    simp [List.lookup_cons, ih]

/-- What the items of a list are read as, the list is read as. -/
theorem list?_array {α : Type} {f : Json → Option α} {g : α → Json} {xs : List α}
    (h : ∀ x ∈ xs, f (g x) = some x) : list? f (.array (xs.map g)) = some xs := by
  simp only [list?]
  induction xs with
  | nil => rfl
  | cons x xs ih =>
    obtain ⟨hx, hxs⟩ := List.forall_mem_cons.1 h
    simp [hx, ih hxs]

/-- A value that is not null is read, and null as none. -/
theorem optional?_ofOption {α : Type} {f : Json → Option α} {g : α → Json} {x : Option α}
    (h : ∀ a ∈ x, f (g a) = some a) (hnull : ∀ a, g a ≠ .null) :
    optional? f (ofOption (x.map g)) = some x := by
  cases x with
  | none => rfl
  | some a =>
    rw [Option.map_some, ofOption, optional?, h a rfl, Option.map_some]
    exact hnull a

/-- An object whose fields are known and in order, of which some may be missing, is read as
these fields. -/
theorem record?_ofFields {names : List String} {fields : List (String × Json)}
    (h : (fields.map Prod.fst).Sublist names) (hnames : names.Nodup) :
    (ofFields fields).record? names = some fields := by
  have hnamed : (fields.map fun f => ((some f.1 : Str), f.2)).mapM
      (fun f => f.1.map fun name => (name, f.2)) = some fields := by
    clear h
    induction fields with
    | nil => rfl
    | cons f fields ih => simp [ih]
  have hknown : fields.filter (fun f => names.contains f.1) = fields :=
    List.filter_eq_self.2 fun f hf =>
      List.contains_iff_mem.2 (h.subset (List.mem_map_of_mem hf))
  rw [ofFields, record?, hnamed]
  simp only [Option.bind_eq_bind, Option.bind_some, hknown]
  exact if_pos (h.nodup hnames)

end Json
end AnswerStream
