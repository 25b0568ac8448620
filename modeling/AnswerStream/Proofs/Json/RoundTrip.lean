import AnswerStream.Json.Reader
import AnswerStream.Proofs.Json.Written

/-!
# Reading what was written

`parse?_print`: a value that is written and read again is the same value, however deeply it
nests and whatever stands in its strings.  The one condition is on numbers, whose digits after
the point have to be digits.

A value and the text that is written of it have the same tokens, `tokens`, which are laid out
as the text is: a comma between the items of a list and between the fields of an object.  So
there are two halves.  The text is read as these tokens (`reads_print`), and these tokens
spell the value (`spells`).
-/

namespace AnswerStream
namespace Json

open Token

/-- All numbers in a value are well formed. -/
inductive WellFormed : Json → Prop where
  | null : WellFormed .null
  | bool (b : Bool) : WellFormed (.bool b)
  | number {n : Number} (h : n.WellFormed) : WellFormed (.number n)
  | string (s : Str) : WellFormed (.string s)
  | array {items : List Json} (h : ∀ v ∈ items, v.WellFormed) : WellFormed (.array items)
  | object {fields : List (Str × Json)} (h : ∀ f ∈ fields, f.2.WellFormed) :
    WellFormed (.object fields)

mutual

/-- The tokens of a value. -/
def tokens : Json → List Token
  | .null => [.null]
  | .bool b => [.bool b]
  | .number n => [.number n]
  | .string s => [.string s]
  | .array items => .openArray :: ([.comma].intercalate (itemTokens items) ++ [.closeArray])
  | .object fields => .openObject :: ([.comma].intercalate (fieldTokens fields) ++ [.closeObject])

/-- The tokens of the items of a list. -/
def itemTokens : List Json → List (List Token)
  | [] => []
  | v :: vs => v.tokens :: itemTokens vs

/-- The tokens of the fields of an object. -/
def fieldTokens : List (Str × Json) → List (List Token)
  | [] => []
  | (name, v) :: fields => (.string name :: .colon :: v.tokens) :: fieldTokens fields

end

theorem itemTokens_eq (items : List Json) : itemTokens items = items.map tokens := by
  induction items with
  | nil => rfl
  | cons v vs ih => rw [itemTokens, ih, List.map_cons]

theorem fieldTokens_eq (fields : List (Str × Json)) :
    fieldTokens fields = fields.map fun f => .string f.1 :: .colon :: f.2.tokens := by
  induction fields with
  | nil => rfl
  | cons f fields ih => rw [fieldTokens, ih, List.map_cons]

theorem printItems_eq (items : List Json) : printItems items = items.map print := by
  induction items with
  | nil => rfl
  | cons v vs ih => rw [printItems, ih, List.map_cons]

theorem printFields_eq (fields : List (Str × Json)) :
    printFields fields = fields.map fun f => printStr f.1 ++ ":" ++ f.2.print := by
  induction fields with
  | nil => rfl
  | cons f fields ih => rw [printFields, ih, List.map_cons]

/-! ## Tokens from the text -/

section Separated

variable {α : Type} {text : α → String} {toks : α → List Token}

/-- Texts with commas between them and a bracket at the end are read as their tokens with
commas between them. -/
theorem closes_separated {c : Char} {k : Token} (hc : Punctuation c k) {xs : List α}
    (h : ∀ x ∈ xs, Reads (text x).toList (toks x)) :
    Closes ((",".intercalate (xs.map text)).toList ++ [c])
      ([.comma].intercalate (xs.map toks) ++ [k]) := by
  have hcomma : Punctuation ',' .comma := ⟨⟨rfl, rfl⟩, fun _ => rfl⟩
  induction xs with
  | nil =>
    have hempty : Closes [] [] := fun done => rfl
    exact hempty.reads.closes hc
  | cons x xs ih =>
    obtain ⟨hx, hxs⟩ := List.forall_mem_cons.1 h
    cases xs with
    | nil => simpa [String.toList_intercalate] using hx.closes hc
    | cons y ys => simpa [String.toList_intercalate] using (hx.closes hcomma).trans (ih hxs)

end Separated

theorem reads_field (name : Str) {v : Json} (h : Reads v.print.toList v.tokens) :
    Reads (printStr name ++ ":" ++ v.print).toList (.string name :: .colon :: v.tokens) := by
  have hcolon : Punctuation ':' .colon := ⟨⟨rfl, rfl⟩, fun _ => rfl⟩
  have hname := (closes_str name).reads.closes hcolon
  simpa using hname.append h

/-- **What is written of a value is read as its tokens.** -/
theorem reads_print {j : Json} (h : j.WellFormed) : Reads j.print.toList j.tokens := by
  induction h with
  | null => exact reads_null
  | bool b => exact reads_bool b
  | number hn => exact reads_number hn
  | string s => exact (closes_str s).reads
  | @array items _ ih =>
    have hopen : Closes ['['] [.openArray] := fun done => rfl
    have hclose : Punctuation ']' .closeArray := ⟨⟨rfl, rfl⟩, fun _ => rfl⟩
    have hitems := closes_separated hclose ih
    rw [print, tokens, printItems_eq, itemTokens_eq]
    simpa using (hopen.trans hitems).reads
  | @object fields _ ih =>
    have hopen : Closes ['\x7b'] [.openObject] := fun done => rfl
    have hclose : Punctuation '\x7d' .closeObject := ⟨⟨rfl, rfl⟩, fun _ => rfl⟩
    have hread : ∀ f ∈ fields, Reads (printStr f.1 ++ ":" ++ f.2.print).toList
        (.string f.1 :: .colon :: f.2.tokens) := fun f hf => reads_field f.1 (ih f hf)
    have hfields := closes_separated hclose hread
    rw [print, tokens, printFields_eq, fieldTokens_eq]
    simpa using (hopen.trans hfields).reads

/-! ## The value from the tokens -/

/-- The tokens of a value are read as that value, wherever it stands. -/
def Spelled (v : Json) : Prop :=
  ∀ stack, v.tokens.foldlM Reading.step { stack } = some { stack, stage := .after v }

/-- All but the first of several lists come after a separator. -/
theorem intercalate_cons {α : Type} (sep : α) (xs : List α) (xss : List (List α)) :
    [sep].intercalate (xs :: xss) = xs ++ xss.flatMap (sep :: ·) := by
  induction xss generalizing xs with
  | nil => simp
  | cons ys yss ih => simp [List.intercalate_cons_cons, ih]

/-- No value begins with the end of a list, so its first item is read as any other. -/
theorem step_firstItem (v : Json) (ks : List Token) (stack : List Open) :
    (v.tokens ++ ks).foldlM Reading.step { stack, stage := .firstItem } =
      (v.tokens ++ ks).foldlM Reading.step { stack := .array [] :: stack } := by
  cases v <;> rfl

/-- The items of a list after its first one. -/
theorem foldlM_items {vs : List Json} (h : ∀ w ∈ vs, w.Spelled) (v : Json) (done : List Json)
    (stack : List Open) :
    ((itemTokens vs).flatMap (Token.comma :: ·) ++ [Token.closeArray]).foldlM Reading.step
        { stack := .array done :: stack, stage := .after v } =
      some { stack, stage := .after (.array (done.reverse ++ v :: vs)) } := by
  induction vs generalizing v done with
  | nil => simp [itemTokens, Reading.step, Reading.afterValue]
  | cons w ws ih =>
    obtain ⟨hw, hws⟩ := List.forall_mem_cons.1 h
    have hcomma : Reading.step { stack := .array done :: stack, stage := .after v } .comma =
        some { stack := .array (v :: done) :: stack } := rfl
    simpa [itemTokens, hcomma, hw (.array (v :: done) :: stack)] using ih hws w (v :: done)

/-- A field of an object. -/
theorem foldlM_field {f : Str × Json} (h : f.2.Spelled) (done : List (Str × Json))
    (stack : List Open) :
    (Token.string f.1 :: .colon :: f.2.tokens).foldlM Reading.step
        { stack, stage := .name done } =
      some { stack := .object done f.1 :: stack, stage := .after f.2 } := by
  have hname : Reading.step { stack, stage := .name done } (.string f.1) =
      some { stack, stage := .colon done f.1 } := rfl
  have hcolon : Reading.step { stack, stage := .colon done f.1 } .colon =
      some { stack := .object done f.1 :: stack } := rfl
  simp [hname, hcolon, h (.object done f.1 :: stack)]

/-- The fields of an object after its first one. -/
theorem foldlM_fields {fields : List (Str × Json)} (h : ∀ g ∈ fields, g.2.Spelled)
    (f : Str × Json) (done : List (Str × Json)) (stack : List Open) :
    ((fieldTokens fields).flatMap (Token.comma :: ·) ++ [Token.closeObject]).foldlM Reading.step
        { stack := .object done f.1 :: stack, stage := .after f.2 } =
      some { stack, stage := .after (.object (done.reverse ++ f :: fields)) } := by
  induction fields generalizing f done with
  | nil => simp [fieldTokens, Reading.step, Reading.afterValue]
  | cons g gs ih =>
    obtain ⟨hg, hgs⟩ := List.forall_mem_cons.1 h
    have hcomma : Reading.step { stack := .object done f.1 :: stack, stage := .after f.2 } .comma =
        some { stack, stage := .name (f :: done) } := rfl
    rw [fieldTokens, List.flatMap_cons, List.append_assoc, List.cons_append, List.foldlM_cons,
      hcomma, Option.bind_eq_bind, Option.bind_some, List.foldlM_append, foldlM_field hg]
    simpa using ih hgs g (f :: done)

/-- **The tokens of a value spell it.** -/
theorem WellFormed.spelled {j : Json} (h : j.WellFormed) : j.Spelled := by
  induction h with
  | null => exact fun stack => rfl
  | bool b => exact fun stack => rfl
  | number hn => exact fun stack => rfl
  | string s => exact fun stack => rfl
  | @array items _ ih =>
    intro stack
    have hopen : Reading.step { stack } .openArray = some { stack, stage := .firstItem } := rfl
    rw [tokens, List.foldlM_cons, hopen, Option.bind_eq_bind, Option.bind_some]
    cases items with
    | nil => rfl
    | cons v vs =>
      obtain ⟨hv, hvs⟩ := List.forall_mem_cons.1 ih
      rw [itemTokens, intercalate_cons, List.append_assoc, step_firstItem, List.foldlM_append,
        hv]
      exact foldlM_items hvs v [] stack
  | @object fields _ ih =>
    intro stack
    have hopen : Reading.step { stack } .openObject = some { stack, stage := .firstName } := rfl
    rw [tokens, List.foldlM_cons, hopen, Option.bind_eq_bind, Option.bind_some]
    cases fields with
    | nil => rfl
    | cons f fields =>
      obtain ⟨hf, hfields⟩ := List.forall_mem_cons.1 ih
      have hfirst : ∀ ks, (Token.string f.1 :: ks).foldlM Reading.step
          { stack, stage := .firstName } =
        (Token.string f.1 :: ks).foldlM Reading.step { stack, stage := .name [] } := fun _ => rfl
      rw [fieldTokens, intercalate_cons, List.append_assoc, List.cons_append, hfirst,
        ← List.cons_append, List.foldlM_append, foldlM_field hf]
      exact foldlM_fields hfields f [] stack

/-! ## The round trip -/

theorem ofChars?_print {j : Json} (h : j.WellFormed) :
    Token.ofChars? j.print.toList = some j.tokens := by
  obtain ⟨s, hs, hhas⟩ := reads_print h []
  rw [Token.ofChars?, hs, Option.bind_eq_bind, Option.bind_some, hhas.settle]
  simp

/-- **What is written of a value is read as that value.** -/
theorem parse?_print {j : Json} (h : j.WellFormed) : parse? j.print = some j := by
  rw [parse?, ofChars?_print h, Option.bind_eq_bind, Option.bind_some, ofTokens?, h.spelled []]
  rfl

/-! ## Values that are not well formed -/

mutual

/-- What is written of a value is written of a well-formed one. -/
theorem exists_wellFormed : ∀ j : Json, ∃ j' : Json, j'.WellFormed ∧ j'.print = j.print
  | .null => ⟨.null, .null, rfl⟩
  | .bool b => ⟨.bool b, .bool b, rfl⟩
  | .number n =>
    have ⟨n', hn', heq⟩ := n.exists_wellFormed
    ⟨.number n', .number hn', heq⟩
  | .string s => ⟨.string s, .string s, rfl⟩
  | .array items =>
    have ⟨items', hitems', heq⟩ := exists_wellFormed_items items
    ⟨.array items', .array hitems', by rw [print, print, heq]⟩
  | .object fields =>
    have ⟨fields', hfields', heq⟩ := exists_wellFormed_fields fields
    ⟨.object fields', .object hfields', by rw [print, print, heq]⟩

theorem exists_wellFormed_items : ∀ items : List Json, ∃ items' : List Json,
    (∀ v ∈ items', v.WellFormed) ∧ printItems items' = printItems items
  | [] => ⟨[], List.forall_mem_nil _, rfl⟩
  | v :: vs =>
    have ⟨v', hv', heq⟩ := exists_wellFormed v
    have ⟨vs', hvs', heq'⟩ := exists_wellFormed_items vs
    ⟨v' :: vs', List.forall_mem_cons.2 ⟨hv', hvs'⟩, by rw [printItems, printItems, heq, heq']⟩

theorem exists_wellFormed_fields : ∀ fields : List (Str × Json), ∃ fields' : List (Str × Json),
    (∀ f ∈ fields', f.2.WellFormed) ∧ printFields fields' = printFields fields
  | [] => ⟨[], List.forall_mem_nil _, rfl⟩
  | (name, v) :: fields =>
    have ⟨v', hv', heq⟩ := exists_wellFormed v
    have ⟨fields', hfields', heq'⟩ := exists_wellFormed_fields fields
    ⟨(name, v') :: fields', List.forall_mem_cons.2 ⟨hv', hfields'⟩,
      by rw [printFields, printFields, heq, heq']⟩

end

end Json
end AnswerStream
