import AnswerStream.Json.Printer
import AnswerStream.Json.Token
import AnswerStream.Text.Escape
import AnswerStream.Proofs.Text.Trim

/-!
# Numbers and strings as they are written

What is written of a number or a string is one token, and reading it gives the number or the
string back.

## Where a token ends

A string ends with its quote, but a number or a word only ends where something else begins.
So a scan that has read one is not at rest: `Scan.Has` says which tokens it has read if the
text ends here or goes on with a separator.  `Reads` is the same of a text, whatever was read
before it.

## Numbers

The three parts of a number are told apart by the characters with which they begin: digits
are taken as long as there are any, and neither the point nor the mark of the power is one
(`Number.ofChars?_print`).
-/

namespace AnswerStream
namespace Json

open Text Token

/-! ## Digits -/

theorem ofDigits_toDigits (n : Nat) : ofDigits (Nat.toDigits 10 n) = n := by
  have hsame : ∀ ds, ofDigits ds = Nat.ofDigitChars 10 ds 0 := by
    intro ds
    unfold ofDigits Nat.ofDigitChars
    congr 1
    funext k d
    rw [Nat.mul_comm]
    rfl
  rw [hsame, Nat.ofDigitChars_toDigits (by decide) (by decide)]

theorem isDigit_of_mem_toDigits {n : Nat} : ∀ c ∈ Nat.toDigits 10 n, c.isDigit = true :=
  fun _ hc => Nat.isDigit_of_mem_toDigits (by decide) (by decide) hc

/-- A number other than zero does not begin with a zero. -/
theorem head_toDigits {n : Nat} (hn : 0 < n) : (Nat.toDigits 10 n).head? ≠ some '0' := by
  induction n using Nat.strongRecOn with
  | ind n ih =>
    rw [Nat.toDigits_eq_if (by decide)]
    split
    · rw [List.head?_cons, Ne, Option.some_inj, Nat.digitChar_eq_zero]
      omega
    · rw [head?_append_left Nat.toDigits_ne_nil]
      exact ih (n / 10) (by omega) (by omega)

/-- The digits of a number may stand before a point. -/
theorem toDigits_leading (n : Nat) :
    ((Nat.toDigits 10 n).isEmpty ||
      ((Nat.toDigits 10 n).head? == some '0' && (Nat.toDigits 10 n).length != 1)) = false := by
  rcases Nat.eq_zero_or_pos n with rfl | hn
  · rfl
  · simp [head_toDigits hn]

/-! ## Numbers -/

namespace Number

/-- The digits after the point are digits. -/
def WellFormed (n : Number) : Prop := ∀ d ∈ n.fraction, d < 10

/-- The part of a number after the digits before the point, as it is written. -/
def printFraction (n : Number) : List Char :=
  if n.fraction = [] then [] else '.' :: n.fraction.map Nat.digitChar

/-- The power of ten, as it is written. -/
def printExponent (n : Number) : List Char :=
  match n.exponent with
  | none => []
  | some (.ofNat e) => 'e' :: Nat.toDigits 10 e
  | some (.negSucc e) => 'e' :: '-' :: Nat.toDigits 10 (e + 1)

theorem digits_fraction {ds : List Nat} (h : ∀ d ∈ ds, d < 10) :
    ds.flatMap (Nat.toDigits 10) = ds.map Nat.digitChar := by
  induction ds with
  | nil => rfl
  | cons d ds ih =>
    obtain ⟨hd, hds⟩ := List.forall_mem_cons.1 h
    rw [List.flatMap_cons, ih hds, Nat.toDigits_of_lt_base hd]
    rfl

theorem toList_print {n : Number} (h : n.WellFormed) :
    n.print.toList = (if n.negative then ['-'] else []) ++
      (Nat.toDigits 10 n.whole ++ (n.printFraction ++ n.printExponent)) := by
  have hsign : (if n.negative then "-" else "").toList = if n.negative then ['-'] else [] := by
    split <;> rfl
  have hfraction : (if n.fraction.isEmpty then "" else
      "." ++ String.join (n.fraction.map toString)).toList = n.printFraction := by
    unfold printFraction
    by_cases hnil : n.fraction = []
    · simp [hnil]
    · rw [if_neg (by simpa using hnil), if_neg hnil, String.toList_append, String.toList_join,
        List.flatMap_map, ← digits_fraction h]
      simp
  rw [print, String.toList_append, String.toList_append, String.toList_append, hsign, hfraction]
  unfold printExponent
  cases n.exponent with
  | none => simp
  | some e => cases e <;> simp [Int.repr]

/-- What follows the digits before the point does not begin with one. -/
theorem head_printExponent (n : Number) : ∀ c ∈ n.printExponent.head?, c = 'e' := by
  unfold printExponent
  split <;> simp

theorem head_printFraction (n : Number) :
    ∀ c ∈ (n.printFraction ++ n.printExponent).head?, c = '.' ∨ c = 'e' := by
  unfold printFraction
  split
  · exact fun c hc => Or.inr (n.head_printExponent c hc)
  · simp

/-- The digits after the point are read up to the power. -/
theorem readFraction_print {n : Number} (h : n.WellFormed) :
    readFraction (n.printFraction ++ n.printExponent) = some (n.fraction, n.printExponent) := by
  have hend : ∀ c ∈ n.printExponent.head?, c.isDigit = false := fun c hc => by
    rw [n.head_printExponent c hc]
    rfl
  unfold printFraction
  split
  · rename_i hnil
    rw [List.nil_append, hnil]
    cases hexp : n.printExponent with
    | nil => rfl
    | cons c cs =>
      obtain rfl : c = 'e' := n.head_printExponent c (by rw [hexp]; rfl)
      rfl
  · rename_i hne
    have hdigits : ∀ c ∈ n.fraction.map Nat.digitChar, c.isDigit = true := by
      simpa [WellFormed] using h
    have hvalues : (n.fraction.map Nat.digitChar).map (fun d => d.toNat - 48) = n.fraction := by
      rw [List.map_map]
      refine (List.map_congr_left fun d hd => ?_).trans (List.map_id _)
      simp [Nat.toNat_digitChar_of_lt_ten (h d hd)]
    rw [List.cons_append, readFraction]
    rw [takeWhile_append_eq hdigits hend, dropWhile_append_eq hdigits hend, hvalues,
      if_neg (by simpa using hne)]

theorem readPower_toDigits (negative : Bool) (e : Nat) :
    readPower negative (Nat.toDigits 10 e) = some (some (if negative then -(e : Int) else e)) := by
  have hall : (Nat.toDigits 10 e).all Char.isDigit = true :=
    List.all_eq_true.2 isDigit_of_mem_toDigits
  unfold readPower
  rw [hall, ofDigits_toDigits, if_neg (by simp [Nat.toDigits_ne_nil])]

theorem readExponent_print (n : Number) : readExponent n.printExponent = some n.exponent := by
  unfold printExponent
  split
  · rename_i hexp
    rw [hexp]
    rfl
  · rename_i e hexp
    have hpower := readPower_toDigits false e
    rw [hexp]
    cases hdigits : Nat.toDigits 10 e with
    | nil => exact absurd hdigits Nat.toDigits_ne_nil
    | cons d ds =>
      have hd : d.isDigit = true := isDigit_of_mem_toDigits d (by rw [hdigits]; simp)
      have hsign : d ≠ '-' ∧ d ≠ '+' := by
        constructor <;> rintro rfl <;> cases hd
      rw [hdigits] at hpower
      rw [readExponent, if_pos (Or.inl rfl)]
      · simpa using hpower
      · exact fun _ heq => hsign.1 (List.cons.inj heq).1
      · exact fun _ heq => hsign.2 (List.cons.inj heq).1
  · rename_i e hexp
    rw [hexp, readExponent, if_pos (Or.inl rfl)]
    rw [readPower_toDigits, if_pos rfl]
    rfl

/-- A number is read without its sign. -/
theorem readUnsigned_print {n : Number} (h : n.WellFormed) :
    readUnsigned n.negative (Nat.toDigits 10 n.whole ++ (n.printFraction ++ n.printExponent)) =
      some n := by
  have hend : ∀ c ∈ (n.printFraction ++ n.printExponent).head?, c.isDigit = false := by
    intro c hc
    rcases n.head_printFraction c hc with rfl | rfl <;> rfl
  unfold readUnsigned
  dsimp only
  rw [takeWhile_append_eq isDigit_of_mem_toDigits hend,
    dropWhile_append_eq isDigit_of_mem_toDigits hend, if_neg (by simp [toDigits_leading]),
    readFraction_print h, ofDigits_toDigits]
  simp [readExponent_print]

/-- **What is written of a number is read as that number.** -/
theorem ofChars?_print {n : Number} (h : n.WellFormed) : ofChars? n.print.toList = some n := by
  have hread := readUnsigned_print h
  rw [toList_print h]
  cases hsign : n.negative with
  | true =>
    rw [hsign] at hread
    exact hread
  | false =>
    rw [hsign] at hread
    cases hdigits : Nat.toDigits 10 n.whole with
    | nil => exact absurd hdigits Nat.toDigits_ne_nil
    | cons d ds =>
      have hd : d.isDigit = true := isDigit_of_mem_toDigits d (by rw [hdigits]; simp)
      have hminus : d ≠ '-' := by
        rintro rfl
        cases hd
      rw [hdigits] at hread
      simp only [if_neg Bool.false_ne_true, List.nil_append, List.cons_append] at hread ⊢
      rw [ofChars?]
      · exact hread
      · rintro cs heq
        exact hminus (List.cons.inj heq).1

/-- All characters of a number can belong to one, and the first one can begin it. -/
theorem chars_print {n : Number} (h : n.WellFormed) :
    ∃ c cs, n.print.toList = c :: cs ∧ (c = '-' ∨ c.isDigit = true) ∧ ∀ d ∈ cs, inNumber d = true := by
  have hdigits : ∀ (m : Nat), ∀ c ∈ Nat.toDigits 10 m, inNumber c = true := fun m c hc => by
    simp [inNumber, isDigit_of_mem_toDigits c hc]
  have hfraction : ∀ c ∈ n.printFraction, inNumber c = true := by
    unfold printFraction
    split
    · simp
    · rw [← digits_fraction h]
      simp only [List.forall_mem_cons, List.mem_flatMap]
      refine ⟨rfl, ?_⟩
      rintro c ⟨d, -, hc⟩
      exact hdigits d c hc
  have hexponent : ∀ c ∈ n.printExponent, inNumber c = true := by
    unfold printExponent
    split
    · simp
    · exact List.forall_mem_cons.2 ⟨rfl, hdigits _⟩
    · exact List.forall_mem_cons.2 ⟨rfl, List.forall_mem_cons.2 ⟨rfl, hdigits _⟩⟩
  have hrest : ∀ c ∈ Nat.toDigits 10 n.whole ++ (n.printFraction ++ n.printExponent),
      inNumber c = true := by
    simp only [List.forall_mem_append]
    exact ⟨hdigits _, hfraction, hexponent⟩
  rw [toList_print h]
  split
  · exact ⟨'-', _, rfl, Or.inl rfl, hrest⟩
  · cases hwhole : Nat.toDigits 10 n.whole with
    | nil => exact absurd hwhole Nat.toDigits_ne_nil
    | cons d ds =>
      rw [hwhole] at hrest
      exact ⟨d, _, rfl, Or.inr (isDigit_of_mem_toDigits d (by rw [hwhole]; simp)),
        fun c hc => hrest c (List.mem_cons_of_mem _ hc)⟩

/-- Numbers are written as their digits are. -/
theorem exists_digits (ns : List Nat) : ∃ ds : List Nat, (∀ d ∈ ds, d < 10) ∧
    ds.flatMap (Nat.toDigits 10) = ns.flatMap (Nat.toDigits 10) := by
  have hone : ∀ n, ∃ ds : List Nat, (∀ d ∈ ds, d < 10) ∧
      ds.flatMap (Nat.toDigits 10) = Nat.toDigits 10 n := by
    intro n
    induction n using Nat.strongRecOn with
    | ind n ih =>
      rw [Nat.toDigits_eq_if (by decide)]
      split
      · rename_i hn
        exact ⟨[n], by simpa using hn, by simp [Nat.toDigits_of_lt_base hn]⟩
      · have hlast : n % 10 < 10 := Nat.mod_lt n (by decide)
        obtain ⟨ds, hds, heq⟩ := ih (n / 10) (by omega)
        refine ⟨ds ++ [n % 10], List.forall_mem_append.2 ⟨hds, by simpa using hlast⟩, ?_⟩
        rw [List.flatMap_append, heq, List.flatMap_singleton, Nat.toDigits_of_lt_base hlast]
  induction ns with
  | nil => exact ⟨[], by simp, rfl⟩
  | cons n ns ih =>
    obtain ⟨ds, hds, heq⟩ := hone n
    obtain ⟨ds', hds', heq'⟩ := ih
    exact ⟨ds ++ ds', List.forall_mem_append.2 ⟨hds, hds'⟩, by
      rw [List.flatMap_append, heq, heq', List.flatMap_cons]⟩

theorem join_toString (ds : List Nat) :
    String.join (ds.map toString) = String.ofList (ds.flatMap (Nat.toDigits 10)) := by
  apply String.toList_injective
  simp [String.toList_join, List.flatMap_map]

/-- What is written of a number is written of a well-formed one. -/
theorem exists_wellFormed (n : Number) : ∃ n' : Number, n'.WellFormed ∧ n'.print = n.print := by
  obtain ⟨ds, hds, heq⟩ := exists_digits n.fraction
  have hempty : ∀ ns : List Nat, ns.flatMap (Nat.toDigits 10) = [] ↔ ns = [] := fun ns => by
    cases ns <;> simp [Nat.toDigits_ne_nil]
  have hnil : ds = [] ↔ n.fraction = [] := by rw [← hempty ds, heq, hempty]
  refine ⟨{ n with fraction := ds }, hds, ?_⟩
  rw [print, print, join_toString, join_toString, heq]
  simp [hnil]

end Number

/-! ## Scans -/

namespace Token

/-- A character that ends every word and every number. -/
def Separates (c : Char) : Prop := c.isAlpha = false ∧ inNumber c = false

/-- A scan has read these tokens, the latest first, if the text ends here or goes on with a
separator. -/
structure Scan.Has (ks : List Token) (s : Scan) : Prop where
  settle : s.settle = some { tokens := ks }
  step : ∀ c, Separates c → s.step c = Scan.begin? { tokens := ks } c

/-- A text is read as these tokens if it ends or goes on with a separator. -/
def Reads (text : List Char) (ks : List Token) : Prop :=
  ∀ done, ∃ s, text.foldlM Scan.step { tokens := done } = some s ∧ s.Has (ks.reverse ++ done)

/-- A text is read as these tokens, whatever comes next. -/
def Closes (text : List Char) (ks : List Token) : Prop :=
  ∀ done, text.foldlM Scan.step { tokens := done } = some { tokens := ks.reverse ++ done }

/-- A character that is a token. -/
structure Punctuation (c : Char) (k : Token) : Prop where
  separates : Separates c
  begin? : ∀ done, Scan.begin? { tokens := done } c = some { tokens := k :: done }

theorem Closes.reads {text : List Char} {ks : List Token} (h : Closes text ks) : Reads text ks :=
  fun done => ⟨_, h done, rfl, fun _ _ => rfl⟩

theorem Closes.trans {text text' : List Char} {ks ks' : List Token} (h : Closes text ks)
    (h' : Closes text' ks') : Closes (text ++ text') (ks ++ ks') := by
  intro done
  have hrest := h' (ks.reverse ++ done)
  rw [List.foldlM_append, h done]
  simpa using hrest

theorem Closes.append {text text' : List Char} {ks ks' : List Token} (h : Closes text ks)
    (h' : Reads text' ks') : Reads (text ++ text') (ks ++ ks') := by
  intro done
  obtain ⟨s, hs, hhas⟩ := h' (ks.reverse ++ done)
  refine ⟨s, ?_, ?_⟩
  · rw [List.foldlM_append, h done]
    exact hs
  · simpa using hhas

theorem Reads.closes {text : List Char} {ks : List Token} {c : Char} {k : Token}
    (h : Reads text ks) (hc : Punctuation c k) : Closes (text ++ [c]) (ks ++ [k]) := by
  intro done
  obtain ⟨s, hs, hhas⟩ := h done
  rw [List.foldlM_append, hs]
  have hstep : s.step c = some { tokens := k :: (ks.reverse ++ done) } := by
    rw [hhas.step c hc.separates, hc.begin?]
  simpa using hstep

/-! ### Words and numbers -/

theorem Scan.has_word {read : List Char} {k : Token} (h : ofWord? read.reverse = some k)
    (done : List Token) : Scan.Has (k :: done) { tokens := done, mode := .word read } := by
  have hsettle : Scan.settle { tokens := done, mode := .word read } =
      some { tokens := k :: done } := by
    simp [Scan.settle, h]
  refine ⟨hsettle, fun c hc => ?_⟩
  rw [Scan.step]
  simp [hc.1, hsettle]

theorem Scan.has_number {read : List Char} {n : Number} (h : Number.ofChars? read.reverse = some n)
    (done : List Token) :
    Scan.Has (.number n :: done) { tokens := done, mode := .number read } := by
  have hsettle : Scan.settle { tokens := done, mode := .number read } =
      some { tokens := .number n :: done } := by
    simp [Scan.settle, h]
  refine ⟨hsettle, fun c hc => ?_⟩
  rw [Scan.step]
  simp [hc.2, hsettle]

theorem reads_null : Reads "null".toList [.null] := fun done => ⟨_, rfl, Scan.has_word rfl done⟩

theorem reads_bool (b : Bool) : Reads (if b then "true" else "false").toList [.bool b] := by
  cases b with
  | true => exact fun done => ⟨_, rfl, Scan.has_word rfl done⟩
  | false => exact fun done => ⟨_, rfl, Scan.has_word rfl done⟩

/-- A number begins with a sign or a digit. -/
theorem begin?_number {c : Char} (hc : c = '-' ∨ c.isDigit = true) (done : List Token) :
    Scan.begin? { tokens := done } c = some { tokens := done, mode := .number [c] } := by
  have hne : ∀ d : Char, d ≠ '-' → d.isDigit = false → c ≠ d := by
    rintro d hminus hdigit rfl
    rcases hc with hc | hc
    · exact hminus hc
    · rw [hdigit] at hc
      cases hc
  unfold Scan.begin?
  simp [hne ' ' (by decide) rfl, hne '\n' (by decide) rfl, hne '\t' (by decide) rfl,
    hne '\r' (by decide) rfl, hne '[' (by decide) rfl, hne ']' (by decide) rfl,
    hne '\x7b' (by decide) rfl, hne '\x7d' (by decide) rfl, hne ':' (by decide) rfl,
    hne ',' (by decide) rfl, hne '"' (by decide) rfl, hc]

theorem foldlM_number {cs : List Char} (h : ∀ c ∈ cs, inNumber c = true) (done : List Token)
    (read : List Char) :
    cs.foldlM Scan.step { tokens := done, mode := .number read } =
      some { tokens := done, mode := .number (cs.reverse ++ read) } := by
  induction cs generalizing read with
  | nil => rfl
  | cons c cs ih =>
    obtain ⟨hc, hcs⟩ := List.forall_mem_cons.1 h
    have hstep : Scan.step { tokens := done, mode := .number read } c =
        some { tokens := done, mode := .number (c :: read) } := by
      rw [Scan.step]
      simp [hc]
    rw [List.foldlM_cons, hstep]
    simpa using ih hcs (c :: read)

/-- **A number is read as it is written.** -/
theorem reads_number {n : Number} (h : n.WellFormed) : Reads n.print.toList [.number n] := by
  intro done
  obtain ⟨c, cs, hprint, hc, hcs⟩ := Number.chars_print h
  have hread := Number.ofChars?_print h
  rw [hprint] at hread ⊢
  refine ⟨{ tokens := done, mode := .number (cs.reverse ++ [c]) }, ?_,
    Scan.has_number (by simpa using hread) done⟩
  have hbegin : Scan.step { tokens := done } c = some { tokens := done, mode := .number [c] } :=
    begin?_number hc done
  rw [List.foldlM_cons, hbegin]
  exact foldlM_number hcs done [c]

/-! ### Strings -/

theorem hexValue?_hexDigit (n : Nat) : hexValue? (hexDigit n) = some (n % 16) := by
  have hall : ∀ k < 16, hexValue? (hexDigit k) = some k := by decide
  have hmod : hexDigit n = hexDigit (n % 16) := by simp [hexDigit]
  rw [hmod, hall _ (Nat.mod_lt _ (by decide))]

/-- A character is read as its code, however it is written. -/
theorem foldlM_printChar (c : Char) (done : List Token) (read : List Nat) :
    (printChar c).toList.foldlM Scan.step { tokens := done, mode := .string read } =
      some { tokens := done, mode := .string (c.toNat :: read) } := by
  have hcode : c.toNat < 0x20 → (escapeCode c.toNat).toList.foldlM Scan.step
      { tokens := done, mode := .string read } =
        some { tokens := done, mode := .string (c.toNat :: read) } := by
    intro hlt
    have hvalue : ((c.toNat / 4096 % 16 * 16 + c.toNat / 256 % 16) * 16 + c.toNat / 16 % 16) * 16 +
        c.toNat % 16 = c.toNat := by omega
    simp [escapeCode, Scan.step, hexValue?_hexDigit, hvalue]
  have hplain : c ≠ '"' → c ≠ '\\' → ¬ c.toNat < 0x20 → (String.singleton c).toList.foldlM Scan.step
      { tokens := done, mode := .string read } =
        some { tokens := done, mode := .string (c.toNat :: read) } := by
    intro hquote hslash hlt
    simp [Scan.step, hquote, hslash, hlt]
  unfold printChar
  by_cases hquote : c = '"'
  · subst hquote; rfl
  by_cases hslash : c = '\\'
  · subst hslash; rfl
  rw [if_neg hquote, if_neg hslash]
  split
  · rename_i h; subst h; rfl
  split
  · rename_i h; subst h; rfl
  split
  · rename_i h; subst h; rfl
  split
  · rename_i h; subst h; rfl
  split
  · rename_i h; subst h; rfl
  split
  · rename_i hlt
    exact hcode hlt
  · rename_i hlt
    exact hplain hquote hslash hlt

/-- No character is half of a surrogate pair. -/
theorem ofUnits_toNat (cs : List Char) : ofUnits (cs.map Char.toNat) = some cs := by
  induction cs with
  | nil => rfl
  | cons c cs ih =>
    have hvalid : c.toNat < 0xD800 ∨ 0xDFFF < c.toNat := by
      rcases c.valid with h | h
      · exact Or.inl h
      · exact Or.inr h.1
    rw [List.map_cons, ofUnits.eq_def]
    dsimp only
    rw [if_neg (by omega), if_neg (by omega), ih, Char.ofNat_toNat]
    rfl

theorem foldlM_chars (cs : List Char) (done : List Token) (read : List Nat) :
    (cs.flatMap fun c => (printChar c).toList).foldlM Scan.step
        { tokens := done, mode := .string read } =
      some { tokens := done, mode := .string ((cs.map Char.toNat).reverse ++ read) } := by
  induction cs generalizing read with
  | nil => rfl
  | cons c cs ih =>
    rw [List.flatMap_cons, List.foldlM_append, foldlM_printChar]
    simpa using ih (c.toNat :: read)

/-- **A string is read as it is written.** -/
theorem closes_str (s : Str) : Closes (printStr s).toList [.string s] := by
  intro done
  cases s with
  | none =>
    have hunits : ofUnits [0xD800] = none := by
      rw [ofUnits.eq_def]
      rfl
    simp [printStr, Scan.step, Scan.begin?, hexValue?, hunits]
  | some s =>
    have hchars : (s.toList.foldl (fun out c => out ++ printChar c) "").toList =
        s.toList.flatMap fun c => (printChar c).toList := toList_rewrite printChar s.toList
    have htext : (printStr (some s)).toList =
        ['"'] ++ ((s.toList.flatMap fun c => (printChar c).toList) ++ ['"']) := by
      simp [printStr, hchars]
    have hopen : ['"'].foldlM Scan.step { tokens := done } =
        some { tokens := done, mode := .string [] } := rfl
    have hclose : ['"'].foldlM Scan.step
        { tokens := done, mode := .string (s.toList.map Char.toNat).reverse } =
          some { tokens := .string (some s) :: done } := by
      simp [Scan.step, ofUnits_toNat]
    rw [htext, List.foldlM_append, hopen, Option.bind_eq_bind, Option.bind_some,
      List.foldlM_append, foldlM_chars, List.append_nil, Option.bind_eq_bind, Option.bind_some,
      hclose]
    rfl

end Token

end Json
end AnswerStream
