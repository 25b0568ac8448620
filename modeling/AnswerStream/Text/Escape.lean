/-!
# Escaping for markup

Text becomes markup one character at a time: a rewriting gives the text of each
character, and the results are joined.  The rewriting that makes text safe names
the three characters that could be read as markup: the ampersand and the two
angle brackets.  Quotes are left alone, so escaped text is safe between tags and
not inside an attribute.
-/

namespace AnswerStream
namespace Text

/-- Each character rewritten by `f`, joined in order. -/
def rewrite (f : Char → String) (cs : List Char) : String :=
  cs.foldl (fun out c => out ++ f c) ""

theorem toList_foldl_rewrite (f : Char → String) (cs : List Char) (out : String) :
    (cs.foldl (fun out c => out ++ f c) out).toList =
      out.toList ++ cs.flatMap fun c => (f c).toList := by
  induction cs generalizing out with
  | nil => simp
  | cons c cs ih => simp [ih]

/-- A rewriting sends each character to its own text, in order. -/
@[simp] theorem toList_rewrite (f : Char → String) (cs : List Char) :
    (rewrite f cs).toList = cs.flatMap fun c => (f c).toList := by
  simp [rewrite, toList_foldl_rewrite]

@[simp] theorem rewrite_nil (f : Char → String) : rewrite f [] = "" := rfl

@[simp] theorem rewrite_singleton (f : Char → String) (c : Char) : rewrite f [c] = f c :=
  String.empty_append

/-- Rewriting works on the parts of a text separately. -/
theorem rewrite_append (f : Char → String) (as bs : List Char) :
    rewrite f (as ++ bs) = rewrite f as ++ rewrite f bs := by
  apply String.toList_injective
  simp

theorem rewrite_cons (f : Char → String) (c : Char) (cs : List Char) :
    rewrite f (c :: cs) = f c ++ rewrite f cs := by
  rw [← List.singleton_append, rewrite_append, rewrite_singleton]

/-- A character that stands for itself. -/
def verbatim (c : Char) : String := String.singleton c

/-- A character as text between tags. -/
def escapeChar (c : Char) : String :=
  if c = '&' then "&amp;"
  else if c = '<' then "&lt;"
  else if c = '>' then "&gt;"
  else String.singleton c

/-- No character is lost. -/
theorem escapeChar_ne_empty (c : Char) : escapeChar c ≠ "" := by
  unfold escapeChar
  split
  · decide
  · split
    · decide
    · split
      · decide
      · simp

theorem rewrite_eq_empty {cs : List Char} : rewrite escapeChar cs = "" ↔ cs = [] := by
  constructor
  · intro h
    cases cs with
    | nil => rfl
    | cons c cs =>
      rw [rewrite_cons] at h
      exact absurd (String.append_eq_empty_iff.1 h).1 (escapeChar_ne_empty c)
  · rintro rfl
    rfl

/-- A text as text between tags. -/
def escape (s : String) : String := rewrite escapeChar s.toList

@[simp] theorem toList_escape (s : String) :
    (escape s).toList = s.toList.flatMap fun c => (escapeChar c).toList := by
  simp [escape]

theorem escape_append (a b : String) : escape (a ++ b) = escape a ++ escape b := by
  simp [escape, rewrite_append]

/-- Escaped text holds no bracket that could start or end a tag. -/
theorem not_bracket_mem_escape (s : String) :
    '<' ∉ (escape s).toList ∧ '>' ∉ (escape s).toList := by
  have key : ∀ c : Char, '<' ∉ (escapeChar c).toList ∧ '>' ∉ (escapeChar c).toList := by
    intro c
    unfold escapeChar
    split
    · decide
    · split
      · decide
      · split
        · decide
        · rename_i h₁ h₂
          simp [Ne.symm h₁, Ne.symm h₂]
  simp only [toList_escape, List.mem_flatMap, not_exists, not_and]
  exact ⟨fun c _ => (key c).1, fun c _ => (key c).2⟩

end Text
end AnswerStream
