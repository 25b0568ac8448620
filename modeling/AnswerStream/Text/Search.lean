/-!
# Searching a text

A search splits a text at the first place whose remaining text satisfies a
condition.  Both parts are returned, so nothing is lost: put together they are
the text again, whether or not such a place exists.
-/

namespace AnswerStream
namespace Text

/-- Split at the first place where what remains satisfies `p`.  Without such a
place the second part is empty. -/
def splitWhere (p : List Char → Bool) : List Char → List Char × List Char
  | [] => ([], [])
  | c :: cs =>
    if p (c :: cs) then ([], c :: cs)
    else
      let parts := splitWhere p cs
      (c :: parts.1, parts.2)

/-- The two parts make up the text. -/
theorem splitWhere_append (p : List Char → Bool) (cs : List Char) :
    (splitWhere p cs).1 ++ (splitWhere p cs).2 = cs := by
  induction cs with
  | nil => rfl
  | cons c cs ih =>
    unfold splitWhere
    split
    · rfl
    · simp [ih]

/-- The second part satisfies the condition, unless it is empty. -/
theorem splitWhere_snd (p : List Char → Bool) (cs : List Char) :
    (splitWhere p cs).2 = [] ∨ p (splitWhere p cs).2 = true := by
  induction cs with
  | nil => exact .inl rfl
  | cons c cs ih =>
    unfold splitWhere
    split
    · exact .inr ‹_›
    · exact ih

theorem length_splitWhere_snd_le (p : List Char → Bool) (cs : List Char) :
    (splitWhere p cs).2.length ≤ cs.length := by
  have h := congrArg List.length (splitWhere_append p cs)
  simp at h
  omega

/-- Split at the first occurrence of `pat`. -/
def splitAtText (pat : List Char) : List Char → List Char × List Char :=
  splitWhere pat.isPrefixOf

/-- The second part starts with what was looked for, unless it is empty. -/
theorem exists_of_splitAtText {pat cs : List Char} (h : (splitAtText pat cs).2 ≠ []) :
    ∃ rest, (splitAtText pat cs).2 = pat ++ rest ∧
      (splitAtText pat cs).1 ++ (pat ++ rest) = cs := by
  have hprefix := (splitWhere_snd pat.isPrefixOf cs).resolve_left h
  obtain ⟨rest, hrest⟩ := List.isPrefixOf_iff_prefix.1 hprefix
  refine ⟨rest, hrest.symm, ?_⟩
  rw [hrest]
  exact splitWhere_append _ cs

/-- Whether `pat` occurs in the text.  The empty pattern occurs everywhere. -/
def occursIn (pat : List Char) (cs : List Char) : Bool :=
  pat.isEmpty || !(splitAtText pat cs).2.isEmpty

/-- A place that satisfies the condition is found. -/
theorem splitWhere_snd_ne_nil {p : List Char → Bool} (as : List Char) {bs : List Char}
    (hp : p bs = true) (hne : bs ≠ []) : (splitWhere p (as ++ bs)).2 ≠ [] := by
  induction as with
  | nil =>
    cases bs with
    | nil => exact absurd rfl hne
    | cons b bs => simp [splitWhere, hp]
  | cons a as ih =>
    rw [List.cons_append]
    unfold splitWhere
    split
    · simp
    · exact ih

/-- What is looked for is found where it first is. -/
theorem splitWhere_append_of_not {p : List Char → Bool} {as bs : List Char} (hp : p bs = true)
    (hne : bs ≠ []) (hno : ∀ x y, as = x ++ y → y ≠ [] → p (y ++ bs) = false) :
    splitWhere p (as ++ bs) = (as, bs) := by
  induction as with
  | nil =>
    cases bs with
    | nil => exact absurd rfl hne
    | cons b bs => simp [splitWhere, hp]
  | cons a as ih =>
    have hfirst : p (a :: (as ++ bs)) = false := hno [] (a :: as) rfl (by simp)
    have hrest := ih fun x y hxy => hno (a :: x) y (by rw [hxy]; rfl)
    rw [List.cons_append, splitWhere, hfirst]
    simp [hrest]

/-- A text occurs where it stands. -/
theorem occursIn_append (as pat bs : List Char) : occursIn pat (as ++ (pat ++ bs)) = true := by
  cases pat with
  | nil => rfl
  | cons c cs =>
    have hprefix : (c :: cs).isPrefixOf (c :: cs ++ bs) = true :=
      List.isPrefixOf_iff_prefix.2 (List.prefix_append ..)
    have hfound := splitWhere_snd_ne_nil as hprefix (by simp)
    simpa [occursIn, splitAtText] using hfound

/-- Put `new` in the place of the first occurrence of `pat`. -/
def replaceFirst (pat new : List Char) (cs : List Char) : List Char :=
  let parts := splitAtText pat cs
  if parts.2.isEmpty then cs else parts.1 ++ new ++ parts.2.drop pat.length

/-- Split a text at every occurrence of `sep`.  There is one part more than there
are occurrences. -/
def splitOn (sep : Char) : List Char → List (List Char)
  | [] => [[]]
  | c :: cs =>
    if c = sep then [] :: splitOn sep cs
    else
      match splitOn sep cs with
      | [] => [[c]]
      | part :: parts => (c :: part) :: parts

theorem length_splitOn (sep : Char) (cs : List Char) :
    (splitOn sep cs).length = cs.count sep + 1 := by
  induction cs with
  | nil => rfl
  | cons c cs ih =>
    unfold splitOn
    split
    · simp [*]
    · rename_i h
      split <;> simp_all

/-- The length of the longest run of `c`, given the length of the run that ends
where the text starts. -/
def longestRunFrom (c : Char) (run : Nat) : List Char → Nat
  | [] => run
  | d :: ds => if d = c then longestRunFrom c (run + 1) ds else max run (longestRunFrom c 0 ds)

/-- The length of the longest run of `c` in a text. -/
def longestRun (c : Char) (cs : List Char) : Nat := longestRunFrom c 0 cs

@[simp] theorem splitWhere_nil (p : List Char → Bool) : splitWhere p [] = ([], []) := rfl

@[simp] theorem longestRun_nil (c : Char) : longestRun c [] = 0 := rfl

end Text
end AnswerStream
