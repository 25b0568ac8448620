import AnswerStream.Text.Blank

/-!
# Spans and trimming

A text is a span of characters that satisfy a condition, and a rest that does not start with
one (`exists_span`).  Dropping characters from the beginning finds the rest
(`dropWhile_append_eq`), and dropping them from the end leaves a text alone that does not end
with one (`dropEndWhile_eq_self`).  So a text is trimmed once and for all (`trim_trim`), and
loses nothing but white space (`mem_trim`).
-/

namespace AnswerStream
namespace Text

variable {p : Char → Bool} {as bs : List Char}

/-- A text is what satisfies a condition at its beginning, and the rest. -/
theorem exists_span (p : Char → Bool) (cs : List Char) :
    ∃ as bs, cs = as ++ bs ∧ (∀ c ∈ as, p c = true) ∧ ∀ c ∈ bs.head?, p c = false := by
  refine ⟨cs.takeWhile p, cs.dropWhile p, List.takeWhile_append_dropWhile.symm,
    List.all_eq_true.1 List.all_takeWhile, fun c hc => ?_⟩
  have hhead := List.head?_dropWhile_not p cs
  rw [hc] at hhead
  simpa using hhead

theorem dropWhile_eq_self {cs : List Char} (h : ∀ c ∈ cs.head?, p c = false) :
    cs.dropWhile p = cs := by
  cases cs with
  | nil => rfl
  | cons c cs => exact List.dropWhile_cons_of_neg (by simp [h c rfl])

/-- What satisfies a condition is dropped up to the first character that does not. -/
theorem dropWhile_append_eq (has : ∀ c ∈ as, p c = true) (hbs : ∀ c ∈ bs.head?, p c = false) :
    (as ++ bs).dropWhile p = bs := by
  rw [List.dropWhile_append_of_pos has, dropWhile_eq_self hbs]

/-- A character that does not satisfy the condition is not dropped. -/
theorem mem_dropWhile {c : Char} {cs : List Char} (h : c ∈ cs) (hc : p c = false) :
    c ∈ cs.dropWhile p := by
  rw [← List.takeWhile_append_dropWhile (p := p) (l := cs)] at h
  refine (List.mem_append.1 h).resolve_left fun hmem => ?_
  rw [List.all_eq_true.1 List.all_takeWhile c hmem] at hc
  cases hc

theorem takeWhile_append_eq (has : ∀ c ∈ as, p c = true) (hbs : ∀ c ∈ bs.head?, p c = false) :
    (as ++ bs).takeWhile p = as := by
  have hcut := List.takeWhile_append_dropWhile (p := p) (l := as ++ bs)
  rwa [dropWhile_append_eq has hbs, List.append_left_inj] at hcut

theorem head?_append_left (hne : as ≠ []) (bs : List Char) : (as ++ bs).head? = as.head? := by
  cases as with
  | nil => exact absurd rfl hne
  | cons a as => rfl

/-- A beginning that satisfies a condition lies in the span that does. -/
theorem length_le_of_prefix {pre : List Char} (h : pre <+: as ++ bs)
    (hpre : ∀ c ∈ pre, p c = true) (hbs : ∀ c ∈ bs.head?, p c = false) :
    pre.length ≤ as.length := by
  induction pre generalizing as with
  | nil => exact Nat.zero_le _
  | cons c pre ih =>
    obtain ⟨hc, hrest⟩ := List.forall_mem_cons.1 hpre
    cases as with
    | nil =>
      obtain ⟨after, rfl⟩ := h
      have hfalse : p c = false := hbs c rfl
      rw [hc] at hfalse
      cases hfalse
    | cons a as =>
      rw [List.cons_append, List.cons_prefix_cons] at h
      exact Nat.succ_le_succ (ih h.2 hrest)

theorem dropEndWhile_eq_self {cs : List Char} (h : ∀ c ∈ cs.getLast?, p c = false) :
    dropEndWhile p cs = cs := by
  have hhead : ∀ c ∈ cs.reverse.head?, p c = false := by rwa [List.head?_reverse]
  rw [dropEndWhile, dropWhile_eq_self hhead, List.reverse_reverse]

theorem dropEndWhile_eq_nil {cs : List Char} (h : ∀ c ∈ cs, p c = true) :
    dropEndWhile p cs = [] := by
  have hdrop : (cs.reverse ++ []).dropWhile p = [] :=
    dropWhile_append_eq (fun c hc => h c (List.mem_reverse.1 hc)) (by simp)
  rw [List.append_nil] at hdrop
  rw [dropEndWhile, hdrop, List.reverse_nil]

/-- What is left does not end with a character that satisfies the condition. -/
theorem getLast?_dropEndWhile (p : Char → Bool) (cs : List Char) :
    ∀ c ∈ (dropEndWhile p cs).getLast?, p c = false := by
  intro c hc
  have hhead := List.head?_dropWhile_not p cs.reverse
  rw [dropEndWhile, List.getLast?_reverse] at hc
  rw [hc] at hhead
  simpa using hhead

/-- Only if the second of two texts is dropped as a whole is the first one trimmed. -/
theorem dropEndWhile_append_eq (p : Char → Bool) (as bs : List Char) :
    dropEndWhile p (as ++ bs) =
      if dropEndWhile p bs = [] then dropEndWhile p as else as ++ dropEndWhile p bs := by
  unfold dropEndWhile
  rw [List.reverse_append, List.dropWhile_append]
  cases bs.reverse.dropWhile p <;> simp

/-- After a character that is kept, texts are trimmed on their own. -/
theorem dropEndWhile_append_of_last (has : ∀ c ∈ as.getLast?, p c = false) (bs : List Char) :
    dropEndWhile p (as ++ bs) = as ++ dropEndWhile p bs := by
  rw [dropEndWhile_append_eq]
  split
  · rename_i hbs
    rw [dropEndWhile_eq_self has, hbs, List.append_nil]
  · rfl

/-! ## Trimming -/

/-- A text that is trimmed does not start with white space. -/
theorem head_trim (cs : List Char) : ∀ a ∈ (trim cs).head?, isBlank a = false := by
  intro a ha
  obtain ⟨tail, htail, -⟩ := dropEndWhile_append isBlank (trimStart cs)
  have hne : trim cs ≠ [] := by
    intro hnil
    rw [hnil] at ha
    cases ha
  have hstart : (trimStart cs).head? = some a := by
    rw [htail]
    exact (head?_append_left hne tail).trans ha
  have hhead := List.head?_dropWhile_not isBlank cs
  rw [show (cs.dropWhile isBlank).head? = some a from hstart] at hhead
  simpa using hhead

/-- Nor does it end with white space. -/
theorem getLast_trim (cs : List Char) : ∀ a ∈ (trim cs).getLast?, isBlank a = false :=
  getLast?_dropEndWhile isBlank (trimStart cs)

theorem trim_trim (cs : List Char) : trim (trim cs) = trim cs := by
  have hstart : trimStart (trim cs) = trim cs := dropWhile_eq_self (head_trim cs)
  rw [trim, hstart]
  exact dropEndWhile_eq_self (getLast_trim cs)

/-- Nothing but white space is taken off. -/
theorem mem_trim {c : Char} {cs : List Char} (h : c ∈ cs) (hc : isBlank c = false) :
    c ∈ trim cs := by
  have hstart : c ∈ trimStart cs := mem_dropWhile h hc
  obtain ⟨tail, htail, hblank⟩ := dropEndWhile_append isBlank (trimStart cs)
  rw [htail] at hstart
  refine (List.mem_append.1 hstart).resolve_right fun hmem => ?_
  rw [hblank c hmem] at hc
  cases hc

/-- Nothing is put on. -/
theorem mem_of_mem_trim {c : Char} {cs : List Char} (h : c ∈ trim cs) : c ∈ cs := by
  obtain ⟨tail, htail, -⟩ := dropEndWhile_append isBlank (trimStart cs)
  have hstart : c ∈ trimStart cs := by
    rw [htail]
    exact List.mem_append_left _ h
  exact (List.dropWhile_sublist isBlank).mem hstart

end Text
end AnswerStream
