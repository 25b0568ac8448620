import AnswerStream.Text.Search

/-!
# Lines of a text

`splitOn '\n'` cuts a text into its lines and `unlines` puts them together again.  A text
that ends in a newline has an empty last line.
-/

namespace AnswerStream
namespace Text

/-- Lines put together, with a newline before each but the first. -/
def unlines : List (List Char) → List Char
  | [] => []
  | line :: lines => line ++ lines.flatMap ('\n' :: ·)

/-- A text without newlines. -/
def IsLine (line : List Char) : Prop := '\n' ∉ line

theorem splitOn_ne_nil (sep : Char) (cs : List Char) : splitOn sep cs ≠ [] := by
  intro h
  have hlength := length_splitOn sep cs
  rw [h] at hlength
  simp at hlength

/-- Splitting at a separator splits both sides of it. -/
theorem splitOn_append (sep : Char) (as bs : List Char) :
    splitOn sep (as ++ sep :: bs) = splitOn sep as ++ splitOn sep bs := by
  induction as with
  | nil => simp [splitOn]
  | cons a as ih =>
    rw [List.cons_append, splitOn, splitOn, ih]
    split
    · rfl
    · cases h : splitOn sep as with
      | nil => exact absurd h (splitOn_ne_nil sep as)
      | cons part parts => rfl

/-- The lines of a text hold no newline. -/
theorem isLine_of_mem_splitOn {cs line : List Char} (h : line ∈ splitOn '\n' cs) :
    IsLine line := by
  induction cs generalizing line with
  | nil =>
    rw [splitOn, List.mem_singleton] at h
    simp [h, IsLine]
  | cons c cs ih =>
    rw [splitOn] at h
    split at h
    · rcases List.mem_cons.1 h with rfl | h
      · simp [IsLine]
      · exact ih h
    · rename_i hc
      cases hs : splitOn '\n' cs with
      | nil => exact absurd hs (splitOn_ne_nil _ cs)
      | cons part parts =>
        rw [hs] at h ih
        rcases List.mem_cons.1 h with rfl | h
        · have hpart : IsLine part := ih (List.mem_cons_self ..)
          simpa [IsLine, Ne.symm hc] using hpart
        · exact ih (List.mem_cons_of_mem _ h)

/-- The lines of a text make it up. -/
theorem unlines_splitOn (cs : List Char) : unlines (splitOn '\n' cs) = cs := by
  induction cs with
  | nil => rfl
  | cons c cs ih =>
    rw [splitOn]
    cases hs : splitOn '\n' cs with
    | nil => exact absurd hs (splitOn_ne_nil _ cs)
    | cons part parts =>
      rw [hs] at ih
      split
      · rename_i hc
        rw [hc, ← ih]
        rfl
      · rw [← ih]
        rfl

/-- A text without separators is its only part. -/
theorem splitOn_of_not_mem {sep : Char} {cs : List Char} (h : sep ∉ cs) :
    splitOn sep cs = [cs] := by
  induction cs with
  | nil => rfl
  | cons c cs ih =>
    have hc : c ≠ sep := fun heq => h (heq ▸ List.mem_cons_self ..)
    rw [splitOn, if_neg hc, ih fun hmem => h (List.mem_cons_of_mem _ hmem)]

/-- Parts that are put after a text, each behind a separator, are found again. -/
theorem splitOn_append_flatMap {sep : Char} (cs : List Char) {parts : List (List Char)}
    (h : ∀ part ∈ parts, sep ∉ part) :
    splitOn sep (cs ++ parts.flatMap (sep :: ·)) = splitOn sep cs ++ parts := by
  induction parts generalizing cs with
  | nil => simp
  | cons part parts ih =>
    obtain ⟨hpart, hparts⟩ := List.forall_mem_cons.1 h
    rw [List.flatMap_cons, List.cons_append, splitOn_append, ih part hparts,
      splitOn_of_not_mem hpart]
    rfl

/-- A line has no other line. -/
theorem splitOn_line {line : List Char} (h : IsLine line) : splitOn '\n' line = [line] :=
  splitOn_of_not_mem h

/-- Lines that are put together are found again. -/
theorem splitOn_unlines {lines : List (List Char)} (hne : lines ≠ [])
    (hlines : ∀ l ∈ lines, IsLine l) : splitOn '\n' (unlines lines) = lines := by
  induction lines with
  | nil => exact absurd rfl hne
  | cons l lines ih =>
    obtain ⟨hl, hrest⟩ := List.forall_mem_cons.1 hlines
    cases lines with
    | nil =>
      rw [unlines, List.flatMap_nil, List.append_nil]
      exact splitOn_line hl
    | cons l' lines =>
      show splitOn '\n' (l ++ '\n' :: unlines (l' :: lines)) = _
      rw [splitOn_append, splitOn_line hl, ih (by simp) hrest]
      rfl

theorem unlines_eq_intercalate (lines : List (List Char)) :
    unlines lines = ['\n'].intercalate lines := by
  induction lines with
  | nil => rfl
  | cons l lines ih =>
    cases lines with
    | nil => simp [unlines]
    | cons l' lines =>
      rw [List.intercalate_cons_cons, ← ih]
      simp [unlines]

theorem IsLine.all_ne {line : List Char} (h : IsLine line) :
    ∀ c ∈ line, decide (c ≠ '\n') = true := by
  intro c hc
  rw [decide_eq_true_eq]
  rintro rfl
  exact h hc

/-- A line ends where the next one begins. -/
theorem takeWhile_line {line : List Char} (h : IsLine line) (lines : List (List Char)) :
    (line ++ lines.flatMap ('\n' :: ·)).takeWhile (· ≠ '\n') = line := by
  rw [List.takeWhile_append_of_pos h.all_ne]
  cases lines <;> simp

theorem dropWhile_line {line : List Char} (h : IsLine line) (lines : List (List Char)) :
    (line ++ lines.flatMap ('\n' :: ·)).dropWhile (· ≠ '\n') = lines.flatMap ('\n' :: ·) := by
  rw [List.dropWhile_append_of_pos h.all_ne]
  cases lines <;> simp

/-- A line after lines. -/
theorem unlines_concat (body : List (List Char)) (l : List Char) :
    unlines (body ++ [l]) = if body = [] then l else unlines body ++ '\n' :: l := by
  cases body with
  | nil => simp [unlines]
  | cons b body => simp [unlines]

/-- Lines after lines. -/
theorem unlines_append {before : List (List Char)} (hne : before ≠ []) (after : List (List Char)) :
    unlines (before ++ after) = unlines before ++ after.flatMap ('\n' :: ·) := by
  cases before with
  | nil => exact absurd rfl hne
  | cons b before => simp [unlines]

/-- Lines that do not end in an empty one end as the last of them does. -/
theorem getLast?_unlines (body : List (List Char)) {l : List Char} (hl : l ≠ []) :
    (unlines (body ++ [l])).getLast? = l.getLast? := by
  rw [unlines_concat]
  split
  · rfl
  · cases hlast : l.getLast? with
    | none => exact absurd (List.getLast?_eq_none_iff.1 hlast) hl
    | some c => rw [List.getLast?_append, List.getLast?_cons, hlast]; rfl

/-- So they do not end in a newline. -/
theorem getLast?_unlines_ne (body : List (List Char)) {l : List Char} (hl : IsLine l)
    (hne : l ≠ []) : (unlines (body ++ [l])).getLast? ≠ some '\n' := by
  rw [getLast?_unlines body hne]
  exact fun h => hl (List.mem_of_getLast? h)

/-- What stands in lines is a newline or stands in one of them. -/
theorem mem_unlines {lines : List (List Char)} {c : Char} (h : c ∈ unlines lines) :
    c = '\n' ∨ ∃ l ∈ lines, c ∈ l := by
  cases lines with
  | nil => cases h
  | cons l lines =>
    rcases List.mem_append.1 h with h | h
    · exact Or.inr ⟨l, List.mem_cons_self .., h⟩
    · obtain ⟨l', hl', hc⟩ := List.mem_flatMap.1 h
      exact (List.mem_cons.1 hc).imp_right fun hc => ⟨l', List.mem_cons_of_mem _ hl', hc⟩

/-- What stands in a line stands in the text. -/
theorem mem_of_mem_line {cs l : List Char} {c : Char} (hl : l ∈ splitOn '\n' cs) (hc : c ∈ l) :
    c ∈ cs := by
  rw [← unlines_splitOn cs]
  cases hlines : splitOn '\n' cs with
  | nil => exact absurd hlines (splitOn_ne_nil _ cs)
  | cons l' lines =>
    rw [hlines] at hl
    rcases List.mem_cons.1 hl with rfl | hl
    · exact List.mem_append_left _ hc
    · exact List.mem_append_right _ (List.mem_flatMap.2 ⟨l, hl, List.mem_cons_of_mem _ hc⟩)

/-- A text that does not end in a newline does not end in an empty line. -/
theorem getLast?_splitOn_ne {cs : List Char} (hne : cs ≠ []) (hlast : cs.getLast? ≠ some '\n') :
    (splitOn '\n' cs).getLast? ≠ some [] := by
  intro h
  obtain ⟨before, hbefore⟩ := List.getLast?_eq_some_iff.1 h
  have hunlines := unlines_splitOn cs
  rw [hbefore, unlines_concat] at hunlines
  split at hunlines
  · exact hne hunlines.symm
  · rw [← hunlines] at hlast
    simp at hlast

/-- The first line of a text, and the lines after its first newline. -/
theorem splitOn_eq_takeWhile_cons (cs : List Char) :
    splitOn '\n' cs = cs.takeWhile (· ≠ '\n') ::
      (match cs.dropWhile (· ≠ '\n') with
        | [] => []
        | _ :: rest => splitOn '\n' rest) := by
  induction cs with
  | nil => rfl
  | cons c cs ih =>
    by_cases hc : c = '\n'
    · simp [splitOn, hc]
    · rw [splitOn, if_neg hc, ih, List.takeWhile_cons_of_pos (by simpa using hc),
        List.dropWhile_cons_of_pos (by simpa using hc)]

/-- The lines of a text, each with a newline at its end, have one newline more than the text. -/
theorem flatMap_splitOn (cs : List Char) :
    (splitOn '\n' cs).flatMap (· ++ ['\n']) = cs ++ ['\n'] := by
  induction cs with
  | nil => rfl
  | cons c cs ih =>
    rw [splitOn]
    cases hs : splitOn '\n' cs with
    | nil => exact absurd hs (splitOn_ne_nil _ cs)
    | cons part parts =>
      rw [hs] at ih
      split
      · rename_i hc
        rw [List.flatMap_cons, ih, hc]
        rfl
      · rw [List.flatMap_cons] at ih ⊢
        rw [List.cons_append, List.cons_append, ih]
        rfl

end Text
end AnswerStream
