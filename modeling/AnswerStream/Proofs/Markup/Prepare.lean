import AnswerStream.Markup.Render
import AnswerStream.Proofs.Text.Lines
import AnswerStream.Proofs.Text.Trim

/-!
# What is scanned of a text

Before the blocks of a text are scanned its line ends are unified and the newlines at its
end dropped.  So what is scanned does not end in a newline, and it is the text itself if
that has no carriage returns and no newlines at its end.  `prepare_append` says what
becomes of a text that is continued after a blank line.
-/

namespace AnswerStream
namespace Markup

open Text

/-- Without carriage returns, line ends are what they should be. -/
theorem unifyLineEnds_of_not_mem {cs : List Char} (h : '\r' ∉ cs) : unifyLineEnds cs = cs := by
  induction cs with
  | nil => rfl
  | cons c cs ih =>
    rw [List.mem_cons, not_or] at h
    obtain ⟨hc, hcs⟩ := h
    rw [unifyLineEnds, ih hcs]
    rintro cs' rfl -
    exact hc rfl

/-- A text that is scanned does not end in a newline. -/
theorem getLast?_prepare (text : String) : (prepare text).toList.getLast? ≠ some '\n' := by
  intro h
  have hhead := List.head?_dropWhile_not (· == '\n') (unifyLineEnds text.toList).reverse
  unfold prepare dropEndWhile at h
  rw [String.toList_ofList, List.getLast?_reverse] at h
  rw [h] at hhead
  cases hhead

theorem toList_prepare {text : String} (h : '\r' ∉ text.toList) :
    (prepare text).toList = dropEndWhile (· == '\n') text.toList := by
  rw [prepare, String.toList_ofList, unifyLineEnds_of_not_mem h]

/-- No newlines are dropped before a character that is none. -/
theorem dropNewlines_append {as : List Char} (h : as.getLast? ≠ some '\n') (bs : List Char) :
    dropEndWhile (· == '\n') (as ++ bs) = as ++ dropEndWhile (· == '\n') bs := by
  refine dropEndWhile_append_of_last (fun c hc => ?_) bs
  rw [beq_eq_false_iff_ne]
  rintro rfl
  exact h hc

/-- The lines that are scanned of some lines are these, if the last one is not empty. -/
theorem splitOn_prepare_intercalate {lines : List String} {last : String}
    (hlines : ∀ l ∈ lines ++ [last], '\n' ∉ l.toList ∧ '\r' ∉ l.toList) (hlast : last ≠ "") :
    splitOn '\n' (prepare ("\n".intercalate (lines ++ [last]))).toList =
      (lines ++ [last]).map String.toList := by
  have hmap : (lines ++ [last]).map String.toList = lines.map String.toList ++ [last.toList] := by
    simp
  have htext : ("\n".intercalate (lines ++ [last])).toList =
      unlines ((lines ++ [last]).map String.toList) := by
    rw [String.toList_intercalate, unlines_eq_intercalate]
    rfl
  have hreturn : '\r' ∉ unlines ((lines ++ [last]).map String.toList) := by
    intro hmem
    rcases mem_unlines hmem with heq | ⟨l, hl, hc⟩
    · exact absurd heq (by decide)
    · obtain ⟨s, hs, rfl⟩ := List.mem_map.1 hl
      exact (hlines s hs).2 hc
  have hend : (unlines ((lines ++ [last]).map String.toList)).getLast? ≠ some '\n' := by
    rw [hmap]
    exact getLast?_unlines_ne _ (hlines last (by simp)).1 (by simpa using hlast)
  have hkept := dropNewlines_append hend []
  rw [List.append_nil, dropEndWhile_eq_nil (List.forall_mem_nil _), List.append_nil] at hkept
  rw [toList_prepare (htext ▸ hreturn), htext, hkept]
  refine splitOn_unlines (by simp) fun l hl => ?_
  obtain ⟨s, hs, rfl⟩ := List.mem_map.1 hl
  exact (hlines s hs).1

/-- Lines up to one that is not empty are scanned as they are. -/
theorem splitOn_prepare_of_ne_nil {text : String} {before after : List (List Char)} {l : List Char}
    (hlines : splitOn '\n' (unifyLineEnds text.toList) = before ++ l :: after) (hl : l ≠ []) :
    ∃ after', splitOn '\n' (prepare text).toList = before ++ l :: after' := by
  have hline : ∀ x ∈ before ++ [l], IsLine x := by
    intro x hx
    have hmem : x ∈ splitOn '\n' (unifyLineEnds text.toList) := by
      rw [hlines, List.append_cons]
      exact List.mem_append_left _ hx
    exact isLine_of_mem_splitOn hmem
  have hkept : splitOn '\n' (unlines (before ++ [l])) = before ++ [l] :=
    splitOn_unlines (by simp) hline
  have hlast := getLast?_unlines_ne before (hline l (by simp)) hl
  have htext : unifyLineEnds text.toList =
      unlines (before ++ [l]) ++ after.flatMap ('\n' :: ·) := by
    rw [← unlines_splitOn (unifyLineEnds text.toList), hlines, List.append_cons,
      unlines_append (by simp)]
  -- only what comes after the line is dropped
  rw [prepare, String.toList_ofList, htext, dropNewlines_append hlast]
  obtain ⟨tail, htail, -⟩ := dropEndWhile_append (· == '\n') (after.flatMap ('\n' :: ·))
  cases hrest : dropEndWhile (· == '\n') (after.flatMap ('\n' :: ·)) with
  | nil => exact ⟨[], by rw [List.append_nil, hkept]⟩
  | cons c cs =>
    obtain rfl : c = '\n' := by
      rw [hrest] at htail
      cases after with
      | nil => cases htail
      | cons l' after => exact (List.cons.inj htail).1.symm
    exact ⟨splitOn '\n' cs, by rw [splitOn_append, hkept]; simp⟩

/-- Line ends are unified on both sides of a place that is inside none. -/
theorem unifyLineEnds_append {as : List Char} (h : as.getLast? ≠ some '\r') (bs : List Char) :
    unifyLineEnds (as ++ bs) = unifyLineEnds as ++ unifyLineEnds bs := by
  induction as using unifyLineEnds.induct with
  | case1 cs ih =>
    have hcs : cs.getLast? ≠ some '\r' := by
      intro hlast
      rw [List.getLast?_cons_cons, List.getLast?_cons, hlast] at h
      exact h rfl
    exact congrArg ('\n' :: ·) (ih hcs)
  | case2 c cs hc ih =>
    have hcs : cs.getLast? ≠ some '\r' := by
      intro hlast
      rw [List.getLast?_cons, hlast] at h
      exact h rfl
    rw [List.cons_append, unifyLineEnds, unifyLineEnds, ih hcs]
    · rfl
    · exact hc
    · -- a carriage return here is not the last character, so its newline is here too
      rintro cs' rfl hnewline
      cases cs with
      | nil => exact h rfl
      | cons d cs =>
        injection hnewline with hd hcs'
        exact hc cs rfl (by rw [hd])
  | case3 => rfl

/-- Newlines may be taken from either side of newlines. -/
theorem newlines_append {newlines : List Char} (h : ∀ c ∈ newlines, (c == '\n') = true)
    (rest : List Char) : newlines ++ '\n' :: rest = '\n' :: (newlines ++ rest) := by
  induction newlines with
  | nil => rfl
  | cons c newlines ih =>
    obtain ⟨hc, hnewlines⟩ := List.forall_mem_cons.1 h
    rw [List.cons_append, ih hnewlines, beq_iff_eq.1 hc]
    rfl

/-- A text after a blank line is scanned after the text before it, unless it is dropped. -/
theorem prepare_append {p : String} (hreturn : p.toList.getLast? ≠ some '\r') (q : String) :
    prepare (p ++ "\n\n" ++ q) = prepare p ∨
      ∃ after, (prepare (p ++ "\n\n" ++ q)).toList =
        (prepare p).toList ++ '\n' :: '\n' :: after := by
  have hall : unifyLineEnds (p ++ "\n\n" ++ q).toList =
      unifyLineEnds p.toList ++ ['\n', '\n'] ++ unifyLineEnds q.toList := by
    rw [String.toList_append, String.toList_append, List.append_assoc,
      unifyLineEnds_append hreturn, List.append_assoc]
    rfl
  have hblank : dropEndWhile (· == '\n') (unifyLineEnds p.toList ++ ['\n', '\n']) =
      dropEndWhile (· == '\n') (unifyLineEnds p.toList) := by
    rw [dropEndWhile_append_eq]
    rfl
  unfold prepare
  rw [hall, dropEndWhile_append_eq, hblank]
  split
  · exact Or.inl rfl
  · obtain ⟨newlines, hdropped, hnewlines⟩ :=
      dropEndWhile_append (· == '\n') (unifyLineEnds p.toList)
    refine Or.inr ⟨newlines ++ dropEndWhile (· == '\n') (unifyLineEnds q.toList), ?_⟩
    rw [String.toList_ofList, String.toList_ofList]
    conv => lhs; rw [hdropped]
    rw [← newlines_append hnewlines, ← newlines_append hnewlines]
    simp

end Markup
end AnswerStream
