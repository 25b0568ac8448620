import Mathlib.Algebra.GroupWithZero.Nat
import AnswerStream.Proofs.Markup.ClosedSpans

/-!
# Text that is left as it is

Most of what is written in a line is no markup, and the scan is expected to copy it.  It does so
exactly if no transition fires anywhere in it (`run_eq_escape_iff`).  While none has, the scan
stands where it started, with no region open but that of the text itself; so it is enough to
look at the transitions with which a line starts, and `OpensNothing` does that.

## What is lost is lost for good

That a transition fires is not yet seen in the markup.  A region in which nothing was written
leaves no trace, and the markup of what follows may look like anything.  But the delimiters can
be counted.  Those that are taken are dropped, those that are kept are written once, and the
tags that are written have none.  So the markup has at most as many as the text
(`weight_scan`), and once one was taken it has fewer (`delimiters_rest_lt`).
-/

namespace AnswerStream
namespace Markup
namespace Inline

open Text Scan

variable {s : State} {p : Progress State} {tr : Transition State} {before after : List Char}
  {ch : Char} {w : String}

/-! ## Counting delimiters -/

/-- How many delimiters a text has. -/
def delimiters (text : String) : Nat := text.toList.countP isDelimiter

@[simp] theorem delimiters_empty : delimiters "" = 0 := rfl

@[simp] theorem delimiters_append (a b : String) :
    delimiters (a ++ b) = delimiters a + delimiters b := by
  simp [delimiters]

/-- No entity has a delimiter in it. -/
theorem delimiters_escapeChar (c : Char) :
    delimiters (escapeChar c) = [c].countP isDelimiter := by
  unfold escapeChar
  split
  · simp [*, delimiters, isDelimiter, isEmphasisChar]
  · split
    · simp [*, delimiters, isDelimiter, isEmphasisChar]
    · split
      · simp [*, delimiters, isDelimiter, isEmphasisChar]
      · rw [delimiters, String.toList_singleton]

theorem countP_isDelimiter_cons (c : Char) (cs : List Char) :
    (c :: cs).countP isDelimiter = [c].countP isDelimiter + cs.countP isDelimiter := by
  rw [← List.countP_append, List.singleton_append]

theorem delimiters_rewrite (cs : List Char) :
    delimiters (rewrite escapeChar cs) = cs.countP isDelimiter := by
  induction cs with
  | nil => rfl
  | cons c cs ih =>
    rw [rewrite_cons, delimiters_append, ih, delimiters_escapeChar, ← countP_isDelimiter_cons]

theorem delimiters_escape (text : String) : delimiters (escape text) = delimiters text :=
  delimiters_rewrite text.toList

/-- No tag has a delimiter in it. -/
theorem delimiters_wrap (r : Region State) : delimiters (table.wrap r) = delimiters r.content := by
  have htags : ∀ s : State, delimiters (rules s).entry = 0 ∧ delimiters (rules s).exit = 0 := by
    intro s
    cases s <;> decide
  unfold Table.wrap
  split
  · rename_i hempty
    rw [hempty]
  · rw [delimiters_append, delimiters_append]
    show delimiters (rules r.state).entry + _ + delimiters (rules r.state).exit = _
    rw [(htags r.state).1, (htags r.state).2, Nat.zero_add, Nat.add_zero]

/-- How many delimiters were written into open regions. -/
def weight (rs : List (Region State)) : Nat := (rs.map fun r => delimiters r.content).sum

theorem weight_written {rs : List (Region State)} (h : rs ≠ []) (text : String) :
    weight (written text rs) = weight rs + delimiters text := by
  cases rs with
  | nil => exact absurd rfl h
  | cons r rs =>
    simp only [weight, written, List.map_cons, List.sum_cons, delimiters_append]
    omega

/-- Closing the regions loses nothing that was written. -/
theorem delimiters_close (rs : List (Region State)) (text : String) :
    delimiters (Progress.close table "" rs text) = weight rs + delimiters text := by
  induction rs generalizing text with
  | nil =>
    rw [Progress.close, String.empty_append]
    exact (Nat.zero_add _).symm
  | cons r rs ih =>
    rw [Progress.close, ih, delimiters_wrap, delimiters_append]
    simp only [weight, List.map_cons, List.sum_cons]
    omega

/-! ## The delimiters of a scan -/

/-- The region of the text itself is open, and nothing was written outside of it. -/
def Rooted (p : Progress State) : Prop := Behind "" p p

theorem Rooted.visit (h : Rooted p) (before : List Char) (ch : Char) (after : List Char)
    (hops : Nat) : Rooted (p.visit table before ch after hops).1 :=
  (Behind.visit h rfl ch after hops).2

theorem Rooted.scan (h : Rooted p) (before text : List Char) (skip : Nat) :
    Rooted (p.scan table before text skip) :=
  Behind.scan h rfl text skip

/-- A transition drops what it takes, and moves what was written. -/
theorem weight_follow (h : Rooted p) (htr : tr ∈ (rules (p.current table)).transitions)
    (before : List Char) (ch : Char) (cs : List Char) :
    weight (settled (p.follow table tr before ch cs)) = weight (settled p) := by
  rcases target_cases htr with ⟨target, htarget, hnested⟩ | ⟨htarget, hinside⟩
  · rw [(follow_enter h.ne_nil.1 htr htarget hnested before ch cs).1]
    simp [weight]
  · obtain ⟨inner, c, hset, -⟩ := h.beside
    cases inner with
    | nil => exact absurd (current_of_settled hset) hinside
    | cons r inner =>
      have hleft := (follow_leave htr htarget hset (by simp) before ch cs).1
      rw [hleft, hset, weight_written (by simp), delimiters_wrap]
      show weight (inner ++ [ground c]) + _ = _ + weight (inner ++ [ground c])
      rw [Nat.add_comm]

theorem weight_keep (h : Rooted p) (before : List Char) (ch : Char) :
    weight (settled (p.keep table before ch)) = weight (settled p) + [ch].countP isDelimiter := by
  have hne : settled p ≠ [] := by
    obtain ⟨inner, c, hset, -⟩ := h.beside
    simp [hset]
  rw [(keep_spec p before ch).2, weight_written hne, delimiters_escapeChar]

/-- What a scan writes has at most the delimiters that it reads. -/
theorem weight_scan (h : Rooted p) (before text : List Char) (skip : Nat) :
    weight (settled (p.scan table before text skip)) ≤
      weight (settled p) + (text.drop skip).countP isDelimiter := by
  induction text generalizing p before skip with
  | nil => exact Nat.le_add_right _ _
  | cons ch after ih =>
    cases skip with
    | succ skip => exact ih h (ch :: before) skip
    | zero =>
      have hrest := ih (h.visit before ch after hopLimit) (ch :: before)
        (p.visit table before ch after hopLimit).2
      have hdrop := (List.drop_sublist (p.visit table before ch after hopLimit).2 after).countP_le
        (p := isDelimiter)
      have hone : weight (settled (p.visit table before ch after hopLimit).1) ≤
          weight (settled p) + [ch].countP isDelimiter := by
        cases hfire : p.firing table before ch after with
        | none =>
          rw [Progress.visit_of_none hfire]
          exact (weight_keep h before ch).le
        | some tr =>
          obtain ⟨htr, -⟩ := Progress.firing_spec hfire
          rw [Progress.visit_of_some hfire (silent _ tr htr).consumes, weight_follow h htr]
          exact Nat.le_add_right _ _
      rw [Progress.scan_cons, List.drop_zero, countP_isDelimiter_cons]
      omega

theorem delimiters_complete (h : Rooted p) :
    delimiters (p.complete table) = weight (settled p) := by
  rw [complete_eq h.ne_nil.1 h.outside.1, delimiters_close]
  rfl

/-! ## Nothing opens -/

/-- Whether a region opens at a character, if none is open there. -/
def opens (before : List Char) (ch : Char) (after : List Char) : Bool :=
  (rules .text).transitions.any fun tr => tr.fires { before, ch, after }

/-- Nothing opens but at a delimiter. -/
theorem isDelimiter_of_opens (hopens : opens before ch after = true) : isDelimiter ch = true := by
  obtain ⟨tr, htr, hfires⟩ := List.any_eq_true.1 hopens
  exact isDelimiter_of_fires htr (by rintro _ ⟨⟩) hfires

/-- No region opens in a text.  What lies before it is given with the nearest character
first. -/
def OpensNothing : (before text : List Char) → Prop
  | _, [] => True
  | before, ch :: after => opens before ch after = false ∧ OpensNothing (ch :: before) after

theorem opens_of_not_delimiter (hch : isDelimiter ch = false) : opens before ch after = false :=
  Bool.eq_false_iff.2 fun hopens => by
    rw [isDelimiter_of_opens hopens] at hch
    cases hch

/-- Characters that are no delimiters only lie before the rest. -/
theorem opensNothing_append {xs : List Char} (hxs : ∀ c ∈ xs, isDelimiter c = false)
    (text : List Char) :
    OpensNothing before (xs ++ text) ↔ OpensNothing (xs.reverse ++ before) text := by
  induction xs generalizing before with
  | nil => exact Iff.rfl
  | cons x xs ih =>
    obtain ⟨hx, hxs⟩ := List.forall_mem_cons.1 hxs
    rw [List.reverse_cons, List.append_assoc]
    exact (and_iff_right (opens_of_not_delimiter hx)).trans (ih hxs)

/-- No region is open but that of the text itself, in which `w` is written. -/
structure Grounded (w : String) (p : Progress State) : Prop where
  outside : p.outside = ""
  settled : settled p = [ground w]

namespace Grounded

theorem start : Grounded "" table.start := ⟨rfl, rfl⟩

/-- But for what is written, the scan is where it started. -/
theorem behind (h : Grounded w p) : Behind w table.start p :=
  ⟨⟨rfl, h.outside⟩, [], "", rfl, by rw [h.settled, String.append_empty]; rfl⟩

theorem rooted (h : Grounded w p) : Rooted p :=
  ⟨⟨h.outside, h.outside⟩, [], w, h.settled, by rw [h.settled, String.empty_append]; rfl⟩

theorem weight_eq (h : Grounded w p) : weight (Inline.settled p) = delimiters w := by
  rw [h.settled]
  rfl

theorem keep (h : Grounded w p) (before : List Char) (ch : Char) :
    Grounded (w ++ escapeChar ch) (p.keep table before ch) := by
  obtain ⟨hout, hset⟩ := keep_spec p before ch
  exact ⟨hout.trans h.outside, by rw [hset, h.settled]; rfl⟩

theorem complete_eq (h : Grounded w p) : p.complete table = w := by
  rw [Inline.complete_eq h.rooted.ne_nil.1 h.outside, h.settled]
  show "" ++ table.wrap (ground (w ++ "")) = w
  rw [wrap_ground, String.empty_append, String.append_empty]

theorem firing_eq (h : Grounded w p) (before : List Char) (ch : Char) (after : List Char) :
    p.firing table before ch after =
      (rules .text).transitions.find? fun tr => tr.fires { before, ch, after } :=
  h.behind.firing_eq rfl ch after

theorem firing_eq_none (h : Grounded w p) (hopens : opens before ch after = false) :
    p.firing table before ch after = none := by
  rw [h.firing_eq]
  exact List.find?_eq_none.2 (by simpa [opens] using hopens)

theorem exists_firing (h : Grounded w p) (hopens : opens before ch after = true) :
    ∃ tr, p.firing table before ch after = some tr := by
  obtain ⟨tr, htr, hfires⟩ := List.any_eq_true.1 hopens
  rw [h.firing_eq]
  exact Option.isSome_iff_exists.1 (List.find?_isSome.2 ⟨tr, htr, hfires⟩)

/-- What is written stays in front. -/
theorem rest_eq (h : Grounded w p) (before text : List Char) :
    p.rest table before text = w ++ table.start.rest table before text :=
  (h.behind.scan rfl text 0).complete_eq

/-- Where nothing opens the text is copied. -/
theorem rest_of_opensNothing (h : Grounded w p) {text : List Char}
    (hnothing : OpensNothing before text) :
    p.rest table before text = w ++ rewrite escapeChar text := by
  induction text generalizing w p before with
  | nil => rw [Progress.rest_nil, h.complete_eq, rewrite_nil, String.append_empty]
  | cons ch after ih =>
    obtain ⟨hopens, hnothing⟩ := hnothing
    rw [(Progress.reaches_of_none (h.firing_eq_none hopens)).rest_eq, rewrite_cons,
      ← String.append_assoc]
    exact ih (h.keep before ch) hnothing

/-- Where something opens a delimiter is lost. -/
theorem delimiters_rest_lt (h : Grounded w p) {text : List Char}
    (hsomething : ¬ OpensNothing before text) :
    delimiters (p.rest table before text) < delimiters w + text.countP isDelimiter := by
  induction text generalizing w p before with
  | nil => exact absurd trivial hsomething
  | cons ch after ih =>
    rw [countP_isDelimiter_cons]
    cases hopens : opens before ch after with
    | false =>
      have hlater := ih (h.keep before ch) fun hnothing => hsomething ⟨hopens, hnothing⟩
      rw [delimiters_append, delimiters_escapeChar] at hlater
      rw [(Progress.reaches_of_none (h.firing_eq_none hopens)).rest_eq]
      have hgoal : delimiters ((p.keep table before ch).rest table (ch :: before) after) <
          delimiters w + ([ch].countP isDelimiter + after.countP isDelimiter) := by omega
      exact hgoal
    | true =>
      obtain ⟨tr, hfire⟩ := h.exists_firing hopens
      obtain ⟨htr, hfires⟩ := Progress.firing_spec hfire
      have hdelimiter : [ch].countP isDelimiter = 1 :=
        List.countP_eq_length.2 (by simpa using isDelimiter_of_opens hopens)
      have hvisited := h.rooted.visit before ch after hopLimit
      have hvisit := Progress.visit_of_some hfire (silent _ tr htr).consumes hopLimit
      have hweight : weight (Inline.settled (p.visit table before ch after hopLimit).1) =
          delimiters w := by
        rw [hvisit, weight_follow h.rooted htr, h.weight_eq]
      have hscan := weight_scan hvisited (ch :: before) after
        (p.visit table before ch after hopLimit).2
      have hdrop := (List.drop_sublist (p.visit table before ch after hopLimit).2 after).countP_le
        (p := isDelimiter)
      rw [Progress.rest, Progress.scan_cons, delimiters_complete (hvisited.scan _ _ _)]
      omega

end Grounded

/-- Nothing opens in a text that keeps its delimiters. -/
theorem opensNothing_of_le {text : String} (h : delimiters text ≤ delimiters (table.run text)) :
    OpensNothing [] text.toList := by
  refine Classical.byContradiction fun hsomething => ?_
  have hlost := Grounded.start.delimiters_rest_lt hsomething
  rw [← Table.run_eq_rest, delimiters_empty, Nat.zero_add] at hlost
  exact absurd h (Nat.not_le.2 hlost)

/-- **A text is left as it is exactly if nothing opens in it.** -/
theorem run_eq_escape_iff (text : String) :
    table.run text = escape text ↔ OpensNothing [] text.toList := by
  constructor
  · intro hcopied
    refine opensNothing_of_le ?_
    rw [hcopied, delimiters_escape]
  · intro hnothing
    rw [Table.run_eq_rest, Grounded.start.rest_of_opensNothing hnothing, String.empty_append]
    rfl

/-- The first character stays the first, unless it is a delimiter. -/
theorem exists_run_eq {text : String} {after : List Char} (htext : text.toList = ch :: after)
    (hch : isDelimiter ch = false) : ∃ m, table.run text = escapeChar ch ++ m := by
  have hnone : table.start.firing table [] ch after = none :=
    Grounded.start.firing_eq_none (opens_of_not_delimiter hch)
  have hstep := (Progress.reaches_of_none hnone).rest_eq
  rw [(Grounded.start.keep [] ch).rest_eq] at hstep
  rw [Table.run_eq_rest, htext, hstep, String.empty_append]
  exact ⟨_, rfl⟩

end Inline
end Markup
end AnswerStream
