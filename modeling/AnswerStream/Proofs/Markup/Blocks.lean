import AnswerStream.Markup.Block
import AnswerStream.Proofs.Markup.Links

/-!
# The markup of blocks

Every token of a scan over blocks is a line or a fence.  A line is marked up as text
inside block elements, a row of a table cell by cell, and the text of a fence is code
inside the elements of a code block.  `inlineTexts` says which texts of a token are
marked up as lines.

## When blocks stay nested

Block elements are opened and closed together, around the markup of lines, and lines
open no block elements.  So the markup of blocks is made of known parts, and it is
properly nested exactly if in each of those texts the labels nest (`nests_run`).  What
is put together from lines has no other way to go wrong, and no way to be mended.
-/

namespace AnswerStream
namespace Markup

open Text Scan

/-- An element around markup, as it is written. -/
theorem toList_tagged (name m : String) :
    ("<" ++ name ++ ">" ++ m ++ "</" ++ name ++ ">").toList =
      (Tag.opening name []).source ++ m.toList ++ (Tag.closing name).source := by
  simp [Tag.source, Tag.inside]

/-- A void element is tidy. -/
theorem tidy_void {name : String} (hb : name ∈ Tag.bareNames) (hv : name.toList ∈ voidNames) :
    Tidy Tag.Known (Tag.opening name []).source := by
  refine ⟨.tag (.bare hb), fun opened => ?_⟩
  have hread := walk_opening (.bare hb) (name_not_space name (by simp [hb])) opened []
  rw [if_pos hv, List.append_nil] at hread
  exact hread

theorem tidy_break : Tidy Tag.Known "<br>".toList :=
  tidy_void (by decide : "br" ∈ Tag.bareNames) (by decide)

namespace Nests

theorem nil : Nests True [] := .of_tidy .nil

/-- A block element around markup, as a string. -/
theorem tagged {c : Prop} {name : String} (hn : name ∈ blockNames) {m : String}
    (h : Nests c m.toList) : Nests c ("<" ++ name ++ ">" ++ m ++ "</" ++ name ++ ">").toList := by
  rw [toList_tagged]
  exact h.wrap hn

/-- Markup after tidy markup. -/
theorem after_tidy {c : Prop} {l m : List Char} (hl : Tidy Tag.Known l) (h : Nests c m) :
    Nests c (l ++ m) :=
  ((of_tidy hl).append h).congr (Iff.of_eq (true_and c))

end Nests

namespace Block

/-! ## The texts of a token -/

/-- The texts of a line that are marked up as lines, given what its state reads in it. -/
def itemTexts (item? : List Char → Option (List Char)) (line : List Char) : List String :=
  if allBlank line then [] else [String.ofList ((item? line).getD line)]

/-- The texts of a token that are marked up as lines. -/
def inlineTexts (k : Token State) : List String :=
  let line := k.text.toList
  match k.source with
  | .paragraph => if k.text = "" then [] else [k.text]
  | .block .heading =>
    [match Line.heading? line with
      | some (_, text) => String.ofList (Line.headingText text)
      | none => k.text]
  | .block .quote =>
    if k.text = "" then []
    else
      let text := (Line.quote? line).getD line
      if allBlank text then [] else [String.ofList text]
  | .block .unordered => itemTexts Line.unordered? line
  | .block .ordered => itemTexts Line.ordered? line
  | .block .table =>
    if (trim line).isEmpty || Line.isSeparator (trim line) then []
    else (Line.cells (trim line)).map String.ofList
  | .block .rule | .block .fence => []

/-- The labels of a token nest. -/
def Nested (k : Token State) : Prop := ∀ text ∈ inlineTexts k, Inline.Nested text

/-! ## Lines -/

theorem nests_inline (text : List Char) :
    Nests (Inline.Nested (String.ofList text)) (inline text).toList :=
  Inline.nests_render _

/-- A line of a region whose lines are joined by breaks. -/
theorem nests_joinedLine (k : Token State) {c : Prop} {body : String} (h : Nests c body.toList) :
    Nests c (joinedLine k (some body)).toList := by
  rw [joinedLine]
  split
  · exact h
  · rw [String.toList_append]
    exact h.after_tidy tidy_break

theorem nests_joinedLine_none (k : Token State) : Nests True (joinedLine k none).toList := by
  rw [joinedLine]
  split
  · exact .nil
  · exact .of_tidy tidy_break

theorem nests_paragraphLine {k : Token State} (hk : k.source = .paragraph) :
    Nests (Nested k) (paragraphLine k).toList := by
  unfold Nested inlineTexts paragraphLine
  rw [hk]
  by_cases h : k.text = ""
  · simpa [h] using nests_joinedLine_none k
  · simpa [h] using nests_joinedLine k (Inline.nests_render k.text)

theorem nests_quoteLine {k : Token State} (hk : k.source = .block .quote) :
    Nests (Nested k) (quoteLine k).toList := by
  unfold Nested inlineTexts quoteLine
  rw [hk]
  by_cases h : k.text = ""
  · simpa [h] using Nests.nil
  · by_cases hb : allBlank ((Line.quote? k.text.toList).getD k.text.toList)
    · simpa [h, hb] using nests_joinedLine_none k
    · simpa [h, hb] using nests_joinedLine k (nests_inline _)

/-- A heading has one of six levels. -/
theorem heading?_level {line text : List Char} {level : Nat}
    (h : Line.heading? line = some (level, text)) : "h" ++ toString level ∈ blockNames := by
  unfold Line.heading? at h
  simp only [Option.bind_eq_bind, Option.bind_eq_some_iff] at h
  obtain ⟨rest, _, body, _, h⟩ := h
  split at h
  · rename_i hlevel
    obtain ⟨rfl, rfl⟩ := Prod.mk.inj (Option.some.inj h)
    have hall : ∀ n < 7, 1 ≤ n → "h" ++ toString n ∈ blockNames := by decide
    exact hall _ (by omega) hlevel.1
  · cases h

theorem nests_headingLine {k : Token State} (hk : k.source = .block .heading) :
    Nests (Nested k) (headingLine k).toList := by
  unfold Nested inlineTexts headingLine
  rw [hk]
  cases h : Line.heading? k.text.toList with
  | none => simpa [h] using Inline.nests_render k.text
  | some heading =>
    obtain ⟨level, text⟩ := heading
    have hwrapped := (nests_inline (Line.headingText text)).tagged (heading?_level h)
    simpa [h] using hwrapped

theorem nests_itemLine (item? : List Char → Option (List Char)) (k : Token State) :
    Nests (∀ text ∈ itemTexts item? k.text.toList, Inline.Nested text)
      (itemLine item? k).toList := by
  unfold itemTexts itemLine
  by_cases h : allBlank k.text.toList
  · simpa [h] using Nests.nil
  · have hwrapped := (nests_inline ((item? k.text.toList).getD k.text.toList)).tagged
      (by decide : "li" ∈ blockNames)
    simpa [h] using hwrapped

/-- The cells of a row, side by side. -/
theorem nests_cells {cell : String} (hc : cell ∈ blockNames) (cells : List (List Char)) :
    Nests (∀ text ∈ cells.map String.ofList, Inline.Nested text)
      (String.join (cells.map fun text =>
        "<" ++ cell ++ ">" ++ inline text ++ "</" ++ cell ++ ">")).toList := by
  induction cells with
  | nil => simpa using Nests.nil
  | cons text cells ih =>
    have hfirst := ((nests_inline text).tagged hc).append ih
    rw [List.map_cons, List.map_cons, String.join_cons, String.toList_append]
    exact hfirst.congr (by simp)

theorem nests_tableLine {k : Token State} (hk : k.source = .block .table) :
    Nests (Nested k) (tableLine k).toList := by
  unfold Nested inlineTexts tableLine
  rw [hk]
  dsimp only
  split
  · simpa using Nests.nil
  · split
    · have hcells := nests_cells (by decide : "th" ∈ blockNames) (Line.cells (trim k.text.toList))
      have hrow := hcells.tagged (by decide : "tr" ∈ blockNames)
      have hhead := hrow.tagged (by decide : "thead" ∈ blockNames)
      simpa [rowCells] using hhead
    · have hcells := nests_cells (by decide : "td" ∈ blockNames) (Line.cells (trim k.text.toList))
      have hrow := hcells.tagged (by decide : "tr" ∈ blockNames)
      simpa [rowCells] using hrow

/-! ## Fences -/

/-- The shown label of a fence holds only characters of labels. -/
theorem labelChar_shownLabel (text : String) :
    ∀ c ∈ (Fence.ofToken text).shownLabel.toList, Tag.LabelChar c := by
  intro c hc
  unfold Fence.shownLabel at hc
  split at hc
  · exact Or.inl (List.all_eq_true.1 (by decide : "text".toList.all Char.isAlphanum = true) c hc)
  · simp only [Fence.ofToken, String.toList_ofList, Line.fenceLabel, List.mem_filter] at hc
    have hin := hc.2
    simp only [Line.inLabel, Bool.or_eq_true, beq_iff_eq, or_assoc] at hin
    rcases hin with hin | hin
    · exact Or.inl hin
    · exact Or.inr (by simpa only [List.mem_cons, List.not_mem_nil, or_false] using hin)

/-- The elements of a code block. -/
theorem toList_markup (code : String → String → String) (f : Fence) :
    (f.markup code).toList =
      (Tag.opening "div" [("class", "code-block".toList)]).source ++
        ((Tag.opening "div" [("class", "code-header".toList)]).source ++
          ((Tag.opening "span" [("class", "code-lang".toList)]).source ++ f.shownLabel.toList ++
            (Tag.closing "span").source ++
            ((Tag.opening "button" [("class", "copy-code".toList)]).source ++ "Copy".toList ++
              (Tag.closing "button").source)) ++
          (Tag.closing "div").source ++
          ((Tag.opening "pre" []).source ++
            ((Tag.opening "code" [("class", "language-".toList ++ f.shownLabel.toList)]).source ++
              (code f.label f.body).toList ++ (Tag.closing "code").source) ++
            (Tag.closing "pre").source)) ++
        (Tag.closing "div").source := by
  have hhead :
      "<div class=\"code-block\"><div class=\"code-header\"><span class=\"code-lang\">".toList =
      (Tag.opening "div" [("class", "code-block".toList)]).source ++
        (Tag.opening "div" [("class", "code-header".toList)]).source ++
        (Tag.opening "span" [("class", "code-lang".toList)]).source := by decide
  have hcopy : "</span><button class=\"copy-code\">Copy</button></div><pre>".toList =
      (Tag.closing "span").source ++
        (Tag.opening "button" [("class", "copy-code".toList)]).source ++ "Copy".toList ++
        (Tag.closing "button").source ++ (Tag.closing "div").source ++
        (Tag.opening "pre" []).source := by decide
  have hcode : "<code class=\"language-".toList ++ f.shownLabel.toList ++ "\">".toList =
      (Tag.opening "code" [("class", "language-".toList ++ f.shownLabel.toList)]).source := by
    simp [Tag.source, Tag.inside, Tag.attributeText]
  have htail : "</code></pre></div>".toList = (Tag.closing "code").source ++
      (Tag.closing "pre").source ++ (Tag.closing "div").source := by decide
  unfold Fence.markup
  simp only [String.toList_append, hhead, hcopy, htail, ← hcode, List.append_assoc]

/-- A fence is tidy if its code is. -/
theorem tidy_fence {code : String → String → String}
    (hcode : ∀ label body, Tidy Tag.Known (code label body).toList) (text : String) :
    Tidy Tag.Known ((Fence.ofToken text).markup code).toList := by
  have hlabel := labelChar_shownLabel text
  have hknown : ∀ t, Tag.Known t → t.Known := fun _ h => h
  have hshown : Tidy Tag.Known (Fence.ofToken text).shownLabel.toList := by
    refine Tidy.text fun c hc => ?_
    have hquotable := Tag.quotable_label hlabel c hc
    refine ⟨hquotable.2.1, hquotable.2.2, ?_⟩
    rintro rfl
    exact absurd (hlabel _ hc) (by simp [Tag.LabelChar])
  have hlang := hshown.wrap hknown (.fixed (by decide : ("span", "code-lang") ∈ Tag.classes))
    (.closing (by decide)) (by decide)
  have hcopy := (Tidy.escape "Copy").wrap hknown
    (.fixed (by decide : ("button", "copy-code") ∈ Tag.classes)) (.closing (by decide)) (by decide)
  have hheader := (hlang.append hknown hcopy).wrap hknown
    (.fixed (by decide : ("div", "code-header") ∈ Tag.classes)) (.closing (by decide)) (by decide)
  have hbody := (hcode (Fence.ofToken text).label (Fence.ofToken text).body).wrap hknown
    (.code hlabel) (.closing (by decide)) (by decide)
  have hpre := hbody.wrap hknown (.bare (by decide : "pre" ∈ Tag.bareNames))
    (.closing (by decide)) (by decide)
  have hblock := (hheader.append hknown hpre).wrap hknown
    (.fixed (by decide : ("div", "code-block") ∈ Tag.classes)) (.closing (by decide)) (by decide)
  have hcopied : (escape "Copy").toList = "Copy".toList := by decide
  rw [hcopied] at hblock
  rw [toList_markup]
  exact hblock

/-! ## The run -/

variable {code : String → String → String}

/-- What a state writes for a token nests exactly if the labels in it do. -/
theorem nests_written (hcode : ∀ label body, Tidy Tag.Known (code label body).toList)
    (k : Token State) : Nests (Nested k) (Progress.written (table code) none k).toList := by
  have hwritten : ∀ f, (rules code k.source).tokens = some f →
      Progress.written (table code) none k = f k := by
    intro f hf
    have hrules : ((table code).rules k.source).tokens = some f := hf
    rw [Progress.written, hrules]
    rfl
  have hplain : ∀ {m : List Char}, inlineTexts k = [] → Tidy Tag.Known m → Nests (Nested k) m := by
    intro m hk h
    exact (Nests.of_tidy h).congr (by simp [Nested, hk])
  cases hk : k.source with
  | paragraph =>
    rw [hwritten paragraphLine (by rw [hk]; rfl)]
    exact nests_paragraphLine hk
  | block s =>
    cases s with
    | fence =>
      rw [hwritten _ (by rw [hk]; rfl)]
      exact hplain (by simp [inlineTexts, hk]) (tidy_fence hcode k.text)
    | table =>
      rw [hwritten tableLine (by rw [hk]; rfl)]
      exact nests_tableLine hk
    | heading =>
      rw [hwritten headingLine (by rw [hk]; rfl)]
      exact nests_headingLine hk
    | rule =>
      rw [hwritten _ (by rw [hk]; rfl)]
      exact hplain (by simp [inlineTexts, hk])
        (tidy_void (by decide : "hr" ∈ Tag.bareNames) (by decide))
    | quote =>
      rw [hwritten quoteLine (by rw [hk]; rfl)]
      exact nests_quoteLine hk
    | ordered =>
      rw [hwritten (itemLine Line.ordered?) (by rw [hk]; rfl)]
      exact (nests_itemLine Line.ordered? k).congr (by simp [Nested, inlineTexts, hk])
    | unordered =>
      rw [hwritten (itemLine Line.unordered?) (by rw [hk]; rfl)]
      exact (nests_itemLine Line.unordered? k).congr (by simp [Nested, inlineTexts, hk])

/-- A transition that writes nothing in a way of its own, and no text where it moves to:
it consumes nothing, drops what it consumes, or carries it on. -/
structure Silent (tr : Transition State) : Prop where
  chars_none : tr.chars = none
  tokens_none : tr.tokens = none
  moves_on : tr.zeroWidth = true ∨ tr.place = .drop ∨ tr.place = .carry

theorem silent_openers (current : Option Shape) : ∀ tr ∈ openers current, Silent tr := by
  intro tr htr
  obtain ⟨s, _, rfl⟩ := List.mem_map.1 htr
  unfold opener
  split
  · exact ⟨rfl, rfl, Or.inr (Or.inr rfl)⟩
  · exact ⟨rfl, rfl, Or.inl rfl⟩

theorem silent_fallBack (continues : List Char → Bool) : Silent (fallBack continues) :=
  ⟨rfl, rfl, Or.inl rfl⟩

theorem silent_newline : Silent newline := ⟨rfl, rfl, Or.inr (Or.inl rfl)⟩

/-- Transitions between blocks are silent. -/
theorem silent (s : State) : ∀ tr ∈ (rules code s).transitions, Silent tr := by
  have hregion : ∀ current continues, ∀ tr ∈ openers current ++ [fallBack continues, newline],
      Silent tr := by
    intro current continues tr htr
    simp only [List.mem_append, List.mem_cons, List.not_mem_nil, or_false] at htr
    rcases htr with htr | rfl | rfl
    · exact silent_openers current tr htr
    · exact silent_fallBack continues
    · exact silent_newline
  intro tr htr
  cases s with
  | paragraph =>
    rcases List.mem_append.1 htr with htr | htr
    · exact silent_openers none tr htr
    · rw [List.mem_singleton.1 htr]
      exact silent_newline
  | block s =>
    cases s with
    | fence =>
      rw [List.mem_singleton.1 htr]
      exact ⟨rfl, rfl, Or.inr (Or.inl rfl)⟩
    | heading | rule =>
      rw [List.mem_singleton.1 htr]
      exact ⟨rfl, rfl, Or.inr (Or.inl rfl)⟩
    | table | quote | ordered | unordered => exact hregion _ _ tr htr

variable (code) in
/-- A block is an element around its lines, or nothing is written around them. -/
theorem entry_exit (s : State) :
    (rules code s).entry = "" ∧ (rules code s).exit = "" ∨
      ∃ name ∈ blockNames, (rules code s).entry = "<" ++ name ++ ">" ∧
        (rules code s).exit = "</" ++ name ++ ">" := by
  cases s with
  | paragraph => exact Or.inl ⟨rfl, rfl⟩
  | block s =>
    cases s with
    | fence | heading | rule => exact Or.inl ⟨rfl, rfl⟩
    | table => exact Or.inr ⟨"table", by decide, rfl, rfl⟩
    | quote => exact Or.inr ⟨"blockquote", by decide, rfl, rfl⟩
    | ordered => exact Or.inr ⟨"ol", by decide, rfl, rfl⟩
    | unordered => exact Or.inr ⟨"ul", by decide, rfl, rfl⟩

/-- The markup of blocks is that of their lines, put together and inside block elements.  So a
relation of markup to conditions on lines that this keeps holds of a run if it holds line by
line. -/
theorem run_of_lines {R : Prop → String → Prop} {C : Token State → Prop} (text : String)
    (hempty : R True "") (happend : ∀ c d a b, R c a → R d b → R (c ∧ d) (a ++ b))
    (htagged : ∀ c m, ∀ name ∈ blockNames, R c m →
      R c ("<" ++ name ++ ">" ++ m ++ "</" ++ name ++ ">"))
    (hline : ∀ k ∈ (table code).tokens text, R (C k) (Progress.written (table code) none k)) :
    R (∀ k ∈ (table code).tokens text, C k) ((table code).run text) := by
  refine (table code).run_of_tokens text hempty happend ?_ ?_ ?_
  · intro s c m h
    show R c ((rules code s).entry ++ m ++ (rules code s).exit)
    rcases entry_exit code s with ⟨hentry, hexit⟩ | ⟨name, hname, hentry, hexit⟩
    · rw [hentry, hexit]
      simpa using h
    · have hparts : ("<" ++ name ++ ">") ++ m ++ ("</" ++ name ++ ">") =
          "<" ++ name ++ ">" ++ m ++ "</" ++ name ++ ">" := by simp [String.append_assoc]
      rw [hentry, hexit, hparts]
      exact htagged c m name hname h
  · intro k hk own hown
    have hnone : own = none := by
      rcases hown with rfl | ⟨tr, htr, rfl⟩
      · rfl
      · exact (silent k.source tr htr).tokens_none
    rw [hnone]
    exact hline k hk
  · -- silent transitions show no characters
    intro s tr htr cs hcs
    have hnil : cs = [] := by
      rcases (silent s tr htr).moves_on with h | h | h
      · exact hcs.eq_nil h
      · exact absurd h hcs.not_drop
      · exact absurd h hcs.not_carry
    rw [hnil, Progress.rewritten, rewrite_nil]
    exact hempty

/-- **The markup of blocks is properly nested exactly if all labels in it nest.** -/
theorem nests_run (hcode : ∀ label body, Tidy Tag.Known (code label body).toList)
    (text : String) :
    Nests (∀ k ∈ (table code).tokens text, Nested k) ((table code).run text).toList := by
  refine run_of_lines (R := fun c m => Nests c m.toList) text Nests.nil ?_
    (fun c m name hname h => h.tagged hname) fun k _ => nests_written hcode k
  intro c d a b ha hb
  rw [String.toList_append]
  exact ha.append hb

end Block
end Markup
end AnswerStream
