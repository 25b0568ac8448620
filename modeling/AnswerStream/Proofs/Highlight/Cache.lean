import AnswerStream.Highlight.Registry
import Mathlib.Data.Finset.Card

/-!
# What a registry has built

A registry is asked again and again, under all kinds of tags.  Two things can be said of all
these calls together (`Registry.calls_transparent`).  What a call returns is what it would return
on a new registry; and the number of tables that are there after some calls is that of the
languages which these calls needed.

A call needs the language that its tag names, whatever the tag is called.  If that is the language
of documents, it needs the languages of the bodies in the document too, and these are found by
cutting it (`Html.embeddings`).  So the count is that of a set (`needed`), in which a language that
is needed twice, or in both ways, is one element.
-/

namespace AnswerStream
namespace Highlight
namespace Registry

/-- The table of a language has been built. -/
def Has (r : Registry) (l : Language) : Prop := (r.cell l).isSome = true

instance (r : Registry) (l : Language) : Decidable (r.Has l) :=
  inferInstanceAs (Decidable ((r.cell l).isSome = true))

/-! ## Which tables a call builds -/

theorem not_has_empty (l : Language) : ¬ ({} : Registry).Has l := by
  simp [Has, cell]

theorem has_build {r : Registry} {k l : Language} : (r.build k).Has l ↔ l = k ∨ r.Has l := by
  unfold Has cell build
  rw [Fin.getElem_fin, Vector.getElem_set]
  split
  · rename_i hp
    simp [Language.position_inj.1 (Fin.ext hp)]
  · rename_i hp
    have hne : l ≠ k := by
      rintro rfl
      exact hp rfl
    simp [hne]

theorem has_table {r : Registry} {k l : Language} : (r.table k).2.Has l ↔ l = k ∨ r.Has l := by
  unfold table
  split
  · rename_i t h
    constructor
    · exact Or.inr
    · rintro (rfl | hl)
      · unfold Has
        rw [h]
        rfl
      · exact hl
  · exact has_build

/-- The bodies of a document are marked up one after the other. -/
theorem has_spliceBodies {marker out : List Char} {i : Nat} {bs : List Html.Body} {r : Registry}
    {l : Language} :
    (spliceBodies marker i bs out r).2.Has l ↔
      (∃ e ∈ bs.map Html.Body.element, l = Language.ofEmbedding e) ∨ r.Has l := by
  induction bs generalizing i out r with
  | nil => simp [spliceBodies]
  | cons b bs ih =>
    rw [spliceBodies, ih, has_table, List.map_cons]
    simp only [List.mem_cons, exists_eq_or_imp]
    exact or_left_comm.trans or_assoc.symm

/-- A document needs its own table and those of its bodies. -/
theorem has_highlightDocument {r : Registry} {code : String} {l : Language} :
    (r.highlightDocument code).2.Has l ↔
      l = .html ∨ (∃ e ∈ Html.embeddings code, l = Language.ofEmbedding e) ∨ r.Has l := by
  unfold highlightDocument
  rw [has_spliceBodies, has_table]
  exact or_left_comm

theorem has_highlightAs {r : Registry} {k l : Language} {code : String} :
    (r.highlightAs k code).2.Has l ↔
      (l = k ∨ k = .html ∧ ∃ e ∈ Html.embeddings code, l = Language.ofEmbedding e) ∨ r.Has l := by
  unfold highlightAs
  split
  · rename_i hk
    simp only [has_highlightDocument, hk, true_and, or_assoc]
  · rename_i hk
    simp only [has_table, hk, false_and, or_false]

/-- The tables that are there after a call. -/
theorem has_highlight {r : Registry} {tag code : String} {l : Language} :
    (r.highlight tag code).2.Has l ↔
      (Language.ofTag? tag = some l ∨
        Language.ofTag? tag = some .html ∧
          ∃ e ∈ Html.embeddings code, l = Language.ofEmbedding e) ∨ r.Has l := by
  unfold highlight
  cases Language.ofTag? tag with
  | none => simp
  | some k => simp only [has_highlightAs, Option.some.injEq, eq_comm (a := l)]

/-- The tables are counted cell by cell, which is language by language. -/
theorem built_eq_card (r : Registry) : r.built = (Language.all.toFinset.filter r.Has).card := by
  have hnodup : Language.all.Nodup := by decide
  have hcells : r.cells.toList = Language.all.map r.cell := by
    refine List.ext_getElem (by simp) fun i hi hi' => ?_
    have hlt : i < Language.all.length := by simpa using hi
    have hposition := Language.position_get ⟨i, hlt⟩
    rw [List.getElem_map, cell]
    simp only [List.get_eq_getElem] at hposition
    simp [hposition]
  rw [built, hcells, List.countP_map, List.countP_eq_length_filter,
    ← List.toFinset_card_of_nodup (hnodup.filter _), List.toFinset_filter]
  rfl

/-! ## Many calls -/

/-- A call: a tag and the code under it. -/
structure Call where
  tag : String
  code : String

/-- The registry after some calls. -/
def after (r : Registry) (calls : List Call) : Registry :=
  calls.foldl (fun r c => (r.highlight c.tag c.code).2) r

/-- What some calls return, one after the other. -/
def outputs : Registry → List Call → List String
  | _, [] => []
  | r, c :: calls =>
    let called := r.highlight c.tag c.code
    called.1 :: outputs called.2 calls

/-- The languages whose tables some calls need: those that their tags name, and those of the
scripts and the style sheets in their documents. -/
def needed (calls : List Call) : Finset Language :=
  (calls.filterMap fun c => Language.ofTag? c.tag).toFinset ∪
    (if ∃ c ∈ calls, Language.ofTag? c.tag = some .html ∧ .script ∈ Html.embeddings c.code
      then {.javaScript} else ∅) ∪
    if ∃ c ∈ calls, Language.ofTag? c.tag = some .html ∧ .style ∈ Html.embeddings c.code
      then {.css} else ∅

theorem outputs_eq (r : Registry) (calls : List Call) :
    r.outputs calls = calls.map fun c => Highlight.highlight c.tag c.code := by
  induction calls generalizing r with
  | nil => rfl
  | cons c calls ih => rw [outputs, fst_highlight, ih, List.map_cons]

/-- A body is a script or a style sheet. -/
theorem exists_embedding_iff {es : List Html.Embedding} {l : Language} :
    (∃ e ∈ es, l = Language.ofEmbedding e) ↔
      l = .javaScript ∧ .script ∈ es ∨ l = .css ∧ .style ∈ es := by
  constructor
  · rintro ⟨e, he, rfl⟩
    cases e with
    | script => exact Or.inl ⟨rfl, he⟩
    | style => exact Or.inr ⟨rfl, he⟩
  · rintro (⟨rfl, he⟩ | ⟨rfl, he⟩)
    · exact ⟨_, he, rfl⟩
    · exact ⟨_, he, rfl⟩

theorem mem_needed {calls : List Call} {l : Language} :
    l ∈ needed calls ↔ ∃ c ∈ calls, Language.ofTag? c.tag = some l ∨
      Language.ofTag? c.tag = some .html ∧
        ∃ e ∈ Html.embeddings c.code, l = Language.ofEmbedding e := by
  have hsingle : ∀ (p : Prop) [Decidable p] (k : Language),
      l ∈ (if p then {k} else ∅ : Finset Language) ↔ l = k ∧ p := by
    intro p _ k
    by_cases hp : p <;> simp [hp]
  rw [needed, Finset.mem_union, Finset.mem_union, hsingle, hsingle, List.mem_toFinset,
    List.mem_filterMap, or_assoc]
  constructor
  · rintro (⟨c, hc, htag⟩ | ⟨hl, c, hc, htag, he⟩ | ⟨hl, c, hc, htag, he⟩)
    · exact ⟨c, hc, Or.inl htag⟩
    · exact ⟨c, hc, Or.inr ⟨htag, exists_embedding_iff.2 (Or.inl ⟨hl, he⟩)⟩⟩
    · exact ⟨c, hc, Or.inr ⟨htag, exists_embedding_iff.2 (Or.inr ⟨hl, he⟩)⟩⟩
  · rintro ⟨c, hc, htag | ⟨htag, hbody⟩⟩
    · exact Or.inl ⟨c, hc, htag⟩
    · rcases exists_embedding_iff.1 hbody with ⟨hl, he⟩ | ⟨hl, he⟩
      · exact Or.inr (Or.inl ⟨hl, c, hc, htag, he⟩)
      · exact Or.inr (Or.inr ⟨hl, c, hc, htag, he⟩)

theorem has_after {r : Registry} {calls : List Call} {l : Language} :
    (r.after calls).Has l ↔ l ∈ needed calls ∨ r.Has l := by
  induction calls generalizing r with
  | nil => simp [after, mem_needed]
  | cons c calls ih =>
    have hcons : r.after (c :: calls) = (r.highlight c.tag c.code).2.after calls := rfl
    rw [hcons, ih, has_highlight, mem_needed, mem_needed]
    simp only [List.mem_cons, exists_eq_or_imp]
    exact or_left_comm.trans or_assoc.symm

/-- **What a registry has built never shows in what it returns, and its count is that of the
languages that were needed.**  Each call returns what it would return on a new registry.  After
any part of the calls there are as many tables as languages that they needed, and a call under a
tag that names no language leaves the registry as it is. -/
theorem calls_transparent (calls : List Call) :
    outputs {} calls = calls.map (fun c => (({} : Registry).highlight c.tag c.code).1) ∧
      (∀ done, done <+: calls → (({} : Registry).after done).built = (needed done).card) ∧
      ∀ (r : Registry) (tag code : String), Language.ofTag? tag = none →
        (r.highlight tag code).2 = r := by
  refine ⟨?_, fun done _ => ?_, fun r tag code htag => ?_⟩
  · simp only [outputs_eq, fst_highlight]
  · have hneeded : Language.all.toFinset.filter (({} : Registry).after done).Has = needed done := by
      ext l
      simp [has_after, not_has_empty, Language.mem_all]
    rw [built_eq_card, hneeded]
  · rw [highlight, htag]

/-- A script in a document and code under a name for its language share a table. -/
theorem calls_transparent_script :
    (({} : Registry).after
      [⟨"html", "<script>a</script>"⟩, ⟨"JS", "b"⟩, ⟨"nope", "c"⟩]).built = 2 ∧
    (({} : Registry).highlight "nope" "c").2 = {} := by
  have h := calls_transparent [⟨"html", "<script>a</script>"⟩, ⟨"JS", "b"⟩, ⟨"nope", "c"⟩]
  refine ⟨(h.2.1 _ List.prefix_rfl).trans ?_, h.2.2 {} "nope" "c" ?_⟩
  · decide +kernel
  · decide +kernel

end Registry
end Highlight
end AnswerStream
