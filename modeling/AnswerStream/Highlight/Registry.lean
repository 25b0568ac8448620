import AnswerStream.Highlight.Language

/-!
# The registry of rule tables

A registry has a cell for every language.  The rule table of a language is built when it is
first asked for and put into its cell, and from then on it is taken from there.  A document asks
for its own table and, for each of its embedded bodies in turn, for the table of that body.

A cell holds nothing but the table of its language (`Registry.sound`), so what has been built
shows only in its count: the markup of a call never depends on the calls before it.
-/

namespace AnswerStream
namespace Highlight

open Text

/-- A rule table for one of the grammars. -/
inductive RuleTable where
  | expression (t : Scan.Table Expression.State)
  | styleSheet (t : Scan.Table Css.State)
  | settings (t : Scan.Table Yaml.State)
  | document (t : Scan.Table Html.State)

/-- The markup of code under the rules of a table. -/
def RuleTable.run : RuleTable → String → String
  | expression t => t.run
  | styleSheet t => t.run
  | settings t => t.run
  | document t => t.run

namespace Language

/-- Build the rule table of a language. -/
def ruleTable (l : Language) : RuleTable :=
  match l.grammar with
  | .expression p => .expression (Expression.table p l.name)
  | .styleSheet => .styleSheet Css.table
  | .settings => .settings Yaml.table
  | .document => .document Html.table

/-- The place of a language among all. -/
def position (l : Language) : Fin all.length :=
  ⟨all.idxOf l, List.idxOf_lt_length_of_mem (mem_all l)⟩

theorem get_position (l : Language) : all.get l.position = l :=
  List.getElem_idxOf l.position.isLt

theorem position_get : ∀ i : Fin all.length, (all.get i).position = i := by decide

theorem position_inj {k l : Language} : k.position = l.position ↔ k = l := by
  constructor
  · intro h
    rw [← get_position k, h, get_position]
  · rintro rfl
    rfl

@[simp] theorem run_ruleTable (l : Language) (code : String) :
    l.ruleTable.run code = l.runFlat code := by
  cases l <;> rfl

end Language

/-- The rule tables that have been built, each in the cell of its language. -/
structure Registry where
  /-- The cells, in the order of the languages. -/
  cells : Vector (Option RuleTable) Language.all.length := Vector.replicate _ none
  /-- What a cell holds is the table of its language. -/
  sound : ∀ (l : Language) (t : RuleTable), cells[l.position] = some t → t = l.ruleTable := by simp

namespace Registry

/-- What the cell of a language holds. -/
def cell (r : Registry) (l : Language) : Option RuleTable := r.cells[l.position]

/-- Build the table of a language and put it into its cell. -/
def build (r : Registry) (l : Language) : Registry where
  cells := r.cells.set l.position (some l.ruleTable)
  sound k t h := by
    rw [Fin.getElem_fin, Vector.getElem_set] at h
    split at h
    · rename_i hp
      rw [← Language.position_inj.1 (Fin.ext hp)]
      exact (Option.some.inj h).symm
    · exact r.sound k t h

/-- The table of a language, from its cell if it is there. -/
def table (r : Registry) (l : Language) : RuleTable × Registry :=
  match r.cell l with
  | some t => (t, r)
  | none => (l.ruleTable, r.build l)

/-- How many tables have been built. -/
def built (r : Registry) : Nat := r.cells.toList.countP Option.isSome

/-! ## Calls -/

/-- Mark up the bodies of a document, numbered from `i` on, and put each in the place of its
placeholder. -/
def spliceBodies (marker : List Char) :
    Nat → List Html.Body → List Char → Registry → List Char × Registry
  | _, [], out, r => (out, r)
  | i, b :: bs, out, r =>
    let found := r.table (Language.ofEmbedding b.element)
    let text := (found.1.run (String.ofList b.text)).toList
    spliceBodies marker (i + 1) bs (replaceFirst (Html.placeholder marker i) text out) found.2

/-- Mark up a document. -/
def highlightDocument (r : Registry) (code : String) : String × Registry :=
  let mark := Html.marker code.toList
  let parts := Html.cut code.toList
  let found := r.table .html
  let out := found.1.run (String.ofList (Html.skeleton mark 0 parts.1 parts.2))
  let spliced := spliceBodies mark 0 parts.1 out.toList found.2
  (String.ofList spliced.1, spliced.2)

/-- Mark up code in a language. -/
def highlightAs (r : Registry) (l : Language) (code : String) : String × Registry :=
  if l = .html then r.highlightDocument code
  else
    let found := r.table l
    (found.1.run code, found.2)

/-- Mark up code under a tag.  A tag that names no language builds nothing. -/
def highlight (r : Registry) (tag code : String) : String × Registry :=
  match Language.ofTag? tag with
  | some l => r.highlightAs l code
  | none => (escape code, r)

/-- A registry in a message. -/
def describe (r : Registry) : String := showRecord "Highlighter" [("built", toString r.built)]

/-! ## The markup of a call -/

@[simp] theorem fst_table (r : Registry) (l : Language) : (r.table l).1 = l.ruleTable := by
  unfold table
  split
  · rename_i t h
    exact r.sound l t h
  · rfl

@[simp] theorem fst_spliceBodies (marker : List Char) (i : Nat) (bs : List Html.Body)
    (out : List Char) (r : Registry) :
    (spliceBodies marker i bs out r).1 =
      Html.splice marker i
        (bs.map fun b => ((Language.ofEmbedding b.element).runFlat (String.ofList b.text)).toList)
        out := by
  induction bs generalizing i out r with
  | nil => rfl
  | cons b bs ih =>
    rw [spliceBodies, ih, fst_table, Language.run_ruleTable]
    rfl

@[simp] theorem fst_highlightAs (r : Registry) (l : Language) (code : String) :
    (r.highlightAs l code).1 = l.run code := by
  unfold highlightAs
  split
  · rename_i h
    rw [h, highlightDocument, fst_spliceBodies, fst_table, Language.run_ruleTable]
    rfl
  · rename_i h
    have hrun : l.run code = l.runFlat code := by
      cases l <;> first | rfl | exact absurd rfl h
    simp only [fst_table, Language.run_ruleTable, hrun]

/-- The markup of a call does not depend on the registry. -/
@[simp] theorem fst_highlight (r : Registry) (tag code : String) :
    (r.highlight tag code).1 = Highlight.highlight tag code := by
  unfold highlight Highlight.highlight
  cases Language.ofTag? tag with
  | some l => exact fst_highlightAs r l code
  | none => rfl

end Registry

end Highlight
end AnswerStream
