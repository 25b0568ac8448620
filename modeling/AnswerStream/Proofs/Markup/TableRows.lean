import AnswerStream.Proofs.Markup.Answer
import AnswerStream.Proofs.Markup.PlainAnswer
import AnswerStream.Proofs.Markup.Stable

/-!
# The rows of a table

A text whose lines all start with a bar, and whose second line is a separator, is one table.
A line that starts with a bar has no shape but that of a table (`fits_bar`), so the table is
entered at the first line and not left again, and every line becomes a row when it ends
(`endLine_row`).

## Separators

A separator is not shown, wherever it stands in the table.  So a row of the body whose cells
hold only hyphens and colons is lost: the rows that are shown are the others, and all of them
are shown exactly if none has the shape of a separator (`render_table`).
-/

namespace AnswerStream
namespace Markup

open Text Scan

namespace Block

/-! ## Tables as markup -/

/-- A row whose cells stand in the tag `cell`. -/
def rowMarkup (cell : String) (line : List Char) : String :=
  "<tr>" ++ rowCells cell line ++ "</tr>"

/-- The rows of a body, one after the other. -/
def bodyMarkup (rows : List (List Char)) : String := String.join (rows.map (rowMarkup "td"))

/-- A table with a head and the rows of its body. -/
def tableMarkup (header : List Char) (rows : List (List Char)) : String :=
  "<table>" ++ ("<thead>" ++ rowMarkup "th" header ++ "</thead>" ++ bodyMarkup rows) ++ "</table>"

/-- Whether a line of the body is shown. -/
def isShownRow (line : List Char) : Bool := !Line.isSeparator line

theorem length_body_cons (row : List Char) (rows : List (List Char)) :
    (bodyMarkup rows).length < (bodyMarkup (row :: rows)).length := by
  have hrow : 0 < (rowMarkup "td" row).length := by
    have htag : 0 < "<tr>".length := by decide
    rw [rowMarkup, String.length_append, String.length_append]
    omega
  rw [bodyMarkup, bodyMarkup, List.map_cons, String.join_cons, String.length_append]
  omega

theorem length_body_shown (rows : List (List Char)) :
    (bodyMarkup (rows.filter isShownRow)).length ≤ (bodyMarkup rows).length := by
  induction rows with
  | nil => exact Nat.le_refl _
  | cons row rows ih =>
    rw [List.filter_cons]
    split
    · rw [bodyMarkup, bodyMarkup, List.map_cons, List.map_cons, String.join_cons, String.join_cons,
        String.length_append, String.length_append]
      exact Nat.add_le_add_left ih _
    · exact Nat.le_trans ih (Nat.le_of_lt (length_body_cons row rows))

/-- A body with rows left out is another one. -/
theorem body_shown_iff (rows : List (List Char)) :
    bodyMarkup (rows.filter isShownRow) = bodyMarkup rows ↔
      ∀ row ∈ rows, isShownRow row = true := by
  refine ⟨fun h => ?_, fun h => by rw [List.filter_eq_self.2 h]⟩
  induction rows with
  | nil => exact List.forall_mem_nil _
  | cons row rows ih =>
    cases hrow : isShownRow row with
    | true =>
      rw [List.filter_cons_of_pos hrow, bodyMarkup, bodyMarkup, List.map_cons, List.map_cons,
        String.join_cons, String.join_cons, String.append_right_inj] at h
      exact List.forall_mem_cons.2 ⟨hrow, ih h⟩
    | false =>
      -- what is left is no longer than the other rows
      rw [List.filter_cons_of_neg (by simp [hrow])] at h
      have hle := length_body_shown rows
      have hlt := length_body_cons row rows
      rw [h] at hle
      omega

theorem tableMarkup_shown_iff (header : List Char) (rows : List (List Char)) :
    tableMarkup header (rows.filter isShownRow) = tableMarkup header rows ↔
      ∀ row ∈ rows, isShownRow row = true := by
  rw [tableMarkup, tableMarkup, String.append_left_inj, String.append_right_inj,
    String.append_right_inj, body_shown_iff]

/-- The markup of a table ends in a tag that is no break. -/
theorem toList_tableMarkup (header : List Char) (rows : List (List Char)) :
    (tableMarkup header rows).toList =
      ("<table>" ++ ("<thead>" ++ rowMarkup "th" header ++ "</thead>" ++ bodyMarkup rows) ++
        "</tabl").toList ++ ['e', '>'] := by
  simp [tableMarkup]

/-! ## Lines that start with a bar -/

/-- A line that starts with a bar has no shape but that of a table. -/
theorem fits_bar {l : List Char} (hl : l.head? = some '|') (following : Option (List Char))
    {s : Shape} (hs : s ≠ .table) : s.fits l following = false := by
  obtain ⟨cs, rfl⟩ : ∃ cs, l = '|' :: cs := by
    cases l with
    | nil => cases hl
    | cons c cs => exact ⟨cs, by rw [Option.some.inj hl]⟩
  have hstart : trimStart ('|' :: cs) = '|' :: cs := dropWhile_eq_self (by simp; decide)
  have hunindent : Line.unindent? ('|' :: cs) = some ('|' :: cs) := by
    simp [Line.unindent?]
  cases s with
  | table => exact absurd rfl hs
  | fence =>
    show List.isPrefixOf _ (trimStart _) = false
    rw [hstart]
    rfl
  | heading => simp [Shape.fits, Line.heading?, hunindent]
  | rule => simp [Shape.fits, Line.isRule, hunindent]
  | quote => simp [Shape.fits, Line.quote?, hunindent]
  | ordered =>
    have hdigit : isDecimalDigit '|' = false := by decide
    simp [Shape.fits, Line.ordered?, hstart, hdigit]
  | unordered => simp [Shape.fits, Line.unordered?, hstart]

theorem isRow_bar {l : List Char} (hl : l.head? = some '|') : Line.isRow l = true := by
  rw [Line.isRow, List.contains_iff_mem]
  exact List.mem_of_mem_head? hl

/-- A row is not blank. -/
theorem trim_row {l : List Char} (hrow : Line.isRow l = true) : trim l ≠ [] := by
  have hbar : '|' ∈ l := by simpa [Line.isRow] using hrow
  exact List.ne_nil_of_mem (mem_trim hbar (by decide))

/-- Such a line neither starts another block in a table nor ends it. -/
theorem nextState_table_bar {l : List Char} (hl : l.head? = some '|')
    (following : Option (List Char)) : nextState l following (.block .table) = none := by
  have hother : otherShape l following (some .table) = none := by
    refine List.find?_eq_none.2 fun s hs => ?_
    have hne : s ≠ .table := by simpa using (List.mem_filter.1 hs).2
    simp [fits_bar hl following hne]
  rw [nextState_region rfl, hother]
  show (if Line.isRow l then _ else _) = _
  rw [if_pos (isRow_bar hl)]

/-! ## Tables as pages -/

/-- A page that stands in a table. -/
def tablePage (content : String) : Page := { state := .block .table, content }

/-- What a line adds to a table that is `fresh` while it shows nothing. -/
def shownRow (fresh : Bool) (l : List Char) : String :=
  if Line.isSeparator l then ""
  else if fresh then "<thead>" ++ rowMarkup "th" l ++ "</thead>" else rowMarkup "td" l

theorem isSeparator_trim (l : List Char) : Line.isSeparator (trim l) = Line.isSeparator l := by
  rw [Line.isSeparator, trim_trim]
  rfl

theorem rowCells_trim (cell : String) (l : List Char) :
    rowCells cell (trim l) = rowCells cell l := by
  rw [rowCells, Line.cells, trim_trim]
  rfl

/-- A line that is not blank is written as a row. -/
theorem tableLine_eq {l : List Char} (hl : trim l ≠ []) {k : Token State}
    (hk : k.text = String.ofList l) : tableLine k = shownRow k.fresh l := by
  have hempty : (trim l).isEmpty = false := by simpa using hl
  unfold tableLine shownRow rowMarkup
  dsimp only
  rw [hk, String.toList_ofList, hempty, Bool.false_or, isSeparator_trim, rowCells_trim,
    rowCells_trim]
  simp only [String.append_assoc]
  rfl

variable (code : String → String → String)

/-- A line with which a table goes on is its token. -/
theorem line_row {l : List Char} {following : Option (List Char)}
    (hnext : nextState l following (.block .table) = none) (content : String) :
    (tablePage content).line code l following = (tablePage content).keep l := by
  have hstate : (tablePage content).state ≠ .block .fence := by simp [tablePage]
  rw [Page.line, if_neg hstate, settle_of_none code hopLimit hnext]

/-- A line of a table becomes a row when it ends. -/
theorem endLine_row {l : List Char} (hl : trim l ≠ []) (content : String) :
    ((tablePage content).keep l).endLine code =
      tablePage (content ++ shownRow (content = "") l) := by
  have hkeep : (tablePage content).keep l =
      { state := .block .table, content, token := String.ofList l } := by
    simp [Page.keep, tablePage]
  have hwritten : Progress.written (table code) none
      (Page.tokenTo (.block .table) { state := .block .table, content, token := String.ofList l }) =
        shownRow (content = "") l := tableLine_eq hl rfl
  rw [hkeep, Page.endLine]
  show Page.write code _ _ = _
  rw [Page.write, hwritten]
  rfl

/-- The first row becomes the head of the table. -/
theorem endLine_header {l : List Char} (hrow : Line.isRow l = true)
    (hheader : Line.isSeparator l = false) :
    ((tablePage "").keep l).endLine code =
      tablePage ("<thead>" ++ rowMarkup "th" l ++ "</thead>") := by
  have hcontent : "" ++ shownRow true l = "<thead>" ++ rowMarkup "th" l ++ "</thead>" := by
    simp [shownRow, hheader]
  rw [endLine_row code (trim_row hrow), decide_eq_true rfl, hcontent]

/-- Where the text ends a table is finished like a line of it. -/
theorem finish_endLine {pg : Page} (hs : pg.state = .block .table) :
    (pg.endLine code).finish code = pg.finish code := by
  have hend : pg.endLine code = pg.write code .paragraph := by
    rw [Page.endLine, hs]
    show pg.write code (.block .table) = pg.write code .paragraph
    unfold Page.write Page.tokenTo
    rw [hs, written_target code rfl (by rintro ⟨⟩) (.block .table) .paragraph]
  have hstate : (pg.write code .paragraph).state = .block .table := hs
  rw [hend, Page.finish, write_left code hstate rfl rfl]
  rfl

/-- The markup of a table that has a head. -/
theorem finish_tablePage {content : String} (h : content ≠ "") :
    (tablePage content).finish code = "<table>" ++ content ++ "</table>" := by
  have hwrite : (tablePage content).write code .paragraph = tablePage content :=
    write_left code rfl rfl rfl _
  rw [Page.finish, hwrite, Page.closed, Table.wrap]
  show "" ++ (if content = "" then "" else "<table>" ++ content ++ "</table>") = _
  rw [if_neg h, String.empty_append]

/-- Lines after the head become the rows of the body, without the separators. -/
theorem finish_scan_rows {rows : List (List Char)} (hrows : ∀ l ∈ rows, l.head? = some '|')
    {content : String} (hcontent : content ≠ "") :
    ((tablePage content).scan code rows).finish code =
      "<table>" ++ (content ++ bodyMarkup (rows.filter isShownRow)) ++ "</table>" := by
  induction rows generalizing content with
  | nil =>
    show (tablePage content).finish code = _
    rw [finish_tablePage code hcontent]
    simp [bodyMarkup]
  | cons l rows ih =>
    obtain ⟨hl, hrest⟩ := List.forall_mem_cons.1 hrows
    have hnext := nextState_table_bar hl
    have hcontent' : content ++ shownRow false l ≠ "" :=
      fun h => hcontent (String.append_eq_empty_iff.1 h).1
    have hend : ((tablePage content).keep l).endLine code =
        tablePage (content ++ shownRow false l) := by
      rw [endLine_row code (trim_row (isRow_bar hl)), decide_eq_false hcontent]
    have hstep : ((tablePage content).scan code (l :: rows)).finish code =
        ((tablePage (content ++ shownRow false l)).scan code rows).finish code := by
      cases rows with
      | nil =>
        have hne : l ≠ [] := by
          rintro rfl
          cases hl
        rw [scan_last code hne, line_row code (hnext none), ← finish_endLine code rfl, hend]
        rfl
      | cons l' rows => rw [Page.scan, line_row code (hnext _), hend]
    rw [hstep, ih hrest hcontent', List.filter_cons, shownRow]
    cases hsep : Line.isSeparator l with
    | true => simp [isShownRow, hsep]
    | false => simp [isShownRow, hsep, bodyMarkup, String.append_assoc]

/-- A page on which nothing is written yet moves to another block without a trace. -/
theorem move_blank {s : State} (hs : s = .paragraph ∨ ∃ r, s = .block r ∧ isRegion r = true)
    (target : State) : Page.move code target { state := s } = { state := target } := by
  have hwrite : Page.write code target { state := s } = { state := s } := by
    rcases hs with rfl | ⟨r, rfl, hregion⟩
    · rfl
    · exact write_left code rfl hregion rfl target
  rw [Page.move, hwrite, Page.closed, Table.wrap, if_pos rfl]
  rfl

/-- A table is the first shape of a line that opens no fence. -/
theorem otherShape_table {l : List Char} {following : Option (List Char)}
    (hfence : Line.opensFence l = false) (htable : Shape.table.fits l following = true) :
    otherShape l following none = some .table := by
  have hnot : Shape.fence.fits l following = false := hfence
  show List.find? _ (Shape.fence :: Shape.table :: _) = _
  rw [List.find?_cons_of_neg (by simp [hnot]), List.find?_cons_of_pos (by simpa using htable)]

/-- A table is entered at its first line. -/
theorem settle_table {l : List Char} {following : Option (List Char)}
    (hfence : Line.opensFence l = false) (htable : Shape.table.fits l following = true)
    (hops : Nat) : Page.settle code l following (hops + 1) {} =
      Page.settle code l following hops (tablePage "") := by
  have hnext : nextState l following State.paragraph = some (.block .table) := by
    rw [nextState, otherShape_table hfence htable]
    rfl
  have hmove : ({} : Page).move code (.block .table) = tablePage "" :=
    move_blank code (Or.inl rfl) _
  rw [settle_succ code hops hnext (by simp), hmove]

/-- A line that starts with a bar starts a table if a separator comes after it. -/
theorem line_header {l separator : List Char} (hl : l.head? = some '|')
    (hseparator : Line.isSeparator separator = true) :
    Page.line code l (some separator) {} = (tablePage "").keep l := by
  have hne : Shape.fence ≠ .table := by decide
  have hfence : Line.opensFence l = false := fits_bar hl (some separator) hne
  have htable : Shape.table.fits l (some separator) = true := by
    simp [Shape.fits, isRow_bar hl, hseparator]
  rw [Page.line, if_neg (by simp), hopLimit, settle_table code hfence htable 15,
    settle_of_none code 15 (nextState_table_bar hl _)]

/-- **Lines that start with a bar are read as a table**, if the second one is a separator. -/
theorem finish_scan_table {header separator : List Char} {rows : List (List Char)}
    (hbar : ∀ l ∈ header :: separator :: rows, l.head? = some '|')
    (hheader : Line.isSeparator header = false) (hseparator : Line.isSeparator separator = true) :
    (Page.scan code {} (header :: separator :: rows)).finish code =
      tableMarkup header (rows.filter isShownRow) := by
  obtain ⟨hhead, hrest⟩ := List.forall_mem_cons.1 hbar
  have hne : "<thead>" ++ rowMarkup "th" header ++ "</thead>" ≠ "" := by simp
  have hhidden : isShownRow separator = false := by simp [isShownRow, hseparator]
  rw [Page.scan, line_header code hhead hseparator, endLine_header code (isRow_bar hhead) hheader,
    finish_scan_rows code hrest hne, List.filter_cons_of_neg (by simp [hhidden])]
  rfl

end Block

/-! ## Answers -/

/-- The cursor behind an answer, if it is shown. -/
def Options.cursor (o : Options) : String := if o.typingCursor then Markup.typingCursor else ""

/-- **A table shows the rows of its body that are no separators**, one after the other, and all
of them exactly if none is. -/
theorem render_table (o : Options) {header separator : String} {rows : List String}
    (hbar : ∀ l ∈ header :: separator :: rows, l.toList.head? = some '|')
    (hline : ∀ l ∈ header :: separator :: rows, '\n' ∉ l.toList ∧ '\r' ∉ l.toList)
    (hheader : Line.isSeparator header.toList = false)
    (hseparator : Line.isSeparator separator.toList = true) :
    render o ("\n".intercalate (header :: separator :: rows)) =
        Block.tableMarkup header.toList ((rows.map String.toList).filter Block.isShownRow) ++
          o.cursor ∧
      (render o ("\n".intercalate (header :: separator :: rows)) =
          Block.tableMarkup header.toList (rows.map String.toList) ++ o.cursor ↔
        ∀ row ∈ rows, Line.isSeparator row.toList = false) := by
  obtain ⟨init, last, hlast⟩ : ∃ init last, header :: separator :: rows = init ++ [last] :=
    ⟨_, _, (List.dropLast_append_getLast (List.cons_ne_nil _ _)).symm⟩
  have hnonempty : last ≠ "" := by
    rintro rfl
    exact absurd (hbar "" (by rw [hlast]; simp)) (by simp)
  have hlines : splitOn '\n' (prepare ("\n".intercalate (header :: separator :: rows))).toList =
      header.toList :: separator.toList :: rows.map String.toList := by
    rw [hlast] at hline ⊢
    rw [splitOn_prepare_intercalate hline hnonempty, ← hlast]
    rfl
  have hrun : (Block.table o.code).run (prepare ("\n".intercalate (header :: separator :: rows))) =
      Block.tableMarkup header.toList ((rows.map String.toList).filter Block.isShownRow) := by
    rw [Block.run_eq_finish, hlines]
    refine Block.finish_scan_table o.code ?_ hheader hseparator
    intro l hl
    obtain ⟨s, hs, rfl⟩ : ∃ s ∈ header :: separator :: rows, s.toList = l :=
      List.mem_map.1 (show l ∈ (header :: separator :: rows).map String.toList from hl)
    exact hbar s hs
  have hrender : render o ("\n".intercalate (header :: separator :: rows)) =
      Block.tableMarkup header.toList ((rows.map String.toList).filter Block.isShownRow) ++
        o.cursor := by
    unfold render Options.cursor
    dsimp only
    rw [hrun]
    split
    · exact withCursor_of_tag (Block.toList_tableMarkup ..) (by decide)
    · rw [String.append_empty]
  refine ⟨hrender, ?_⟩
  rw [hrender, String.append_left_inj, Block.tableMarkup_shown_iff]
  simp [Block.isShownRow]

/-- Markup in the cells of a table that is still streaming. -/
theorem render_table_streaming :
    (∀ l ∈ ["| *a* | b", "|:-:|", "| <c> |"], l.toList.head? = some '|') ∧
      (∀ l ∈ ["| *a* | b", "|:-:|", "| <c> |"], '\n' ∉ l.toList ∧ '\r' ∉ l.toList) ∧
      Line.isSeparator "| *a* | b".toList = false ∧ Line.isSeparator "|:-:|".toList = true ∧
      render .streaming ("\n".intercalate ["| *a* | b", "|:-:|", "| <c> |"]) =
        Block.tableMarkup "| *a* | b".toList ["| <c> |".toList] ++ typingCursor := by
  have hbar : ∀ l ∈ ["| *a* | b", "|:-:|", "| <c> |"], l.toList.head? = some '|' := by decide
  have hline : ∀ l ∈ ["| *a* | b", "|:-:|", "| <c> |"],
      '\n' ∉ l.toList ∧ '\r' ∉ l.toList := by decide
  have hheader : Line.isSeparator "| *a* | b".toList = false := by decide
  have hseparator : Line.isSeparator "|:-:|".toList = true := by decide
  obtain ⟨-, hall⟩ := render_table .streaming hbar hline hheader hseparator
  exact ⟨hbar, hline, hheader, hseparator, hall.2 (by decide)⟩

/-- A row of the body that looks like a separator is lost. -/
theorem render_table_lost :
    (∀ l ∈ ["|a|", "|-|", "|-|"], l.toList.head? = some '|') ∧
      (∀ l ∈ ["|a|", "|-|", "|-|"], '\n' ∉ l.toList ∧ '\r' ∉ l.toList) ∧
      Line.isSeparator "|a|".toList = false ∧ Line.isSeparator "|-|".toList = true ∧
      render .final ("\n".intercalate ["|a|", "|-|", "|-|"]) ≠
        Block.tableMarkup "|a|".toList ["|-|".toList] := by
  decide +kernel

end Markup
end AnswerStream
