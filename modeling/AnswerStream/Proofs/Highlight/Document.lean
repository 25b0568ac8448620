import Mathlib.Data.List.Forall2
import AnswerStream.Highlight.Registry
import AnswerStream.Proofs.Highlight.Text

/-!
# Documents keep their text

A document is scanned with placeholders for its embedded bodies, and each placeholder is
then replaced by its body where it occurs first.  So three things have to be known: that a
placeholder comes through the scan in one piece, that it occurs first where it was put, and
that the pieces of the document and its bodies are the document.

## Why a placeholder is found where it was put

A placeholder starts with a run of the private character that is longer than any in the
document.  What stands before it in the end is an initial part of the document, with tags,
and it ends with the right bracket of an opening tag.  The run can neither lie in it nor
start in it and go on into the placeholder.
-/

namespace AnswerStream
namespace Highlight
namespace Html

open Text Scan Markup

/-! ## The scan -/

/-- A transition that fires at a text and takes as much as the text is long takes it. -/
theorem take_of_startsWith {c : Context} {pat : List Char} {n : Nat}
    (h : c.startsWith pat = true) (hn : n + 1 = pat.length) : c.ch :: c.after.take n = pat := by
  obtain ⟨rest, hrest⟩ := List.isPrefixOf_iff_prefix.1 h
  have htake : (c.ch :: c.after).take pat.length = pat := by
    rw [← hrest, List.take_left]
  rwa [← hn, List.take_succ_cons] at htake

/-- White space is nothing that placeholders are made of. -/
theorem not_inPlaceholder_of_isBlank {c : Char} (h : isBlank c = true) : ¬ InPlaceholder c := by
  have hdigit : c.isDigit = true → 48 ≤ c.toNat ∧ c.toNat ≤ 57 := fun hd => by
    simpa [Char.isDigit, Char.le_def, UInt32.le_iff_toNat_le] using hd
  have hmarker : c = markerChar → c.toNat = 0xE000 := fun hc => by rw [hc]; rfl
  have hspace : c = ' ' ↔ c.toNat = 32 := Char.toNat_inj.symm
  simp only [isBlank, Bool.or_eq_true, Bool.and_eq_true, beq_iff_eq, decide_eq_true_eq,
    hspace] at h
  rintro (hc | hc)
  · have hrange := hdigit hc
    omega
  · have hprivate := hmarker hc
    omega

theorem usual (s : State) : ∀ tr ∈ (table.rules s).transitions, Usual tr := by
  intro tr htr
  have hrule := isRule_of_mem htr
  exact ⟨hrule.chars_tokens.1, hrule.place_ne.1⟩

/-- The delimiter of a region is a quote. -/
theorem eq_quote_of_gives {d : Char} (h : table.Gives (some d)) : d = '"' ∨ d = '\x27' := by
  rcases h with h | ⟨s, tr, htr, c, hfires, hd⟩
  · cases h
  · cases isRule_of_mem htr with
    | openValue =>
      obtain rfl := Option.some.inj hd
      simpa using hfires
    | openComment | openTag | closeTag | between | closeValue | closeComment => cases hd

/-- What a transition takes is not empty and holds nothing of which placeholders are made. -/
theorem taken_spec {s : State} {tr : Transition State} {cs : List Char}
    (h : table.Takes s tr cs) : cs ≠ [] ∧ ∀ c ∈ cs, ¬ InPlaceholder c := by
  obtain ⟨htr, c, hpair, hfires, rfl⟩ := h
  have hone : ¬ InPlaceholder c.ch → [c.ch] ≠ [] ∧ ∀ d ∈ [c.ch], ¬ InPlaceholder d :=
    fun hc => ⟨by simp, by simpa using hc⟩
  have hpat : ∀ pat n, c.startsWith pat = true → n + 1 = pat.length →
      (∀ d ∈ pat, ¬ InPlaceholder d) → c.ch :: c.after.take n ≠ [] ∧
        ∀ d ∈ c.ch :: c.after.take n, ¬ InPlaceholder d := by
    intro pat n hstarts hn hd
    rw [take_of_startsWith hstarts hn]
    exact ⟨by rintro rfl; simp at hn, hd⟩
  cases isRule_of_mem htr with
  | openComment => exact hpat _ 3 hfires rfl (by simp [InPlaceholder, markerChar])
  | openTag =>
    refine hone ?_
    have hlt : c.ch = '<' := by simp_all [startsTag]
    rw [hlt]
    decide
  | openValue =>
    refine hone ?_
    rcases (by simpa using hfires : c.ch = '"' ∨ c.ch = '\x27') with h | h <;> rw [h] <;> decide
  | closeTag =>
    refine hone ?_
    rw [(by simpa using hfires : c.ch = '>')]
    decide
  | between =>
    refine hone ?_
    rcases (by simpa using hfires : isBlank c.ch = true ∨ c.ch = '=') with h | h
    · exact not_inPlaceholder_of_isBlank h
    · rw [h]
      decide
  | closeValue =>
    refine hone ?_
    have hd : c.pair = some c.ch := by simpa [Context.atPair] using hfires
    rw [hd] at hpair
    rcases eq_quote_of_gives hpair with h | h <;> rw [h] <;> decide
  | closeComment => exact hpat _ 2 hfires rfl (by simp [InPlaceholder, markerChar])

theorem transcribes : Transcribes InPlaceholder table where
  toWritesTidily := writesTidily
  wrapper s := by
    cases s with
    | text => exact Or.inl ⟨rfl, rfl⟩
    | tag => exact Or.inr ⟨.tag, rfl, rfl⟩
    | value => exact Or.inr ⟨.string, rfl, rfl⟩
    | comment => exact Or.inr ⟨.comment, rfl, rfl⟩
  marked_token s f hf k := by
    cases s with
    | tag =>
      obtain rfl := Option.some.inj hf
      unfold tagWord
      split
      · exact Or.inl rfl
      · exact Or.inr ⟨.attr, rfl⟩
    | _ => cases hf
  not_drop s tr htr := (usual s tr htr).2
  own_chars s tr cs ht f hf := by
    rw [(usual s tr ht.1).1] at hf
    cases hf
  not_word s tr cs ht := (taken_spec ht).2
  taken s tr cs ht hcs := absurd hcs (taken_spec ht).1

/-! ## The bodies -/

/-- A document is its bodies with what stands before each, and what follows the last.  What
stands before a body ends with the right bracket of its opening tag. -/
theorem cut_spec (cs : List Char) :
    (cut cs).1.flatMap (fun b => b.lead ++ b.text) ++ (cut cs).2 = cs ∧
      ∀ b ∈ (cut cs).1, ∃ tag, b.lead = tag ++ ['>'] := by
  fun_induction cut cs with
  | case1 cs parts hnone => exact ⟨rfl, by simp⟩
  | case2 cs parts element helement tag htag => exact ⟨rfl, by simp⟩
  | case3 cs parts element helement tag gt inside htag body rest ih =>
    have hparts : parts.1 ++ parts.2 = cs := splitWhere_append _ cs
    have hopen : tag.1 ++ tag.2 = parts.2 := splitWhere_append _ parts.2
    have hbody : body.1 ++ body.2 = inside := splitWhere_append _ inside
    have hgt : gt = '>' := by
      rcases splitWhere_snd (fun rest => rest.head? == some '>') parts.2 with h | h
      · exact absurd (htag.symm.trans h) (by simp)
      · have hhead : tag.2.head? = some '>' := by simpa using h
        simpa [htag] using hhead
    refine ⟨?_, ?_⟩
    · rw [htag] at hopen
      rw [List.flatMap_cons, List.append_assoc, ih.1]
      calc parts.1 ++ tag.1 ++ [gt] ++ body.1 ++ body.2
          = parts.1 ++ (tag.1 ++ gt :: (body.1 ++ body.2)) := by simp
        _ = cs := by rw [hbody, hopen, hparts]
    · intro b hb
      rcases List.mem_cons.1 hb with rfl | hb
      · exact ⟨parts.1 ++ tag.1, by rw [hgt]⟩
      · exact ih.2 b hb

/-! ## The marker -/

theorem longestRunFrom_mono (c : Char) {a b : Nat} (h : a ≤ b) (cs : List Char) :
    longestRunFrom c a cs ≤ longestRunFrom c b cs := by
  induction cs generalizing a b with
  | nil => exact h
  | cons d cs ih =>
    unfold longestRunFrom
    split
    · exact ih (Nat.succ_le_succ h)
    · omega

/-- A text has the runs of its parts. -/
theorem longestRunFrom_le_append (c : Char) (run : Nat) (l r : List Char) :
    longestRunFrom c 0 r ≤ longestRunFrom c run (l ++ r) := by
  induction l generalizing run with
  | nil => exact longestRunFrom_mono c (Nat.zero_le run) r
  | cons d l ih =>
    rw [List.cons_append, longestRunFrom]
    split
    · exact ih (run + 1)
    · exact Nat.le_trans (ih 0) (Nat.le_max_right ..)

theorem le_longestRunFrom_replicate (c : Char) (run k : Nat) (r : List Char) :
    run + k ≤ longestRunFrom c run (List.replicate k c ++ r) := by
  induction k generalizing run with
  | zero =>
    have h : longestRunFrom c run [] ≤ longestRunFrom c run r := by
      induction r generalizing run with
      | nil => exact Nat.le_refl _
      | cons d r ih =>
        unfold longestRunFrom
        split
        · exact Nat.le_trans (Nat.le_succ run) (ih (run + 1))
        · exact Nat.le_max_left ..
    exact h
  | succ k ih =>
    rw [List.replicate_succ, List.cons_append, longestRunFrom, if_pos rfl]
    have hnext := ih (run + 1)
    omega

/-- A run that occurs in a text is no longer than the longest. -/
theorem le_longestRun {c : Char} {k : Nat} {cs : List Char}
    (h : List.replicate k c <:+: cs) : k ≤ longestRun c cs := by
  obtain ⟨l, r, rfl⟩ := h
  have hrun := le_longestRunFrom_replicate c 0 k r
  have happ := longestRunFrom_le_append c 0 l (List.replicate k c ++ r)
  rw [List.append_assoc, longestRun]
  omega

/-- The longest run occurs. -/
theorem longestRun_occurs (c : Char) (cs : List Char) :
    List.replicate (longestRun c cs) c <:+: cs := by
  have hfrom : ∀ run, List.replicate (longestRunFrom c run cs) c <:+: List.replicate run c ++ cs := by
    induction cs with
    | nil => exact fun run => (List.prefix_append ..).isInfix
    | cons d cs ih =>
      intro run
      rw [longestRunFrom]
      split
      · subst_vars
        have hmore := ih (run + 1)
        rwa [List.replicate_succ' (n := run), List.append_assoc, List.singleton_append] at hmore
      · rcases Nat.le_total run (longestRunFrom c 0 cs) with hle | hle
        · rw [Nat.max_eq_right hle]
          have hlater := ih 0
          exact hlater.trans ⟨List.replicate run c ++ [d], [], by simp⟩
        · rw [Nat.max_eq_left hle]
          exact (List.prefix_append ..).isInfix
  exact hfrom 0

/-- A word without the character ends a run and starts none. -/
theorem longestRunFrom_word {c : Char} {w : List Char} (hne : w ≠ []) (hw : ∀ d ∈ w, d ≠ c)
    (run : Nat) (r : List Char) :
    longestRunFrom c run (w ++ r) = max run (longestRunFrom c 0 r) := by
  induction w generalizing run with
  | nil => exact absurd rfl hne
  | cons d w ih =>
    rw [List.cons_append, longestRunFrom, if_neg (hw d (List.mem_cons_self ..))]
    cases w with
    | nil => rfl
    | cons e w =>
      rw [ih (by simp) fun f hf => hw f (List.mem_cons_of_mem _ hf)]
      omega

/-- A character is written as it is or, if it is not the private one, as an entity. -/
theorem toList_escapeChar (c : Char) : (escapeChar c).toList = [c] ∨
    c ≠ markerChar ∧ ∃ name, (escapeChar c).toList = '&' :: (name ++ [';']) ∧
      ∀ d ∈ '&' :: (name ++ [';']), d ≠ markerChar := by
  unfold escapeChar
  split
  · exact Or.inr ⟨by rw [‹c = _›]; decide, ['a', 'm', 'p'], rfl, by simp [markerChar]⟩
  · split
    · exact Or.inr ⟨by rw [‹c = _›]; decide, ['l', 't'], rfl, by simp [markerChar]⟩
    · split
      · exact Or.inr ⟨by rw [‹c = _›]; decide, ['g', 't'], rfl, by simp [markerChar]⟩
      · exact Or.inl (String.toList_singleton _)

/-- Escaping makes no run of the private character longer. -/
theorem longestRun_escaped (x : List Char) :
    longestRun markerChar (escaped x) = longestRun markerChar x := by
  have hfrom : ∀ run, longestRunFrom markerChar run (escaped x) =
      longestRunFrom markerChar run x := by
    induction x with
    | nil => exact fun _ => rfl
    | cons c x ih =>
      intro run
      show longestRunFrom markerChar run ((escapeChar c).toList ++ escaped x) = _
      rcases toList_escapeChar c with hsame | ⟨hc, name, hentity, hname⟩
      · simp [hsame, longestRunFrom, ih]
      · rw [hentity, longestRunFrom_word (by simp) hname, ih, longestRunFrom, if_neg hc]
  exact hfrom 0

/-! ## The first occurrence -/

/-- A text that first occurs at some place is replaced there. -/
theorem replaceFirst_append {pat l : List Char} (new r : List Char) (hne : pat ≠ [])
    (hno : ∀ x y, l = x ++ y → y ≠ [] → ¬ pat <+: y ++ (pat ++ r)) :
    replaceFirst pat new (l ++ pat ++ r) = l ++ new ++ r := by
  have hsplit : splitAtText pat (l ++ (pat ++ r)) = (l, pat ++ r) := by
    refine splitWhere_append_of_not ?_ (by simp [hne]) fun x y hxy hy => ?_
    · exact List.isPrefixOf_iff_prefix.2 (List.prefix_append ..)
    · exact Bool.eq_false_iff.2 fun h => hno x y hxy hy (List.isPrefixOf_iff_prefix.1 h)
  rw [List.append_assoc, replaceFirst, hsplit]
  simp [hne]

/-! ## Placeholders in markup -/

/-- A word of which placeholders are made is no part of a tag. -/
theorem stripTags_word {l w r : List Char} (hw : ∀ c ∈ w, InPlaceholder c) (hne : w ≠ [])
    (h : MadeOf Tag.OfCode (l ++ w ++ r)) :
    stripTags (l ++ w ++ r) = stripTags l ++ w ++ stripTags r := by
  have hliteral : ∀ c ∈ w, Literal Tag.OfCode c := fun c hc => (hw c hc).literal
  have hplain : escaped w = w := escaped_of_plain fun c hc => (hliteral c hc).plain
  have hword : Marks w w := by
    have htext := Marks.text w
    rwa [hplain] at htext
  obtain ⟨hl, -⟩ := h.of_append_word hliteral hne
  rw [List.append_assoc, stripTags_append (hl.mono fun _ => Tag.OfCode.known),
    stripTags_append hword.known, hword.stripTags_eq, hplain, List.append_assoc]

/-- A run of the private character that stands in markup stands in the code. -/
theorem run_of_marks {m x : List Char} (h : Marks m x) {k : Nat}
    (hin : List.replicate k markerChar <:+: m) : k ≤ longestRun markerChar x := by
  obtain ⟨l, r, rfl⟩ := hin
  cases k with
  | zero => exact Nat.zero_le _
  | succ k =>
    have hstrip := stripTags_word (w := List.replicate (k + 1) markerChar)
      (fun c hc => Or.inr (List.eq_of_mem_replicate hc)) (by simp) h.made
    rw [h.stripTags_eq] at hstrip
    rw [← longestRun_escaped]
    exact le_longestRun ⟨_, _, hstrip.symm⟩

/-- The marker does not occur in the document. -/
theorem marker_not_occurs (code : List Char) : ¬ marker code <:+: code := fun h => by
  have hle := le_longestRun h
  omega

/-- Nor does it occur in the markup of a part in which it does not occur. -/
theorem marker_not_infix {code m x : List Char} (h : Marks m x) (hx : ¬ marker code <:+: x) :
    ¬ marker code <:+: m := by
  intro hin
  obtain ⟨d, hd⟩ := Nat.exists_eq_add_of_le (run_of_marks h hin)
  have hrun := longestRun_occurs markerChar x
  rw [hd, ← List.replicate_append_replicate] at hrun
  exact hx ((List.prefix_append ..).isInfix.trans hrun)

/-- Markup that starts with a character of which placeholders are made is markup of code that
starts with it. -/
theorem head_of_marks {m x : List Char} (h : Marks m x) {c : Char} (hc : c ∈ m.head?)
    (hin : InPlaceholder c) : c ∈ x.head? := by
  obtain ⟨r, rfl⟩ := List.head?_eq_some_iff.1 hc
  have hword := stripTags_word (l := []) (w := [c]) (r := r) (by simpa using hin) (by simp) h.made
  rw [List.nil_append, List.singleton_append, h.stripTags_eq] at hword
  cases x with
  | nil => simp [escaped, stripTags, segments] at hword
  | cons d x =>
    have hd : (escapeChar d).toList ++ escaped x = c :: stripTags r := hword
    rcases toList_escapeChar d with hsame | ⟨-, name, hentity, -⟩
    · rw [hsame] at hd
      exact congrArg some (List.cons.inj hd).1
    · rw [hentity] at hd
      rw [← (List.cons.inj hd).1] at hin
      exact absurd hin (by decide)

/-- The same of the end. -/
theorem getLast_of_marks {m x : List Char} (h : Marks m x) {c : Char} (hc : c ∈ m.getLast?)
    (hin : InPlaceholder c) : c ∈ x.getLast? := by
  obtain ⟨l, rfl⟩ := List.getLast?_eq_some_iff.1 hc
  have hword := stripTags_word (l := l) (w := [c]) (r := []) (by simpa using hin) (by simp)
    (by simpa using h.made)
  have hnil : stripTags [] = [] := rfl
  rw [List.append_nil, h.stripTags_eq, hnil, List.append_nil] at hword
  have hlast := congrArg List.getLast? hword
  rw [List.getLast?_concat] at hlast
  rcases List.eq_nil_or_concat x with rfl | ⟨x, d, rfl⟩
  · cases hlast
  · have hd : escaped [d] = (escapeChar d).toList := List.append_nil _
    rw [List.concat_eq_append, escaped_append, hd] at hlast
    rcases toList_escapeChar d with hsame | ⟨-, name, hentity, -⟩
    · rw [hsame, List.getLast?_concat] at hlast
      rwa [List.concat_eq_append, List.getLast?_concat]
    · rw [hentity, ← List.cons_append, ← List.append_assoc, List.getLast?_concat] at hlast
      rw [← Option.some.inj hlast] at hin
      exact absurd hin (by decide)

theorem marker_prefix_placeholder (mark : List Char) (i : Nat) : mark <+: placeholder mark i := by
  rw [placeholder, List.append_assoc]
  exact List.prefix_append ..

/-- After the markup of a part of the document that ends with a tag, a placeholder stands
where it first occurs. -/
theorem placeholder_first {code m x y : List Char} (h : Marks m (x ++ ['>']))
    (hx : x ++ ['>'] ++ y = code) (i : Nat) (r : List Char) :
    ∀ l s, m = l ++ s → s ≠ [] →
      ¬ placeholder (marker code) i <+: s ++ (placeholder (marker code) i ++ r) := by
  intro l s hm hs hprefix
  obtain ⟨s, c, rfl⟩ := (List.eq_nil_or_concat s).resolve_left hs
  have hc : c ≠ markerChar := by
    rintro rfl
    have hlast := getLast_of_marks h (c := markerChar) (by simp [hm]) (Or.inr rfl)
    simp [markerChar] at hlast
  have hmark : marker code <+: s.concat c ++ (placeholder (marker code) i ++ r) :=
    (marker_prefix_placeholder (marker code) i).trans hprefix
  rcases List.prefix_or_prefix_of_prefix hmark (List.prefix_append ..) with hin | hout
  · -- the marker would lie in the markup before
    have hno : ¬ marker code <:+: x ++ ['>'] := fun hocc => marker_not_occurs code <| by
      rw [← hx] at hocc ⊢
      exact hocc.trans (List.prefix_append ..).isInfix
    refine marker_not_infix h hno ?_
    rw [hm]
    exact hin.isInfix.trans (List.suffix_append ..).isInfix
  · -- or the markup before would end with a part of it
    have hmem : c ∈ marker code := hout.subset (by simp)
    exact hc (List.eq_of_mem_replicate hmem)

/-! ## The splice -/

/-- A body whose lead has been scanned. -/
def Scanned (b' b : Body) : Prop := ∃ m, Shows InPlaceholder m b.lead ∧ b' = { b with lead := m }

/-- What the scan of a skeleton writes is a skeleton again. -/
theorem exists_skeleton {code m last : List Char} {bodies : List Body} {i : Nat}
    (h : Shows InPlaceholder m (skeleton (marker code) i bodies last)) :
    ∃ bodies' last', List.Forall₂ Scanned bodies' bodies ∧ Shows InPlaceholder last' last ∧
      m = skeleton (marker code) i bodies' last' := by
  induction bodies generalizing i m with
  | nil => exact ⟨[], m, .nil, h, rfl⟩
  | cons b bodies ih =>
    have hplain : escaped (placeholder (marker code) i) = placeholder (marker code) i :=
      escaped_of_plain fun c hc => (inPlaceholder_of_mem c hc).literal.plain
    obtain ⟨u, v, rfl, hu, hv⟩ := Shows.split placeholder_ne_nil inPlaceholder_of_mem hplain h
    obtain ⟨bodies', last', hbodies, hlast, rfl⟩ := ih hv
    exact ⟨{ b with lead := u } :: bodies', last', .cons ⟨u, hu, rfl⟩ hbodies, hlast, rfl⟩

theorem map_eq_of_scanned {α : Type} {g : Body → α} (hg : ∀ b m, g { b with lead := m } = g b)
    {bodies' bodies : List Body} (h : List.Forall₂ Scanned bodies' bodies) :
    bodies'.map g = bodies.map g := by
  induction h with
  | nil => rfl
  | cons hb _ ih =>
    obtain ⟨m, -, rfl⟩ := hb
    rw [List.map_cons, List.map_cons, hg, ih]

/-- What is put together of the markup of pieces and bodies is markup of the document. -/
theorem marks_pieces {f : Body → List Char} {bodies' bodies : List Body} {last' last : List Char}
    (hbodies : List.Forall₂ Scanned bodies' bodies) (hlast : Shows InPlaceholder last' last)
    (hf : ∀ b, Marks (f b) b.text) :
    Marks (bodies'.flatMap (fun b => b.lead ++ f b) ++ last')
      (bodies.flatMap (fun b => b.lead ++ b.text) ++ last) := by
  induction hbodies with
  | nil => exact hlast.marks
  | @cons b' b bodies' bodies hb _ ih =>
    obtain ⟨u, hu, rfl⟩ := hb
    have happ := (hu.marks.append (hf { b with lead := u })).append ih
    simpa using happ

/-- Placeholders that are replaced one after the other are replaced where they were put.  What
is done already is the markup `l` of the part `x` of the document. -/
theorem splice_skeleton {code : List Char} {f : Body → List Char} {bodies' bodies : List Body}
    {last' last : List Char} (i : Nat) {l x : List Char} (hl : Marks l x)
    (hbodies : List.Forall₂ Scanned bodies' bodies)
    (hcode : x ++ (bodies.flatMap (fun b => b.lead ++ b.text) ++ last) = code)
    (hlead : ∀ b ∈ bodies, ∃ tag, b.lead = tag ++ ['>']) (hf : ∀ b, Marks (f b) b.text) :
    splice (marker code) i (bodies'.map f) (l ++ skeleton (marker code) i bodies' last') =
      l ++ (bodies'.flatMap (fun b => b.lead ++ f b) ++ last') := by
  induction hbodies generalizing i l x with
  | nil => rfl
  | @cons b' b bodies' bodies hb _ ih =>
    obtain ⟨u, hu, rfl⟩ := hb
    obtain ⟨tag, htag⟩ := hlead b (List.mem_cons_self ..)
    have hbefore : Marks (l ++ u) (x ++ tag ++ ['>']) := by
      have happ := hl.append hu.marks
      rwa [htag, ← List.append_assoc] at happ
    have hrest : x ++ tag ++ ['>'] ++
        (b.text ++ (bodies.flatMap (fun b => b.lead ++ b.text) ++ last)) = code := by
      rw [← hcode, List.flatMap_cons, htag]
      simp
    have hfirst := replaceFirst_append (f { b with lead := u })
      (skeleton (marker code) (i + 1) bodies' last') placeholder_ne_nil
      (placeholder_first hbefore hrest i (skeleton (marker code) (i + 1) bodies' last'))
    have hskeleton : l ++ skeleton (marker code) i ({ b with lead := u } :: bodies') last' =
        l ++ u ++ placeholder (marker code) i ++ skeleton (marker code) (i + 1) bodies' last' := by
      simp [skeleton]
    rw [List.map_cons, splice, hskeleton, hfirst, ih (i + 1) (x := x ++ b.lead ++ b.text)]
    · simp
    · exact (hl.append hu.marks).append (hf _)
    · rw [← hcode, List.flatMap_cons]
      simp
    · exact fun b' hb' => hlead b' (List.mem_cons_of_mem _ hb')

/-- A body as it is marked up. -/
def markedBody (inside : Embedding → String → String) (b : Body) : List Char :=
  (inside b.element (String.ofList b.text)).toList

/-- A document is written as its pieces and its bodies, each marked up on its own. -/
theorem exists_pieces {inside : Embedding → String → String}
    (h : ∀ e s, Marks (inside e s).toList s.toList) (code : String) :
    ∃ bodies last, List.Forall₂ Scanned bodies (cut code.toList).1 ∧
      Shows InPlaceholder last (cut code.toList).2 ∧
      (table.run (String.ofList (skeleton (marker code.toList) 0 (cut code.toList).1
        (cut code.toList).2))).toList = skeleton (marker code.toList) 0 bodies last ∧
      (highlight inside code).toList =
        bodies.flatMap (fun b => b.lead ++ markedBody inside b) ++ last := by
  have hscan := transcribes.run (String.ofList
    (skeleton (marker code.toList) 0 (cut code.toList).1 (cut code.toList).2))
  rw [String.toList_ofList] at hscan
  obtain ⟨bodies, last, hbodies, hlast, hrun⟩ := exists_skeleton hscan
  obtain ⟨hcode, hlead⟩ := cut_spec code.toList
  have hsame : bodies.map (markedBody inside) = (cut code.toList).1.map (markedBody inside) :=
    map_eq_of_scanned (fun _ _ => rfl) hbodies
  have hsplice : splice (marker code.toList) 0 (bodies.map (markedBody inside))
      ([] ++ skeleton (marker code.toList) 0 bodies last) =
        [] ++ (bodies.flatMap (fun b => b.lead ++ markedBody inside b) ++ last) :=
    splice_skeleton 0 Marks.nil hbodies hcode hlead fun b => by
      simpa [markedBody] using h b.element (String.ofList b.text)
  refine ⟨bodies, last, hbodies, hlast, hrun, ?_⟩
  rw [hsame, ← hrun, List.nil_append, List.nil_append] at hsplice
  rw [highlight, String.toList_ofList]
  exact hsplice

/-- A document with its bodies marked up on their own keeps its text. -/
theorem marks_highlight {inside : Embedding → String → String}
    (h : ∀ e s, Marks (inside e s).toList s.toList) (code : String) :
    Marks (highlight inside code).toList code.toList := by
  obtain ⟨bodies, last, hbodies, hlast, -, hwritten⟩ := exists_pieces h code
  have hmarks := marks_pieces (f := markedBody inside) hbodies hlast fun b => by
    simpa [markedBody] using h b.element (String.ofList b.text)
  rwa [← hwritten, (cut_spec code.toList).1] at hmarks

end Html

open Text Markup

theorem Language.marks_runFlat (l : Language) (code : String) :
    Marks (l.runFlat code).toList code.toList := by
  unfold Language.runFlat
  split
  · exact ((Expression.transcribes _ _).run code).marks
  · exact (Css.transcribes.run code).marks
  · exact (Yaml.transcribes.run code).marks
  · exact (Html.transcribes.run code).marks

/-- What is written under a tag keeps the code. -/
theorem marks_under_tag (tag code : String) : Marks (highlight tag code).toList code.toList := by
  unfold highlight
  split
  · unfold Language.run
    split
    · exact Html.marks_highlight (fun e s => Language.marks_runFlat _ s) code
    · exact Language.marks_runFlat _ code
  · rw [toList_escape_eq]
    exact Marks.text _

/-- **Highlighting never changes the code.**  Whatever tables a registry has built, under
every tag it writes text with properly nested `span` tags of roles, and without these tags
the text is the escaped code. -/
theorem Registry.highlight_keeps_code (r : Registry) (tag code : String) :
    Marked (r.highlight tag code).1 ∧
      stripTags (r.highlight tag code).1.toList = (escape code).toList := by
  rw [fst_highlight, toList_escape_eq]
  exact ⟨marked_highlight tag code, (marks_under_tag tag code).stripTags_eq⟩

end Highlight
end AnswerStream
