import AnswerStream.Proofs.Highlight.Document
import AnswerStream.Proofs.Text.Trim

/-!
# Bodies are put back where they were cut out

Placeholders are replaced one after the other, each where it occurs first in what the earlier
replacements have left.  `run_html_eq_replaceAll` says that this is the same as replacing all
of them at once in what the scan of the skeleton writes, where each of them occurs exactly
once; and that nothing of a marker is left.

## Where placeholders occur

`Parted` says what it takes to put placeholders between pieces of text: no marker occurs in a
piece, and where a piece meets a placeholder it has a character of which no placeholder is
made.  An occurrence of a placeholder then lies in one piece, which holds no marker, or in one
placeholder, and no placeholder lies in another one, since all have the same number of private
characters.  So it is one of those that were put there (`Parted.occurs`).

The pieces of a document are parted (`parted_cut`): before a body stands the end of its
opening tag, and after it the start of its closing tag.  The scan writes the pieces one by
one, and tags and entities are not what placeholders are made of, so the markup of the pieces
is parted as well (`Parted.of_scanned`).
-/

namespace AnswerStream
namespace Highlight
namespace Html

open Text Scan Markup

/-! ## The marker -/

theorem occursIn_iff {pat cs : List Char} : occursIn pat cs = true ↔ pat <:+: cs := by
  constructor
  · intro h
    rcases Bool.or_eq_true_iff.1 h with hnil | hfound
    · rw [List.isEmpty_iff.1 hnil]
      exact List.nil_infix
    · have hne : (splitAtText pat cs).2 ≠ [] := by
        intro hnil
        rw [hnil] at hfound
        cases hfound
      obtain ⟨rest, -, hcs⟩ := exists_of_splitAtText hne
      exact ⟨_, rest, (List.append_assoc ..).trans hcs⟩
  · rintro ⟨l, r, rfl⟩
    rw [List.append_assoc]
    exact occursIn_append l pat r

/-- A run of the private character that grows for as long as it occurs in the text. -/
def growMarker (cs run : List Char) : List Char :=
  if occursIn run cs then growMarker cs (run ++ [markerChar]) else run
termination_by cs.length + 1 - run.length
decreasing_by
  have hle := (occursIn_iff.1 ‹_›).length_le
  rw [List.length_append, List.length_singleton]
  omega

theorem growMarker_replicate {cs : List Char} {k : Nat} (h : k ≤ longestRun markerChar cs) :
    growMarker cs (List.replicate (k + 1) markerChar) = marker cs := by
  obtain ⟨d, hd⟩ := Nat.exists_eq_add_of_le h
  induction d generalizing k with
  | zero =>
    have hno : ¬ occursIn (List.replicate (k + 1) markerChar) cs = true := fun hocc => by
      have hle := le_longestRun (occursIn_iff.1 hocc)
      omega
    rw [growMarker, if_neg hno, marker, hd, Nat.add_zero]
  | succ d ih =>
    have hocc : occursIn (List.replicate (k + 1) markerChar) cs = true := by
      refine occursIn_iff.2 (List.IsInfix.trans ?_ (longestRun_occurs markerChar cs))
      exact ⟨[], List.replicate d markerChar, by simp [hd]; omega⟩
    rw [growMarker, if_pos hocc, ← List.replicate_succ']
    exact ih (by omega) (by omega)

/-! ## Occurrences of placeholders -/

theorem toString_injective {i j : Nat} (h : (toString i).toList = (toString j).toList) : i = j := by
  have hvalue : ∀ n : Nat, Nat.ofDigitChars 10 (toString n).toList 0 = n := fun n => by
    rw [Nat.toString_eq_repr, Nat.toList_repr, Nat.ofDigitChars_toDigits (by decide) (by decide)]
  rw [← hvalue i, h, hvalue j]

/-- A placeholder starts and ends with the private character. -/
theorem placeholder_ends (code : List Char) (i : Nat) :
    ∃ w, placeholder (marker code) i = markerChar :: (w ++ [markerChar]) := by
  have hlast : marker code = List.replicate (longestRun markerChar code) markerChar ++ [markerChar] :=
    List.replicate_succ'
  refine ⟨List.replicate (longestRun markerChar code) markerChar ++ (toString i).toList ++
    List.replicate (longestRun markerChar code) markerChar, ?_⟩
  calc placeholder (marker code) i
      = marker code ++ (toString i).toList ++
          (List.replicate (longestRun markerChar code) markerChar ++ [markerChar]) := by
        rw [← hlast, placeholder]
    _ = _ := by simp [marker, List.replicate_succ]

/-- No placeholder lies in another one. -/
theorem placeholder_apart {code a b : List Char} {i j : Nat}
    (h : placeholder (marker code) i = a ++ placeholder (marker code) j ++ b) :
    a = [] ∧ b = [] ∧ i = j := by
  have hdigits : ∀ n : Nat, (toString n).toList.count markerChar = 0 := fun n => by
    rw [Nat.toString_eq_repr, Nat.toList_repr, List.count_eq_zero]
    intro hmem
    have hdigit := Nat.isDigit_of_mem_toDigits (b := 10) (n := n) (by decide) (by decide) hmem
    exact absurd hdigit (by decide)
  -- both have the same number of private characters, so there are none besides
  have hcount := congrArg (List.count markerChar) h
  simp only [placeholder, List.count_append, hdigits] at hcount
  have ha : markerChar ∉ a := List.count_eq_zero.1 (by omega)
  have hb : markerChar ∉ b := List.count_eq_zero.1 (by omega)
  obtain ⟨w, hw⟩ := placeholder_ends code i
  have hnil : a = [] := by
    cases a with
    | nil => rfl
    | cons c a =>
      rw [hw] at h
      exact absurd (by simp [(List.cons.inj h).1]) ha
  have hnil' : b = [] := by
    rcases List.eq_nil_or_concat b with rfl | ⟨b, c, rfl⟩
    · rfl
    · rw [hw, List.concat_eq_append, ← List.append_assoc, ← List.cons_append] at h
      have hlast := (List.append_inj' h rfl).2
      exact absurd (by simp [List.singleton_inj.1 hlast]) hb
  subst hnil hnil'
  refine ⟨rfl, rfl, toString_injective ?_⟩
  simpa [placeholder] using h

/-! ## Skeletons -/

/-- The pieces of a document between its bodies, or their markup, as far as the placeholders
are concerned that are put between them. -/
structure Parted (code : List Char) (bodies : List Body) (last : List Char) : Prop where
  /-- No marker occurs before a body. -/
  lead : ∀ b ∈ bodies, ¬ marker code <:+: b.lead
  /-- No marker occurs after the last one. -/
  rest : ¬ marker code <:+: last
  /-- A piece before a body ends with a character of which no placeholder is made. -/
  before : ∀ b ∈ bodies, ∃ c ∈ b.lead.getLast?, ¬ InPlaceholder c
  /-- A piece after a body starts with such a character, unless it is empty. -/
  after : ∀ p ∈ (bodies.map Body.lead ++ [last]).tail, ∀ c ∈ p.head?, ¬ InPlaceholder c

namespace Parted

variable {code last : List Char} {bodies : List Body}

theorem tail {b : Body} (h : Parted code (b :: bodies) last) : Parted code bodies last where
  lead b' hb := h.lead b' (List.mem_cons_of_mem _ hb)
  rest := h.rest
  before b' hb := h.before b' (List.mem_cons_of_mem _ hb)
  after p hp := h.after p (List.mem_of_mem_tail hp)

/-- What follows a body starts with a character of which no placeholder is made. -/
theorem head_rest {b : Body} (h : Parted code (b :: bodies) last) (i : Nat) :
    ∀ c ∈ (skeleton (marker code) i bodies last).head?, ¬ InPlaceholder c := by
  cases bodies with
  | nil => exact h.after last (by simp)
  | cons b' bodies =>
    obtain ⟨d, hd, -⟩ := h.before b' (by simp)
    intro c hc
    refine h.after b'.lead (by simp) c ?_
    rw [skeleton, List.append_assoc, head?_append_left] at hc
    · exact hc
    · rintro hnil
      simp [hnil] at hd

/-- **A placeholder occurs only where it was put.** -/
theorem occurs (h : Parted code bodies last) {i j : Nat} {x y : List Char}
    (hocc : x ++ placeholder (marker code) j ++ y = skeleton (marker code) i bodies last) :
    ∃ bs b bs', bodies = bs ++ b :: bs' ∧ j = i + bs.length ∧
      x = skeleton (marker code) i bs b.lead ∧ y = skeleton (marker code) (j + 1) bs' last := by
  have hmarker : ∀ z x y : List Char, ¬ marker code <:+: z →
      z ≠ x ++ placeholder (marker code) j ++ y := by
    rintro z x y hz rfl
    exact hz ⟨x, (toString j).toList ++ marker code ++ y, by simp [placeholder]⟩
  induction bodies generalizing i x with
  | nil => exact absurd hocc.symm (hmarker _ _ _ h.rest)
  | cons b bodies ih =>
    have hword : ∀ c ∈ placeholder (marker code) j, InPlaceholder c := inPlaceholder_of_mem
    obtain ⟨d, hd, hout⟩ := h.before b (List.mem_cons_self ..)
    have hends : Apart InPlaceholder b.lead
        (placeholder (marker code) i ++ skeleton (marker code) (i + 1) bodies last) := by
      rintro a ha - - ⟨hin, -⟩
      rw [Option.mem_unique ha hd] at hin
      exact hout hin
    have hnext : Apart InPlaceholder (placeholder (marker code) i)
        (skeleton (marker code) (i + 1) bodies last) :=
      fun _ _ c hc hin => h.head_rest (i + 1) c hc hin.2
    rw [skeleton, List.append_assoc b.lead] at hocc
    rcases hends.append_word placeholder_ne_nil hword hocc with ⟨y', hlead, -⟩ | ⟨x, rfl, hrest⟩
    · exact absurd hlead (hmarker _ _ _ (h.lead b (List.mem_cons_self ..)))
    rcases hnext.append_word placeholder_ne_nil hword hrest.symm with
      ⟨y', hhere, rfl⟩ | ⟨x, rfl, hlater⟩
    · obtain ⟨rfl, rfl, rfl⟩ := placeholder_apart hhere
      exact ⟨[], b, bodies, rfl, rfl, by simp [skeleton], rfl⟩
    · obtain ⟨bs, b', bs', rfl, rfl, rfl, rfl⟩ := ih h.tail hlater.symm
      refine ⟨b :: bs, b', bs', rfl, ?_, ?_, rfl⟩
      · rw [List.length_cons]
        omega
      · simp [skeleton]

end Parted

/-- The skeleton of a document up to a body, and after it. -/
theorem skeleton_append (mark : List Char) (i : Nat) (bs : List Body) (b : Body) (bs' : List Body)
    (last : List Char) : skeleton mark i (bs ++ b :: bs') last =
      skeleton mark i bs b.lead ++ placeholder mark (i + bs.length) ++
        skeleton mark (i + bs.length + 1) bs' last := by
  induction bs generalizing i with
  | nil => rfl
  | cons c bs ih =>
    have hnumber : i + 1 + bs.length = i + (bs.length + 1) := by omega
    simp [skeleton, ih, hnumber]

/-- Every placeholder occurs exactly once. -/
theorem Parted.occurs_once {code last : List Char} {bodies : List Body}
    (h : Parted code bodies last) {i : Nat} (hi : i < bodies.length) :
    ∃ x, ∀ x', x' ++ placeholder (marker code) i <+: skeleton (marker code) 0 bodies last ↔
      x' = x := by
  have hbodies : bodies = bodies.take i ++ bodies[i] :: bodies.drop (i + 1) := by simp
  have hlength : (bodies.take i).length = i := by
    rw [List.length_take]
    omega
  have hskeleton := skeleton_append (marker code) 0 (bodies.take i) bodies[i]
    (bodies.drop (i + 1)) last
  rw [← hbodies, hlength, Nat.zero_add] at hskeleton
  refine ⟨skeleton (marker code) 0 (bodies.take i) bodies[i].lead, fun x' => ⟨?_, ?_⟩⟩
  · rintro ⟨y, hy⟩
    obtain ⟨bs, b, bs', hsplit, hj, rfl, -⟩ := h.occurs hy
    have hsame := List.append_inj (hbodies.symm.trans hsplit) (by omega)
    obtain ⟨hbs, hb⟩ := hsame
    rw [hbs, (List.cons.inj hb).1]
  · rintro rfl
    exact ⟨_, hskeleton.symm⟩

/-! ## All placeholders at once -/

/-- Put the second text of a pair wherever the first one occurs, from left to right and all
pairs at once; nothing is searched twice.  The first texts are not empty. -/
def replaceAll (pairs : List (List Char × List Char)) : List Char → List Char
  | [] => []
  | c :: cs =>
    match pairs.find? fun p => p.1.isPrefixOf (c :: cs) with
    | none => c :: replaceAll pairs cs
    | some p => p.2 ++ replaceAll pairs (cs.drop (p.1.length - 1))
termination_by cs => cs.length
decreasing_by
  · exact Nat.lt_succ_self _
  · rw [List.length_cons, List.length_drop]
    omega

/-- The placeholders with the texts that are put in their places. -/
def replacements (mark : List Char) (texts : List (List Char)) : List (List Char × List Char) :=
  texts.zipIdx.map fun t => (placeholder mark t.2, t.1)

theorem mem_replacements {mark : List Char} {texts : List (List Char)}
    {p : List Char × List Char} : p ∈ replacements mark texts ↔
      ∃ i t, texts[i]? = some t ∧ p = (placeholder mark i, t) := by
  simp only [replacements, List.mem_map, List.mem_zipIdx_iff_getElem?, Prod.exists]
  constructor
  · rintro ⟨t, i, ht, rfl⟩
    exact ⟨i, t, ht, rfl⟩
  · rintro ⟨i, t, ht, rfl⟩
    exact ⟨t, i, ht, rfl⟩

/-- Where no pair applies nothing changes. -/
theorem replaceAll_append_of_not {pairs : List (List Char × List Char)} {l r : List Char}
    (h : ∀ x z, l = x ++ z → z ≠ [] → ∀ p ∈ pairs, ¬ p.1 <+: z ++ r) :
    replaceAll pairs (l ++ r) = l ++ replaceAll pairs r := by
  induction l with
  | nil => rfl
  | cons c l ih =>
    have hnone : pairs.find? (fun p => p.1.isPrefixOf (c :: (l ++ r))) = none :=
      List.find?_eq_none.2 fun p hp hprefix =>
        h [] (c :: l) rfl (by simp) p hp (List.isPrefixOf_iff_prefix.1 hprefix)
    rw [List.cons_append, replaceAll, hnone]
    exact congrArg (c :: ·) (ih fun x z hxz => h (c :: x) z (by rw [hxz]; rfl))

/-- Where exactly one pair applies it is used. -/
theorem replaceAll_append_of_unique {pairs : List (List Char × List Char)} {pat new r : List Char}
    (hne : pat ≠ []) (hmem : (pat, new) ∈ pairs)
    (hunique : ∀ p ∈ pairs, p.1 <+: pat ++ r → p = (pat, new)) :
    replaceAll pairs (pat ++ r) = new ++ replaceAll pairs r := by
  have hfind : pairs.find? (fun p => p.1.isPrefixOf (pat ++ r)) = some (pat, new) := by
    cases hfound : pairs.find? fun p => p.1.isPrefixOf (pat ++ r) with
    | none =>
      have hno := List.find?_eq_none.1 hfound _ hmem
      exact absurd (List.isPrefixOf_iff_prefix.2 (List.prefix_append ..)) hno
    | some p =>
      have hprefix := List.find?_some hfound
      rw [hunique p (List.mem_of_find?_eq_some hfound) (List.isPrefixOf_iff_prefix.1 hprefix)]
  cases pat with
  | nil => exact absurd rfl hne
  | cons c pat =>
    rw [List.cons_append] at hfind ⊢
    rw [replaceAll, hfind]
    simp

/-- What stands first in a skeleton is a lead without placeholders and then one placeholder. -/
theorem Parted.occurs_first {code last : List Char} {b : Body} {bodies : List Body}
    (h : Parted code (b :: bodies) last) {i j : Nat} {x z : List Char} (hlead : b.lead = x ++ z)
    (hocc : placeholder (marker code) j <+: z ++ (placeholder (marker code) i ++
      skeleton (marker code) (i + 1) bodies last)) : z = [] ∧ j = i := by
  obtain ⟨y, hy⟩ := hocc
  have hall : x ++ placeholder (marker code) j ++ y =
      skeleton (marker code) i (b :: bodies) last := by
    rw [skeleton, hlead, List.append_assoc, hy]
    simp
  obtain ⟨bs, b', bs', hsplit, rfl, rfl, -⟩ := h.occurs hall
  cases bs with
  | nil =>
    obtain ⟨rfl, -⟩ := List.cons.inj hsplit
    exact ⟨by simpa [skeleton] using hlead, rfl⟩
  | cons c bs =>
    obtain ⟨rfl, -⟩ := List.cons.inj hsplit
    have hlength := congrArg List.length hlead
    have hpos : 0 < (placeholder (marker code) i).length :=
      List.length_pos_iff.2 placeholder_ne_nil
    simp only [skeleton, List.length_append] at hlength
    omega

/-- **All placeholders of a skeleton are replaced.** -/
theorem Parted.replaceAll_skeleton {code last : List Char} {bodies : List Body}
    (h : Parted code bodies last) (f : Body → List Char) :
    replaceAll (replacements (marker code) (bodies.map f)) (skeleton (marker code) 0 bodies last) =
      bodies.flatMap (fun b => b.lead ++ f b) ++ last := by
  -- the pairs are those of all bodies while the induction is on those that are left
  have hrest : ∀ (rest : List Body) (i : Nat), bodies.drop i = rest → Parted code rest last →
      replaceAll (replacements (marker code) (bodies.map f))
          (skeleton (marker code) i rest last) =
        rest.flatMap (fun b => b.lead ++ f b) ++ last := by
    intro rest
    induction rest with
    | nil =>
      intro i _ hparted
      have hskip : replaceAll (replacements (marker code) (bodies.map f)) (last ++ []) =
          last ++ replaceAll (replacements (marker code) (bodies.map f)) [] := by
        refine replaceAll_append_of_not fun x z hlast _ p hp hprefix => hparted.rest ?_
        obtain ⟨j, t, -, rfl⟩ := mem_replacements.1 hp
        rw [List.append_nil] at hprefix
        rw [hlast]
        exact ((marker_prefix_placeholder _ j).trans hprefix).isInfix.trans
          (List.suffix_append ..).isInfix
      simpa [skeleton, replaceAll] using hskip
    | cons b rest ih =>
      intro i hdrop hparted
      have hb : (bodies.map f)[i]? = some (f b) := by
        rw [List.getElem?_map, ← List.head?_drop, hdrop]
        rfl
      have hnext : bodies.drop (i + 1) = rest := by
        rw [← List.tail_drop, hdrop]
        rfl
      rw [skeleton, List.append_assoc, replaceAll_append_of_not, replaceAll_append_of_unique
        placeholder_ne_nil (mem_replacements.2 ⟨i, f b, hb, rfl⟩), ih (i + 1) hnext hparted.tail]
      · simp
      · intro p hp hprefix
        obtain ⟨j, t, ht, rfl⟩ := mem_replacements.1 hp
        obtain ⟨-, rfl⟩ := hparted.occurs_first (x := b.lead) (z := []) (by simp) hprefix
        rw [Option.some.inj (ht.symm.trans hb)]
      · intro x z hlead hne p hp hprefix
        obtain ⟨j, t, -, rfl⟩ := mem_replacements.1 hp
        exact hne (hparted.occurs_first hlead hprefix).1
  exact hrest bodies 0 rfl h

/-! ## The pieces of a document -/

theorem eq_lt_of_toLower {c : Char} (h : c.toLower = '<') : c = '<' := by
  unfold Char.toLower at h
  split at h
  · rename_i hupper
    have hval := congrArg (fun d : Char => d.val.toNat) h
    have hlow : 65 ≤ c.val.toNat := UInt32.le_iff_toNat_le.1 hupper.1
    have hhigh : c.val.toNat ≤ 90 := UInt32.le_iff_toNat_le.1 hupper.2
    have hsum : (c.val + ('a'.val - 'A'.val)).toNat = (c.val.toNat + 32) % 2 ^ 32 :=
      UInt32.toNat_add ..
    have hlt : '<'.val.toNat = 60 := rfl
    simp only [hsum, hlt] at hval
    omega
  · exact h

/-- A closing tag starts with a bracket. -/
theorem head_of_closesAt {e : Embedding} {cs : List Char} (h : e.closesAt cs = true) :
    ∀ c ∈ cs.head?, c = '<' := by
  rintro c hc
  cases cs with
  | nil => cases hc
  | cons d cs =>
    obtain rfl := Option.some.inj hc
    simp only [Embedding.closesAt, startsAnyCase, List.length_cons, List.take_succ_cons,
      List.map_cons, beq_iff_eq] at h
    exact eq_lt_of_toLower (List.cons.inj h).1

/-- A document starts with its first piece. -/
theorem first_piece (cs : List Char) :
    ∀ p ∈ ((cut cs).1.map Body.lead ++ [(cut cs).2]).head?, p <+: cs := by
  have hcut := (cut_spec cs).1
  intro p hp
  cases hbodies : (cut cs).1 with
  | nil =>
    rw [hbodies] at hp hcut
    obtain rfl := Option.some.inj hp
    exact ⟨[], by simpa using hcut⟩
  | cons b bodies =>
    rw [hbodies] at hp hcut
    obtain rfl := Option.some.inj hp
    rw [List.flatMap_cons, List.append_assoc, List.append_assoc] at hcut
    exact ⟨_, hcut⟩

/-- A piece after a body starts with the closing tag, or is empty. -/
theorem head_piece (cs : List Char) :
    ∀ p ∈ ((cut cs).1.map Body.lead ++ [(cut cs).2]).tail, ∀ c ∈ p.head?, c = '<' := by
  fun_induction cut cs with
  | case1 cs parts hnone => simp
  | case2 cs parts element helement tag htag => simp
  | case3 cs parts element helement tag gt inside htag body rest ih =>
    have hbody : ∀ c ∈ body.2.head?, c = '<' := by
      rcases splitWhere_snd element.closesAt inside with hnil | hcloses
      · intro c hc
        rw [show body.2 = [] from hnil] at hc
        cases hc
      · exact head_of_closesAt hcloses
    have hfirst : ∀ p ∈ (rest.1.map Body.lead ++ [rest.2]).head?, p <+: body.2 :=
      first_piece body.2
    intro p hp c hc
    have hmem : p ∈ rest.1.map Body.lead ++ [rest.2] := hp
    cases hpieces : rest.1.map Body.lead ++ [rest.2] with
    | nil => simp at hpieces
    | cons q qs =>
      rw [hpieces] at hmem hfirst ih
      rcases List.mem_cons.1 hmem with rfl | hmem
      · obtain ⟨r, hr⟩ := hfirst p rfl
        exact hbody c (by rw [← hr, List.head?_append, Option.mem_def.1 hc, Option.some_or]; rfl)
      · exact ih p hmem c hc

/-- **Placeholders may be put between the pieces of a document.** -/
theorem parted_cut (code : List Char) : Parted code (cut code).1 (cut code).2 := by
  obtain ⟨hcut, hlead⟩ := cut_spec code
  constructor
  · intro b hb hin
    refine marker_not_occurs code (hin.trans ?_)
    obtain ⟨bs, bs', hbodies⟩ := List.append_of_mem hb
    rw [hbodies, List.flatMap_append, List.flatMap_cons] at hcut
    exact ⟨bs.flatMap (fun b => b.lead ++ b.text),
      b.text ++ (bs'.flatMap (fun b => b.lead ++ b.text) ++ (cut code).2), by simpa using hcut⟩
  · exact fun hin => marker_not_occurs code (hin.trans ⟨_, [], by simpa using hcut⟩)
  · intro b hb
    obtain ⟨tag, htag⟩ := hlead b hb
    exact ⟨'>', by simp [htag], by decide⟩
  · intro p hp c hc
    rw [head_piece code p hp c hc]
    decide

/-! ## The markup of the pieces -/

theorem forall_of_forall₂ {α : Type} {R : α → α → Prop} {p q : α → Prop} {as bs : List α}
    (h : List.Forall₂ R as bs) (hp : ∀ a b, R a b → q b → p a) (hq : ∀ b ∈ bs, q b) :
    ∀ a ∈ as, p a := by
  induction h with
  | nil => simp
  | cons hab _ ih =>
    obtain ⟨hb, hbs⟩ := List.forall_mem_cons.1 hq
    exact List.forall_mem_cons.2 ⟨hp _ _ hab hb, ih hbs⟩

/-- Code of which nothing is written is empty. -/
theorem eq_nil_of_marks {x : List Char} (h : Marks [] x) : x = [] := by
  cases x with
  | nil => rfl
  | cons c x =>
    have hnil : (escapeChar c).toList ++ escaped x = [] := h.stripTags_eq.symm
    rcases toList_escapeChar c with hc | ⟨-, name, hc, -⟩ <;> rw [hc] at hnil <;> cases hnil

/-- **Placeholders may be put between the markup of pieces if they may be put between the
pieces.** -/
theorem Parted.of_scanned {code last' last : List Char} {bodies' bodies : List Body}
    (h : Parted code bodies last) (hbodies : List.Forall₂ Scanned bodies' bodies)
    (hlast : Shows InPlaceholder last' last) : Parted code bodies' last' := by
  constructor
  · refine forall_of_forall₂ hbodies ?_ h.lead
    rintro _ b ⟨m, hm, rfl⟩ hno
    exact marker_not_infix hm.marks hno
  · exact marker_not_infix hlast.marks h.rest
  · refine forall_of_forall₂ hbodies ?_ h.before
    rintro _ b ⟨m, hm, rfl⟩ ⟨c, hc, hout⟩
    rcases List.eq_nil_or_concat m with rfl | ⟨m, d, rfl⟩
    · rw [eq_nil_of_marks hm.marks] at hc
      cases hc
    · have hd : d ∈ (m.concat d).getLast? := by simp
      refine ⟨d, hd, fun hin => hout ?_⟩
      rwa [Option.mem_unique hc (getLast_of_marks hm.marks hd hin)]
  · have hleads : List.Forall₂ (Shows InPlaceholder) (bodies'.map Body.lead)
        (bodies.map Body.lead) := by
      rw [List.forall₂_map_left_iff, List.forall₂_map_right_iff]
      refine hbodies.imp ?_
      rintro _ b ⟨m, hm, rfl⟩
      exact hm
    have hpieces := List.forall₂_drop 1 (List.rel_append hleads (.cons hlast .nil))
    rw [List.drop_one, List.drop_one] at hpieces
    refine forall_of_forall₂ hpieces ?_ h.after
    intro p' p hp hout c hc hin
    exact hout c (head_of_marks hp.marks hc hin) hin

/-! ## The splice -/

/-- Tags have no private characters. -/
theorem count_of_marks {m x : List Char} (h : Marks m x) :
    m.count markerChar = x.count markerChar := by
  have hliteral : Literal Tag.OfCode markerChar := InPlaceholder.literal (Or.inr rfl)
  rw [← count_stripTags (fun _ => Tag.OfCode.known) hliteral h.made, h.stripTags_eq,
    count_escaped hliteral]

/-- **Bodies are put back where they were cut out.**  The marker is found and does not occur in
the document; the skeleton with the bodies in the places of their placeholders is the document;
each placeholder occurs exactly once in what the scan of the skeleton writes; and the markup of
the document is that with all placeholders replaced at once, each by what the rules of its
body's language write of this body.  No marker is left, and no private character is left that
is not one of the document. -/
theorem run_html_eq_replaceAll (code : String) :
    let mark := marker code.toList
    let bodies := (cut code.toList).1
    let out := (table.run (String.ofList (skeleton mark 0 bodies (cut code.toList).2))).toList
    let written := (Language.html.run code).toList
    growMarker code.toList [markerChar] = mark ∧
    ¬ mark <:+: code.toList ∧
    replaceAll (replacements mark (bodies.map Body.text))
      (skeleton mark 0 bodies (cut code.toList).2) = code.toList ∧
    (∀ i < bodies.length, ∃ before, ∀ before',
      before' ++ placeholder mark i <+: out ↔ before' = before) ∧
    written = replaceAll (replacements mark (bodies.map fun b =>
      ((Language.ofEmbedding b.element).runFlat (String.ofList b.text)).toList)) out ∧
    ¬ mark <:+: written ∧ written.count markerChar = code.toList.count markerChar := by
  intro mark bodies out written
  have hinside : ∀ (e : Embedding) (s : String),
      Marks ((Language.ofEmbedding e).runFlat s).toList s.toList :=
    fun e s => Language.marks_runFlat _ s
  have hparted : Parted code.toList bodies (cut code.toList).2 := parted_cut code.toList
  have hmarks : Marks written code.toList := marks_highlight hinside code
  obtain ⟨bodies', last', hbodies, hlast, hout, hwritten⟩ := exists_pieces hinside code
  have hparted' : Parted code.toList bodies' last' := hparted.of_scanned hbodies hlast
  refine ⟨growMarker_replicate (Nat.zero_le _), marker_not_occurs _, ?_, ?_, ?_,
    marker_not_infix hmarks (marker_not_occurs _), count_of_marks hmarks⟩
  · rw [hparted.replaceAll_skeleton Body.text]
    exact (cut_spec code.toList).1
  · intro i hi
    have honce := hparted'.occurs_once (hbodies.length_eq.symm ▸ hi)
    rwa [← hout] at honce
  · have hreplaced := hparted'.replaceAll_skeleton
      (markedBody fun e => (Language.ofEmbedding e).runFlat)
    rw [map_eq_of_scanned (fun _ _ => rfl) hbodies, ← hout, ← hwritten] at hreplaced
    exact hreplaced.symm

end Html
end Highlight
end AnswerStream
