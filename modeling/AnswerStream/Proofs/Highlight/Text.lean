import AnswerStream.Proofs.Highlight.Tidy
import AnswerStream.Proofs.Scan.Reading

/-!
# Marked code keeps its text

A highlighter puts tags around parts of code and changes nothing else: without the tags,
what it writes is the escaped code.  `Marks m x` says this of markup `m` and code `x`.

## Words that stay whole

Tags are only put where a token ends or a transition consumes characters.  If no such place
lies between two characters of a word, the word is written in one piece.  `Shows W m x`
says of markup in addition that no tag was put between two characters of the class `W` that
stand next to each other.  A word of such characters can therefore be cut out of the markup
wherever it stands in the code (`Shows.split`).

## The tables

`Transcribes W t` lists what is needed of a table, and the contract of scans does the rest
(`Transcribes.run`).  Only documents need a class of characters, those of placeholders; for
the other tables the class is empty.
-/

namespace AnswerStream
namespace Highlight

open Text Scan Markup

/-! ## Tags taken away -/

/-- Tags can be taken away from the parts of markup separately. -/
theorem stripTags_append {m : List Char} (h : MadeOf Tag.Known m) (n : List Char) :
    stripTags (m ++ n) = stripTags m ++ stripTags n := by
  rw [stripTags, h.segments_append, List.flatMap_append]
  rfl

theorem stripTags_tag {τ : Tag} (h : τ.Known) : stripTags τ.source = [] := by
  have hread := segments_source_append (a := .tag τ) h []
  rw [List.append_nil] at hread
  rw [stripTags, show segments τ.source = _ from hread]
  rfl

/-- Where no tag starts nothing is taken away. -/
theorem stripTags_of_not_lt {cs : List Char} (h : ∀ c ∈ cs, c ≠ '<') : stripTags cs = cs := by
  have hread := segments_text_append h []
  rw [List.append_nil] at hread
  rw [stripTags, hread, List.flatMap_append, List.flatMap_map]
  simp [Segment.text, segments, Segment.read]

theorem stripTags_escaped (x : List Char) : stripTags (escaped x) = escaped x :=
  stripTags_of_not_lt fun _ hc hlt => lt_not_mem_escaped x (hlt ▸ hc)

/-- Escaping leaves the characters alone that only ever mean themselves. -/
theorem count_escaped {T : Tag → Prop} {c : Char} (hc : Literal T c) (x : List Char) :
    (escaped x).count c = x.count c := by
  have hentity : ∀ name ∈ Atom.entities, ('&' :: (name.toList ++ [';'])).count c = 0 := by
    intro name hname
    rw [List.count_cons_of_ne hc.plain.2.2.symm, List.count_eq_zero]
    exact hc.not_entity name hname
  have hchar : ∀ d : Char, (escapeChar d).toList.count c = [d].count c := by
    intro d
    unfold escapeChar
    split
    · rw [‹d = _›, List.count_singleton, if_neg (by simpa using hc.plain.2.2.symm)]
      exact hentity "amp" (by decide)
    · split
      · rw [‹d = _›, List.count_singleton, if_neg (by simpa using hc.plain.1.symm)]
        exact hentity "lt" (by decide)
      · split
        · rw [‹d = _›, List.count_singleton, if_neg (by simpa using hc.plain.2.1.symm)]
          exact hentity "gt" (by decide)
        · rw [String.toList_singleton]
  induction x with
  | nil => rfl
  | cons d x ih =>
    show ((escapeChar d).toList ++ escaped x).count c = ([d] ++ x).count c
    rw [List.count_append, List.count_append, hchar, ih]

/-- So does taking away tags. -/
theorem count_stripTags {T : Tag → Prop} (hT : ∀ t, T t → t.Known) {c : Char} (hc : Literal T c)
    {m : List Char} (h : MadeOf T m) : (stripTags m).count c = m.count c := by
  have hatom : ∀ a : Atom, a.Fits T → (stripTags a.source).count c = a.source.count c := by
    intro a ha
    cases a with
    | char d => rw [stripTags_of_not_lt (by simpa [Atom.source] using ha.1)]
    | entity name =>
      have hall := (by decide : ∀ n ∈ Atom.entities, (Atom.entity n).source.all (· != '<')) name ha
      rw [stripTags_of_not_lt fun d hd => by simpa using List.all_eq_true.1 hall d hd]
    | tag t =>
      have hnot : c ∉ (Atom.tag t).source := fun hmem => by
        cases hc.eq_char ha hmem
      rw [Atom.source, stripTags_tag (hT t ha), List.count_nil]
      exact (List.count_eq_zero.2 hnot).symm
  obtain ⟨as, has, rfl⟩ := h
  induction as with
  | nil => rfl
  | cons a as ih =>
    obtain ⟨ha, has⟩ := List.forall_mem_cons.1 has
    rw [assemble_cons, stripTags_append ((MadeOf.atom ha).mono hT), List.count_append,
      List.count_append, hatom a ha, ih has]

/-- The markup `m` is the code `x` with tags around parts of it. -/
structure Marks (m x : List Char) : Prop where
  made : MadeOf Tag.OfCode m
  stripTags_eq : stripTags m = escaped x

namespace Marks

theorem known {m x : List Char} (h : Marks m x) : MadeOf Tag.Known m :=
  h.made.mono fun _ => Tag.OfCode.known

theorem nil : Marks [] [] := ⟨MadeOf.nil, rfl⟩

theorem append {m n x y : List Char} (hm : Marks m x) (hn : Marks n y) :
    Marks (m ++ n) (x ++ y) := by
  refine ⟨hm.made.append hn.made, ?_⟩
  rw [stripTags_append hm.known, hm.stripTags_eq, hn.stripTags_eq, escaped_append]

theorem tag {τ : Tag} (h : Tag.OfCode τ) : Marks τ.source [] :=
  ⟨MadeOf.tag h, stripTags_tag h.known⟩

theorem text (x : List Char) : Marks (escaped x) x := ⟨madeOf_escaped x, stripTags_escaped x⟩

end Marks

/-! ## Words that stay whole -/

/-- Two texts may be parted by a tag: their characters next to each other are not both of
the class `W`. -/
def Apart (W : Char → Prop) (x y : List Char) : Prop :=
  ∀ a ∈ x.getLast?, ∀ b ∈ y.head?, ¬ (W a ∧ W b)

theorem Apart.nil_left (W : Char → Prop) (y : List Char) : Apart W [] y :=
  fun a ha => by simp at ha

theorem Apart.of_append_left {W : Char → Prop} {x x' y : List Char} (h : Apart W (x' ++ x) y) :
    Apart W x y := by
  intro a ha b hb
  refine h a ?_ b hb
  simp [List.getLast?_append, Option.mem_def.1 ha]

theorem Apart.of_append_right {W : Char → Prop} {x y y' : List Char} (h : Apart W x (y ++ y')) :
    Apart W x y := by
  intro a ha b hb
  refine h a ha b ?_
  simp [List.head?_append, Option.mem_def.1 hb]

/-- A word of the class lies in one of two texts that may be parted. -/
theorem Apart.append_word {W : Char → Prop} {l r x w y : List Char} (h : Apart W l r)
    (hne : w ≠ []) (hw : ∀ c ∈ w, W c) (hlr : x ++ w ++ y = l ++ r) :
    (∃ y', l = x ++ w ++ y' ∧ y = y' ++ r) ∨ ∃ x', x = l ++ x' ∧ r = x' ++ w ++ y := by
  rcases List.append_eq_append_iff.1 hlr with ⟨y', hl, hy⟩ | ⟨t, hxw, rfl⟩
  · exact Or.inl ⟨y', hl, hy⟩
  · rcases List.append_eq_append_iff.1 hxw with ⟨u, rfl, rfl⟩ | ⟨x', rfl, rfl⟩
    · cases t with
      | nil => exact Or.inl ⟨[], by simp, by simp⟩
      | cons b t =>
        rcases List.eq_nil_or_concat u with rfl | ⟨u, a, rfl⟩
        · exact Or.inr ⟨[], by simp, by simp⟩
        · exact absurd ⟨hw a (by simp), hw b (by simp)⟩ (h a (by simp) b rfl)
    · exact Or.inr ⟨x', rfl, rfl⟩

/-- The markup `m` is the code `x` with tags around parts of it, none of them between two
characters of the class `W`. -/
inductive Shows (W : Char → Prop) : List Char → List Char → Prop
  | nil : Shows W [] []
  | tag {m x : List Char} {τ : Tag} (h : Shows W m x) (hτ : Tag.OfCode τ) :
    Shows W (m ++ τ.source) x
  | text {m x : List Char} (y : List Char) (h : Shows W m x) (ha : Apart W x y) :
    Shows W (m ++ escaped y) (x ++ y)

namespace Shows

variable {W : Char → Prop}

theorem marks {m x : List Char} (h : Shows W m x) : Marks m x := by
  induction h with
  | nil => exact .nil
  | tag h hτ ih => simpa using ih.append (.tag hτ)
  | text y h _ ih => exact ih.append (.text y)

theorem of_text (y : List Char) : Shows W (escaped y) y :=
  .text y .nil (.nil_left W y)

/-- A word of the class can be cut out where it stands. -/
theorem split {m x w y : List Char} (hne : w ≠ []) (hw : ∀ c ∈ w, W c)
    (hplain : escaped w = w) (h : Shows W m (x ++ w ++ y)) :
    ∃ l r, m = l ++ w ++ r ∧ Shows W l x ∧ Shows W r y := by
  generalize hz : x ++ w ++ y = z at h
  induction h generalizing y with
  | nil => simp_all
  | tag h hτ ih =>
    obtain ⟨l, r, rfl, hl, hr⟩ := ih hz
    exact ⟨l, r ++ _, by simp, hl, hr.tag hτ⟩
  | @text m z t h ha ih =>
    -- the word stands in what is written already, or in the last piece of text
    rcases ha.append_word hne hw hz with ⟨y, rfl, rfl⟩ | ⟨v, rfl, rfl⟩
    · obtain ⟨l, r, rfl, hl, hr⟩ := ih rfl
      exact ⟨l, r ++ escaped t, by simp, hl, hr.text t ha.of_append_left⟩
    · refine ⟨m ++ escaped v, escaped y, by simp [hplain], h.text v ?_, of_text y⟩
      rw [List.append_assoc] at ha
      exact ha.of_append_right

/-- Text marked with a role. -/
theorem mark {m x y : List Char} (h : Shows W m x) (ha : Apart W x y) (r : Role) {u : String}
    (hu : u.toList = escaped y) : Shows W (m ++ (r.mark u).toList) (x ++ y) := by
  have hsource : (r.mark u).toList = (Tag.opening "span" [("class", r.cls.toList)]).source ++
      escaped y ++ (Tag.closing "span").source := by
    simp [Role.mark_eq, Tag.source, Tag.inside, Tag.attributeText, hu]
  have hshows := ((h.tag (.opening r)).text y ha).tag .closing
  rw [hsource]
  simpa only [List.append_assoc] using hshows

end Shows

/-! ## The tables -/

variable {σ : Type}

/-- The texts around the regions of a state are empty or the tags of a role. -/
def SpanOrNone (r : Rules σ) : Prop :=
  (r.entry = "" ∧ r.exit = "") ∨
    ∃ role : Role, r.entry = "<span class=\"" ++ role.cls ++ "\">" ∧ r.exit = "</span>"

/-- What makes a table that writes tidily put tags around parts of its text, and no tag
between two characters of the class `W`. -/
structure Transcribes (W : Char → Prop) (t : Table σ) : Prop
    extends WritesTidily Tag.OfCode t where
  /-- Regions are marked with a role, or not at all. -/
  wrapper : ∀ s, SpanOrNone (t.rules s)
  /-- So are tokens. -/
  marked_token : ∀ s f, (t.rules s).tokens = some f →
    ∀ k : Token σ, f k = k.text ∨ ∃ role : Role, f k = role.mark k.text
  /-- No transition drops what it consumes. -/
  not_drop : ∀ s, ∀ tr ∈ (t.rules s).transitions, tr.place ≠ .drop
  /-- A transition that has a way of its own to rewrite characters marks them. -/
  own_chars : ∀ s tr cs, t.Takes s tr cs → ∀ f, tr.chars = some f →
    ∃ role : Role, rewrite f cs = role.mark (rewrite escapeChar cs)
  /-- What a transition consumes is not of the class. -/
  not_word : ∀ s tr cs, t.Takes s tr cs → ∀ c ∈ cs, ¬ W c
  /-- A transition consumes something if the class is not empty. -/
  taken : ∀ s tr cs, t.Takes s tr cs → cs = [] → ∀ c, ¬ W c

namespace Transcribes

variable {W : Char → Prop} {t : Table σ}

theorem rewritten_eq (h : Transcribes W t) (s : σ) (cs : List Char) :
    (Progress.rewritten t s none cs).toList = escaped cs := by
  rw [Progress.rewritten, h.chars_none, h.chars_eq]
  exact toList_rewrite_escapeChar cs

/-- The tags around a region stand for nothing. -/
theorem shows_wrapper (h : Transcribes W t) (s : σ) {m : String} {x : List Char}
    (hm : Shows W m.toList x) :
    Shows W (m ++ (t.rules s).entry).toList x ∧ Shows W (m ++ (t.rules s).exit).toList x := by
  rcases h.wrapper s with ⟨he, hx⟩ | ⟨r, he, hx⟩
  · simpa [he, hx] using hm
  · have hopen := hm.tag (.opening r)
    have hclose := hm.tag .closing
    rw [String.toList_append, String.toList_append, he, hx]
    simp [Tag.source, Tag.inside, Tag.attributeText] at hopen hclose ⊢
    exact ⟨hopen, hclose⟩

/-- A token is written as it is or marked. -/
theorem shows_token (h : Transcribes W t) {m : String} {x y : List Char} {k : Token σ}
    (hm : Shows W m.toList x) (ha : Apart W x y) (hk : k.text.toList = escaped y) :
    Shows W (m ++ Progress.written t none k).toList (x ++ y) := by
  have hplain : Shows W (m ++ k.text).toList (x ++ y) := by
    rw [String.toList_append, hk]
    exact hm.text y ha
  unfold Progress.written
  split
  · rename_i f hf
    rcases h.marked_token _ f hf k with heq | ⟨r, heq⟩
    · rwa [heq]
    · rw [heq, String.toList_append]
      exact hm.mark ha r hk
  · exact hplain

/-- **A table that transcribes reads its text.** -/
theorem reads (h : Transcribes W t) :
    t.Reads (fun m x => Shows W m.toList x) (fun p y => p.toList = escaped y)
      (fun x => ∀ a ∈ x.getLast?, ¬ W a) where
  nil := .nil
  start := by simp
  entry s m x hm := (h.shows_wrapper s hm).1
  exit s m x hm := (h.shows_wrapper s hm).2
  empty := rfl
  keep s p y c hp := by
    rw [String.toList_append, hp, h.rewritten_eq, escaped_append]
  carried s tr cs ht hcarry := absurd hcarry (h.modest s tr ht.1).not_carry
  token m x k y own hS hm hk hown := by
    have hnone : own = none := by
      rcases hown with rfl | ⟨tr, htr, rfl⟩
      · rfl
      · exact (h.modest _ tr htr).tokens_none
    rw [hnone]
    exact h.shows_token hm (fun a ha b _ hab => hS a ha hab.1) hk
  shown m x s tr cs ht _ _ hm := by
    have ha : Apart W x cs := fun a _ b hb hab =>
      h.not_word s tr cs ht b (List.mem_of_mem_head? hb) hab.2
    cases hc : tr.chars with
    | none =>
      rw [String.toList_append, h.rewritten_eq]
      exact hm.text cs ha
    | some f =>
      obtain ⟨r, hr⟩ := h.own_chars s tr cs ht f hc
      have hf : Progress.rewritten t s (some f) cs = rewrite f cs := rfl
      rw [String.toList_append, hf, hr]
      exact hm.mark ha r (toList_rewrite_escapeChar cs)
  dropped m x s tr cs ht hdrop _ := absurd hdrop (h.not_drop s tr ht.1)
  settled x s tr cs ht := by
    rw [if_neg (h.modest s tr ht.1).not_carry]
    intro a ha
    rcases List.eq_nil_or_concat cs with rfl | ⟨cs, c, rfl⟩
    · exact h.taken s tr _ ht rfl a
    · have hc : a = c := by simpa [eq_comm] using ha
      exact h.not_word s tr _ ht a (by simp [hc])

variable [DecidableEq σ]

/-- **What such a table writes shows its text.** -/
theorem run (h : Transcribes W t) (text : String) : Shows W (t.run text).toList text.toList :=
  h.reads.run text

end Transcribes

/-! ## Languages of one table -/

theorem Expression.spanOrNone (p : Profile) (name : String) (s : Expression.State) :
    SpanOrNone ((Expression.table p name).rules s) := by
  cases s with
  | normal => exact Or.inl ⟨rfl, rfl⟩
  | string => exact Or.inr ⟨.string, rfl, rfl⟩
  | lineComment => exact Or.inr ⟨.comment, rfl, rfl⟩
  | blockComment => exact Or.inr ⟨.comment, rfl, rfl⟩
  | regex => exact Or.inr ⟨.regex, rfl, rfl⟩

/-- A transition that writes the characters it consumes where it usually would. -/
def Usual (tr : Transition σ) : Prop := tr.chars = none ∧ tr.place ≠ .drop

theorem Expression.usual (p : Profile) (name : String) (s : Expression.State) :
    ∀ tr ∈ ((Expression.table p name).rules s).transitions, Usual tr := by
  intro tr htr
  have hrule := Expression.isRule_of_mem htr
  exact ⟨hrule.chars_tokens.1, hrule.place_ne.1⟩

/-- A word is written as it is or with its role. -/
theorem Expression.classify_eq (keywords : List String) (anyCase : Bool) (before : Option Char)
    (word : String) : Expression.classify keywords anyCase before word = word ∨
      ∃ r : Role, Expression.classify keywords anyCase before word = r.mark word := by
  unfold Expression.classify
  split
  · exact Or.inl (Eq.symm ‹_›)
  · split
    · exact Or.inr ⟨_, rfl⟩
    · exact Or.inl rfl

theorem Expression.transcribes (p : Profile) (name : String) :
    Transcribes (fun _ => False) (Expression.table p name) where
  toWritesTidily := Expression.writesTidily p name
  wrapper := Expression.spanOrNone p name
  marked_token s f hf k := by
    cases s with
    | normal =>
      obtain rfl := Option.some.inj hf
      exact Expression.classify_eq _ _ _ _
    | _ => cases hf
  not_drop s tr htr := (Expression.usual p name s tr htr).2
  own_chars s tr cs ht f hf := by
    rw [(Expression.usual p name s tr ht.1).1] at hf
    cases hf
  not_word _ _ _ _ _ _ := id
  taken _ _ _ _ _ _ := id

theorem Css.usual (s : Css.State) : ∀ tr ∈ (Css.table.rules s).transitions, Usual tr := by
  intro tr htr
  have hrule := Css.isRule_of_mem htr
  exact ⟨hrule.chars_tokens.1, hrule.place_ne.1⟩

theorem Css.transcribes : Transcribes (fun _ => False) Css.table where
  toWritesTidily := Css.writesTidily
  wrapper s := by
    cases s with
    | selector => exact Or.inr ⟨.selector, rfl, rfl⟩
    | property => exact Or.inr ⟨.property, rfl, rfl⟩
    | value => exact Or.inr ⟨.value, rfl, rfl⟩
    | string => exact Or.inr ⟨.string, rfl, rfl⟩
    | comment => exact Or.inr ⟨.comment, rfl, rfl⟩
  marked_token s f hf := by cases s <;> cases hf
  not_drop s tr htr := (Css.usual s tr htr).2
  own_chars s tr cs ht f hf := by
    rw [(Css.usual s tr ht.1).1] at hf
    cases hf
  not_word _ _ _ _ _ _ := id
  taken _ _ _ _ _ _ := id

/-- Only the dash of a list entry is written in a way of its own. -/
theorem Yaml.usual (s : Yaml.State) :
    ∀ tr ∈ (Yaml.table.rules s).transitions, tr = Yaml.entry ∨ Usual tr := by
  intro tr htr
  cases Yaml.isRule_of_mem htr with
  | entry => exact Or.inl rfl
  | _ => exact Or.inr ⟨rfl, by simp [Transition.place, Yaml.comment, Yaml.string, Yaml.newline]⟩

/-- The entry of a list takes its dash and nothing else. -/
theorem Yaml.taken_entry {c : Context} (h : Yaml.entry.fires c = true) :
    Yaml.entry.taken c = ['-'] := by
  have hch : c.ch = '-' := by
    simp only [Yaml.entry, Yaml.startsEntry, Bool.and_eq_true, beq_iff_eq] at h
    exact h.1.1
  simp [Transition.taken, Yaml.entry, Transition.reach, hch]

theorem Yaml.transcribes : Transcribes (fun _ => False) Yaml.table where
  toWritesTidily := Yaml.writesTidily
  wrapper s := by
    cases s with
    | key => exact Or.inr ⟨.key, rfl, rfl⟩
    | value => exact Or.inr ⟨.value, rfl, rfl⟩
    | string => exact Or.inr ⟨.string, rfl, rfl⟩
    | comment => exact Or.inr ⟨.comment, rfl, rfl⟩
  marked_token s f hf := by cases s <;> cases hf
  not_drop s tr htr := by
    rcases Yaml.usual s tr htr with rfl | h
    · simp [Transition.place, Yaml.entry]
    · exact h.2
  own_chars s tr cs ht f hf := by
    obtain ⟨htr, c, -, hfires, rfl⟩ := ht
    rcases Yaml.usual s tr htr with rfl | h
    · rw [Yaml.taken_entry hfires]
      obtain rfl := Option.some.inj hf
      exact ⟨.branch, by decide⟩
    · rw [h.1] at hf
      cases hf
  not_word _ _ _ _ _ _ := id
  taken _ _ _ _ _ _ := id

end Highlight
end AnswerStream
