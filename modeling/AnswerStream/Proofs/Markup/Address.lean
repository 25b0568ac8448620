import AnswerStream.Proofs.Markup.Attributes

/-!
# Live addresses

An address that a browser follows or loads can run code: by its scheme, or by characters
that a browser drops and that hide its scheme.  What a browser compares with schemes is the
address after the entities in it are decoded.  A `Decoder` is a reader of entities, of which
no more is known than what it makes of those that the renderer writes.

No address in an answer can do harm (`harmless_addresses`), whatever else the reader of it
takes for an entity.

## Why decoding changes nothing

Addresses are looked at before they are decoded.  This is good enough because the address of
a link is itself made of characters and entities (`Link.made_address`), and the entities
stand for characters that are in no scheme.  So a scheme at the start of a decoded address
was there before (`Decoder.prefix_iff`).
-/

namespace AnswerStream
namespace Markup

open Text

/-! ## Decoding -/

/-- The entities that the renderer writes, and what they stand for. -/
def entityMeanings : List (String × Char) :=
  [("amp", '&'), ("lt", '<'), ("gt", '>'), ("quot", '"')]

/-- A reader of entities.  It keeps characters other than ampersands, and decodes the entities
that the renderer writes; what else it knows is left open. -/
structure Decoder where
  decode : List Char → List Char
  nil : decode [] = []
  char {c : Char} (hc : c ≠ '&') (hcontrol : isControl c = false) (cs : List Char) :
    decode (c :: cs) = c :: decode cs
  entity {name : String} {c : Char} (h : (name, c) ∈ entityMeanings) (cs : List Char) :
    decode ('&' :: (name.toList ++ ';' :: cs)) = c :: decode cs

namespace Decoder

/-- A text in which the entities of the renderer are decoded and nothing else is. -/
def plainDecode : List Char → List Char
  | '&' :: 'a' :: 'm' :: 'p' :: ';' :: cs => '&' :: plainDecode cs
  | '&' :: 'l' :: 't' :: ';' :: cs => '<' :: plainDecode cs
  | '&' :: 'g' :: 't' :: ';' :: cs => '>' :: plainDecode cs
  | '&' :: 'q' :: 'u' :: 'o' :: 't' :: ';' :: cs => '"' :: plainDecode cs
  | c :: cs => c :: plainDecode cs
  | [] => []

/-- The decoder that knows no other entities. -/
def plain : Decoder where
  decode := plainDecode
  nil := rfl
  char hc _ cs := by
    rw [plainDecode] <;> simp [hc]
  entity h cs := by
    simp only [entityMeanings, List.mem_cons, List.not_mem_nil, or_false, Prod.mk.injEq] at h
    rcases h with ⟨rfl, rfl⟩ | ⟨rfl, rfl⟩ | ⟨rfl, rfl⟩ | ⟨rfl, rfl⟩ <;> rfl

variable (d : Decoder)

/-- An address as it is compared with schemes. -/
def lowered (a : Address) : List Char := (d.decode a.value).map Char.toLower

/-- An address that can do no harm. -/
structure Harmless (a : Address) : Prop where
  /-- It hides nothing. -/
  visible : ∀ c ∈ d.decode a.value, isControl c = false ∧ isBlank c = false
  /-- It is no script. -/
  not_script : ∀ scheme ∈ ["javascript:", "vbscript:"], ¬ scheme.toList <+: d.lowered a
  /-- It has no data of its own, unless these are the data of an image that it is the source
  of. -/
  no_data : "data:".toList <+: d.lowered a →
    a.picture = true ∧ "data:image/".toList <+: d.lowered a

/-! ## What decoding can change -/

variable {d}

/-- What the entities stand for. -/
def meanings : List Char := entityMeanings.map Prod.snd

/-- The entities stand for marks, which have no case and are seen. -/
theorem meanings_spec :
    ∀ c ∈ meanings, c.toLower = c ∧ isControl c = false ∧ isBlank c = false := by
  intro c hc
  simp only [meanings, entityMeanings, List.map_cons, List.map_nil, List.mem_cons,
    List.not_mem_nil, or_false] at hc
  rcases hc with rfl | rfl | rfl | rfl <;> decide

/-- The entities stand for no character of a scheme. -/
theorem not_mem_meanings : ∀ scheme ∈ ["javascript:", "vbscript:", "data:", "data:image/"],
    ∀ c ∈ scheme.toList, c ∉ meanings := by
  simp [meanings, entityMeanings]

/-- A part that is no tag is decoded to one character. -/
theorem exists_decode_source {a : Atom} (h : a.Fits fun _ => False)
    (hcontrol : ∀ c ∈ a.source, isControl c = false) :
    ∃ c, (∀ cs, d.decode (a.source ++ cs) = c :: d.decode cs) ∧
      (a.source = [c] ∨ c ∈ meanings ∧ ∃ tail, a.source = '&' :: tail) := by
  cases a with
  | tag t => exact absurd h id
  | char c => exact ⟨c, d.char h.2.2 (hcontrol c (List.mem_singleton_self c)), Or.inl rfl⟩
  | entity name =>
    have hname : ∃ c, (name, c) ∈ entityMeanings := by
      have hall : ∀ n ∈ Atom.entities, ∃ p ∈ entityMeanings, p.1 = n := by decide
      obtain ⟨⟨_, c⟩, hp, rfl⟩ := hall name h
      exact ⟨c, hp⟩
    obtain ⟨c, hc⟩ := hname
    refine ⟨c, fun cs => ?_, Or.inr ⟨List.mem_map_of_mem hc, _, rfl⟩⟩
    have hdecode := d.entity hc cs
    simpa [Atom.source] using hdecode

/-- A decoded character was there before, or an entity stood for it. -/
theorem mem_decode {m : List Char} (h : MadeOf (fun _ => False) m)
    (hcontrol : ∀ c ∈ m, isControl c = false) {c : Char} (hc : c ∈ d.decode m) :
    c ∈ m ∨ c ∈ meanings := by
  obtain ⟨as, ha, rfl⟩ := h
  induction as with
  | nil =>
    rw [assemble_nil, d.nil] at hc
    cases hc
  | cons a as ih =>
    rw [assemble_cons] at hc hcontrol ⊢
    obtain ⟨hfits, has⟩ := List.forall_mem_cons.1 ha
    obtain ⟨hfirst, hrest⟩ := List.forall_mem_append.1 hcontrol
    obtain ⟨e, hdecode, hsource⟩ := exists_decode_source (d := d) hfits hfirst
    rw [hdecode] at hc
    rcases List.mem_cons.1 hc with rfl | hc
    · rcases hsource with hsource | ⟨hmeaning, -⟩
      · exact Or.inl (List.mem_append_left _ (by rw [hsource]; simp))
      · exact Or.inr hmeaning
    · exact (ih has hrest hc).imp_left (List.mem_append_right _)

/-- **A scheme at the start of decoded text was there before.** -/
theorem prefix_iff {m : List Char} (h : MadeOf (fun _ => False) m)
    (hcontrol : ∀ c ∈ m, isControl c = false) {w : List Char} (hw : ∀ c ∈ w, c ∉ meanings) :
    w <+: (d.decode m).map Char.toLower ↔ w <+: m.map Char.toLower := by
  obtain ⟨as, ha, rfl⟩ := h
  induction as generalizing w with
  | nil => rw [assemble_nil, d.nil]
  | cons a as ih =>
    rw [assemble_cons] at hcontrol ⊢
    obtain ⟨hfits, has⟩ := List.forall_mem_cons.1 ha
    obtain ⟨hfirst, hrest⟩ := List.forall_mem_append.1 hcontrol
    obtain ⟨e, hdecode, hsource⟩ := exists_decode_source (d := d) hfits hfirst
    rw [hdecode]
    cases w with
    | nil => simp
    | cons x w =>
      obtain ⟨hx, hw⟩ := List.forall_mem_cons.1 hw
      rcases hsource with hsource | ⟨hmeaning, tail, hsource⟩
      · rw [hsource, List.singleton_append, List.map_cons, List.map_cons, List.cons_prefix_cons,
          List.cons_prefix_cons, ih hw has hrest]
      · -- neither an entity nor what it stands for is in `w`
        have hamp : '&' ∈ meanings := by decide
        rw [hsource, List.cons_append, List.map_cons, List.map_cons, List.cons_prefix_cons,
          List.cons_prefix_cons, (meanings_spec e hmeaning).1,
          (meanings_spec '&' hamp).1]
        constructor
        · rintro ⟨rfl, -⟩
          exact absurd hmeaning hx
        · rintro ⟨rfl, -⟩
          exact absurd hamp hx

end Decoder

/-! ## The address of a live link -/

/-- Markup without left brackets has no tags. -/
theorem MadeOf.untagged {T : Tag → Prop} {m : List Char} (h : MadeOf T m) (hm : '<' ∉ m) :
    MadeOf (fun _ => False) m := by
  obtain ⟨as, ha, rfl⟩ := h
  refine ⟨as, fun a hmem => ?_, rfl⟩
  cases a with
  | char c => exact ha _ hmem
  | entity name => exact ha _ hmem
  | tag t => exact hm (List.mem_flatMap.2 ⟨_, hmem, List.mem_cons_self ..⟩)

/-- The address of a link is made of characters and entities. -/
theorem Link.made_address {l : Link} (h : MadeOf Tag.OfLine l.source)
    (ha : ∀ c ∈ l.address, inAddress c = true) : MadeOf (fun _ => False) l.address := by
  have hsource : l.source = ((if l.image then ['!'] else []) ++ '[' :: l.label) ++ [']', '('] ++
      (l.address ++ [')']) := by
    simp [source]
  rw [hsource] at h
  have hword : ∀ w : List Char, w ⊆ linkMarks → ∀ c ∈ w, Literal Tag.OfLine c :=
    fun w hw c hc => literal_mark c (hw hc)
  obtain ⟨-, haddress⟩ := h.of_append_word (hword [']', '('] (by simp [linkMarks])) (by simp)
  have hmade := (MadeOf.of_append_word (r := []) (hword [')'] (by simp [linkMarks])) (by simp)
    (by simpa using haddress)).1
  exact hmade.untagged fun hlt => (quotable_address ha '<' hlt).2.1 rfl

theorem Link.hasScheme_iff {l : Link} {scheme : String} :
    l.hasScheme scheme = true ↔ scheme.toList <+: l.address.map Char.toLower :=
  List.isPrefixOf_iff_prefix

/-- What the address of a live link does not do. -/
theorem Link.of_isLive {l : Link} (h : l.isLive = true) :
    (∀ c ∈ l.address, isControl c = false) ∧ l.hasScheme "javascript:" = false ∧
      l.hasScheme "vbscript:" = false ∧
      (l.hasScheme "data:" = true → l.image = true ∧ l.hasScheme "data:image/" = true) := by
  have hrefused : l.isRefused = false := by
    rw [isLive, Bool.and_eq_true, Bool.and_eq_true] at h
    simpa using h.1.1
  simp only [isRefused, Bool.or_eq_false_iff] at hrefused
  obtain ⟨⟨⟨hcontrol, hjava⟩, hvb⟩, hdata⟩ := hrefused
  refine ⟨fun c hc => ?_, hjava, hvb, fun h => ?_⟩
  · have hc := List.any_eq_false.1 hcontrol c hc
    simpa using hc
  · rw [h, Bool.true_and, Bool.not_eq_false', Bool.and_eq_true] at hdata
    exact hdata

/-- **A live link leads nowhere harmful.** -/
theorem Link.harmless (d : Decoder) {l : Link} (live : l.isLive = true)
    (made : MadeOf (fun _ => False) l.address) (address : ∀ c ∈ l.address, inAddress c = true) :
    d.Harmless { picture := l.image, value := l.address } := by
  obtain ⟨hcontrol, hjava, hvb, hdata⟩ := of_isLive live
  have hscheme : ∀ scheme ∈ ["javascript:", "vbscript:", "data:", "data:image/"],
      (scheme.toList <+: (d.decode l.address).map Char.toLower ↔ l.hasScheme scheme = true) := by
    intro scheme hmem
    rw [Decoder.prefix_iff made hcontrol (Decoder.not_mem_meanings scheme hmem), hasScheme_iff]
  refine ⟨fun c hc => ?_, fun scheme hmem hprefix => ?_, fun hprefix => ?_⟩
  · rcases Decoder.mem_decode made hcontrol hc with hc | hc
    · have hin := address c hc
      refine ⟨hcontrol c hc, ?_⟩
      cases hblank : isBlank c with
      | false => rfl
      | true => simp [inAddress, hblank] at hin
    · exact (Decoder.meanings_spec c hc).2
  · have hlive := (hscheme scheme (List.mem_append_left ["data:", "data:image/"] hmem)).1 hprefix
    simp only [List.mem_cons, List.not_mem_nil, or_false] at hmem
    rcases hmem with rfl | rfl
    · exact Bool.eq_false_iff.1 hjava hlive
    · exact Bool.eq_false_iff.1 hvb hlive
  · obtain ⟨himage, hpicture⟩ := hdata ((hscheme "data:" (by decide)).1 hprefix)
    exact ⟨himage, (hscheme "data:image/" (by decide)).2 hpicture⟩

/-! ## Answers -/

/-- A known tag whose addresses can do no harm. -/
def Tag.Harmless (d : Decoder) (t : Tag) : Prop :=
  t.Known ∧ ∀ a ∈ (Segment.tag t.inside).addresses, d.Harmless a

variable (d : Decoder)

theorem Tag.harmless_unlinked {t : Tag} (h : t.Known) (hun : t.Unlinked) : t.Harmless d := by
  refine ⟨h, ?_⟩
  rw [addresses_unlinked h hun]
  simp

theorem Tag.admits_harmless : Tag.Admits (Tag.Harmless d) where
  known _ h := h.1
  unlinked _ h hun _ := harmless_unlinked d h hun

/-- The tags of a line are harmless as long as no link is live. -/
theorem Tag.harmless_ofLine {t : Tag} (h : t.OfLine) : t.Harmless d :=
  harmless_unlinked d h.known h.unlinked

/-- The tag of a live link is harmless. -/
theorem Link.harmless_tag {l : Link} (live : l.isLive = true) (made : MadeOf Tag.OfLine l.source)
    (label : MadeOf Tag.OfLine l.label) (address : ∀ c ∈ l.address, inAddress c = true) :
    (l.image = true → l.picture.Harmless d) ∧ (l.image = false → l.anchor.Harmless d) := by
  have hharmless := harmless d live (made_address made address) address
  have hquotable := quotable_address address
  constructor
  · intro hi
    refine ⟨known_picture address label, fun a ha => ?_⟩
    rw [addresses_picture hquotable (quotable_alternative label), List.mem_singleton] at ha
    rwa [ha, ← hi]
  · intro hi
    refine ⟨known_anchor address, fun a ha => ?_⟩
    rw [addresses_anchor hquotable, List.mem_singleton] at ha
    rwa [ha, ← hi]

theorem Inline.made_harmless (text : String) :
    MadeOf (Tag.Harmless d) (Inline.render text).toList := by
  rw [render, String.toList_ofList, resolveLinks_eq_linked, linked]
  exact (cut_pieces (tidy_run text).made).madeOf (fun _ => Tag.harmless_ofLine d)
    (Tag.harmless_unlinked d (.closing (by decide)) trivial)
    fun _ => Link.harmless_tag d

/-- The addresses of markup are those of its tags. -/
theorem MadeOf.harmless {m : List Char} (h : MadeOf (Tag.Harmless d) m) :
    ∀ a ∈ addresses m, d.Harmless a := by
  intro a ha
  obtain ⟨s, hs, ha⟩ := List.mem_flatMap.1 ha
  rcases h.mem_segments (fun _ ht => ht.1) hs with ⟨c, rfl, _⟩ | ⟨t, ht, rfl⟩
  · cases ha
  · exact ht.2 a ha

/-- **No address in an answer can do harm**, nor one in the markup of a line. -/
theorem harmless_addresses :
    (∀ (o : Options) (text : String), ∀ a ∈ addresses (render o text).toList, d.Harmless a) ∧
      ∀ text : String, ∀ a ∈ addresses (Inline.render text).toList, d.Harmless a := by
  refine ⟨fun o text => ?_, fun text => (Inline.made_harmless d text).harmless d⟩
  have hmade := madeOf_render_of_lines (Tag.admits_harmless d) (Inline.made_harmless d) o text
    fun _ => Tag.harmless_unlinked d (.fixed (by decide)) ⟨by decide, by decide⟩
  exact hmade.harmless d

/-- A script stays text, and another address is decoded to what was written. -/
example : (addresses (Inline.render "[a](vbscript:b) [c](d?e&f)").toList).map
    (fun a => (a.picture, String.ofList (Decoder.plain.decode a.value))) = [(false, "d?e&f")] := by
  decide +kernel

end Markup
end AnswerStream
