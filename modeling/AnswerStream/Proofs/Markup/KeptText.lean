import AnswerStream.Proofs.Highlight.Text
import AnswerStream.Proofs.Markup.Delimiters

/-!
# The text that a line keeps

The scan inside a line puts tags around parts of its text and drops the delimiters that it
takes.  Nothing else happens to the text: each other character is written once, where it stands.

What may be dropped depends on where a character stands.  A backtick opens or closes code
wherever it stands, so it is always dropped, and inside code, which is what `coded_run` finds
between code tags, nothing else is.  Outside of it the delimiters of deleted, strong and
emphasised text may be dropped or kept, which is decided by what is around them.  `Keeps` says
this of a text and what is kept of it.

## The scan

At every moment of a scan what it has written so far, together with the token being collected,
is markup for some text (`Spelled`).  Keeping a character adds it to that text
(`Spelled.keep`), and following a transition leaves the text as it is: the token moves into the
markup, and there is nothing else but tags (`Spelled.follow`).  So the text grows as `Keeps`
allows (`Kept.keep`, `Kept.follow`), and at the end it is what is left of the markup when the
tags are deleted and the escaping is undone (`keeps_run`).
-/

namespace AnswerStream
namespace Markup

open Text Scan
open Highlight (stripTags_append stripTags_tag stripTags_escaped)

/-! ## Escaping undone -/

/-- A text from what stands for it between tags. -/
def unescape : List Char → List Char
  | '&' :: 'a' :: 'm' :: 'p' :: ';' :: cs => '&' :: unescape cs
  | '&' :: 'l' :: 't' :: ';' :: cs => '<' :: unescape cs
  | '&' :: 'g' :: 't' :: ';' :: cs => '>' :: unescape cs
  | c :: cs => c :: unescape cs
  | [] => []

theorem unescape_escapeChar_append (c : Char) (cs : List Char) :
    unescape ((escapeChar c).toList ++ cs) = c :: unescape cs := by
  unfold escapeChar
  split
  · simp [*, unescape]
  · split
    · simp [*, unescape]
    · split
      · simp [*, unescape]
      · rename_i hamp _ _
        rw [String.toList_singleton, List.singleton_append, unescape]
        all_goals
          rintro _ rfl
          exact absurd rfl hamp

/-- **Escaping can be undone.** -/
theorem unescape_escaped (x : List Char) : unescape (escaped x) = x := by
  induction x with
  | nil => rfl
  | cons c x ih =>
    have hc : escaped (c :: x) = (escapeChar c).toList ++ escaped x := rfl
    rw [hc, unescape_escapeChar_append, ih]

/-! ## Markup for a text -/

/-- The markup `m` is the text `x`, escaped, with tags between its characters. -/
structure Spells (m x : List Char) : Prop where
  made : MadeOf Tag.Known m
  stripTags_eq : stripTags m = escaped x

namespace Spells

theorem nil : Spells [] [] := ⟨.nil, rfl⟩

theorem append {m n x y : List Char} (hm : Spells m x) (hn : Spells n y) :
    Spells (m ++ n) (x ++ y) :=
  ⟨hm.made.append hn.made, by
    rw [stripTags_append hm.made, hm.stripTags_eq, hn.stripTags_eq, escaped_append]⟩

theorem tag {τ : Tag} (h : τ.Known) : Spells τ.source [] := ⟨.tag h, stripTags_tag h⟩

theorem text (x : List Char) : Spells (escaped x) x := ⟨madeOf_escaped x, stripTags_escaped x⟩

/-- The text of markup is what is left of it without tags and escaping. -/
theorem unescape_eq {m x : List Char} (h : Spells m x) : unescape (stripTags m) = x := by
  rw [h.stripTags_eq, unescape_escaped]

end Spells

namespace Inline

/-! ## What is kept of a text -/

/-- What is kept of a text that starts inside code or outside of it: everything but its
backticks and, outside code, some of the stars, low lines and tildes. -/
inductive Keeps : (code : Bool) → (text kept : List Char) → Prop
  | nil {code : Bool} : Keeps code [] []
  | tick {code : Bool} {cs ds : List Char} (h : Keeps (!code) cs ds) :
    Keeps code ('\x60' :: cs) ds
  | keep {code : Bool} {cs ds : List Char} {c : Char} (hc : c ≠ '\x60') (h : Keeps code cs ds) :
    Keeps code (c :: cs) (c :: ds)
  | drop {cs ds : List Char} {c : Char} (hc : c = '*' ∨ c = '_' ∨ c = '~')
    (h : Keeps false cs ds) : Keeps false (c :: cs) ds

namespace Keeps

variable {code : Bool} {cs ds : List Char}

/-- A character that is no delimiter is kept as often as it stands in the text. -/
theorem count_eq {c : Char} (hc : isDelimiter c = false) (h : Keeps code cs ds) :
    ds.count c = cs.count c := by
  have hdropped : ∀ d : Char, isDelimiter d = true → ∀ cs : List Char,
      (d :: cs).count c = cs.count c := by
    intro d hd cs
    refine List.count_cons_of_ne ?_
    rintro rfl
    rw [hd] at hc
    cases hc
  induction h with
  | nil => rfl
  | tick _ ih => rw [hdropped _ (by decide), ih]
  | keep _ _ ih => rw [List.count_cons, List.count_cons, ih]
  | drop hd _ ih =>
    rw [hdropped _ (by rcases hd with rfl | rfl | rfl <;> decide), ih]

/-- Outside code any delimiters other than backticks may be dropped. -/
theorem dropped {xs : List Char} (hxs : ∀ c ∈ xs, isDelimiter c = true) (htick : '\x60' ∉ xs)
    (h : Keeps false cs ds) : Keeps false (xs ++ cs) ds := by
  induction xs with
  | nil => exact h
  | cons x xs ih =>
    obtain ⟨hx, hxs⟩ := List.forall_mem_cons.1 hxs
    have hne : x ≠ '\x60' := fun heq => htick (heq ▸ List.mem_cons_self ..)
    refine .drop ?_ (ih hxs fun hmem => htick (List.mem_cons_of_mem _ hmem))
    simp only [isDelimiter, isEmphasisChar, Bool.or_eq_true, beq_iff_eq] at hx
    rcases hx with ((hx | hx) | hx) | hx
    · exact Or.inl hx
    · exact Or.inr (Or.inl hx)
    · exact Or.inr (Or.inr hx)
    · exact absurd hx hne

end Keeps

/-! ## What a scan has written -/

/-- What a scan has written, together with the token being collected, is markup for the text
`x`.  The delimiters of its regions are some that the transitions give. -/
structure Spelled (x : List Char) (p : Progress State) : Prop where
  paired : Table.Reads.Paired table p
  spells : ∃ y z, x = y ++ z ∧ Spells (p.soFar table).toList y ∧ p.pending = rewrite escapeChar z

namespace Spelled

variable {x : List Char} {p : Progress State}

/-- The texts around a region are tags. -/
theorem wrapper (s : State) :
    Spells (table.rules s).entry.toList [] ∧ Spells (table.rules s).exit.toList [] := by
  have htags : ∀ name ∈ Tag.lineNames, Spells (Tag.opening name []).source [] ∧
      Spells (Tag.closing name).source [] := fun name hname =>
    ⟨.tag (.bare ((by decide : ∀ n ∈ Tag.lineNames, n ∈ Tag.bareNames) name hname)),
      .tag (.closing ((by decide : ∀ n ∈ Tag.lineNames, n ∈ Tag.closedNames) name hname))⟩
  cases s with
  | text => exact ⟨.nil, .nil⟩
  | code => exact htags "code" (by decide)
  | strike => exact htags "del" (by decide)
  | strong => exact htags "strong" (by decide)
  | em => exact htags "em" (by decide)
  | strongInEm => exact htags "strong" (by decide)
  | emInStrong => exact htags "em" (by decide)

theorem lead (rs : List (Region State)) : Spells (table.lead rs).toList [] := by
  induction rs with
  | nil => exact .nil
  | cons r rs ih =>
    unfold Table.lead
    split
    · rw [String.toList_append]
      exact ih.append (wrapper r.state).1
    · exact .nil

/-- Finishing the token moves it into the markup. -/
theorem flush (h : Spelled x p) (source target : State) :
    Spells ((p.flush table source target none).soFar table).toList x := by
  obtain ⟨y, z, rfl, hy, hz⟩ := h.spells
  rw [Progress.soFar_flush, written_eq]
  show Spells ((p.write p.pending).soFar table).toList (y ++ z)
  by_cases hempty : p.pending = ""
  · have hnil : z = [] := rewrite_eq_empty.1 (hz ▸ hempty)
    rw [hempty, Progress.soFar_write_empty, hnil, List.append_nil]
    exact hy
  · rw [Progress.soFar_write hempty, String.toList_append, String.toList_append, hz,
      toList_rewrite_escapeChar]
    simpa using (hy.append (lead p.regions)).append (.text z)

/-- Leaving a region writes a tag, if anything. -/
theorem leave {q : Progress State} (h : Spells (q.soFar table).toList x) :
    Spells ((q.leave table).soFar table).toList x := by
  rcases Progress.soFar_leave (t := table) q with heq | ⟨r, -, heq⟩
  · rwa [heq]
  · rw [heq, String.toList_append]
    simpa using h.append (wrapper r.state).2

theorem keep (h : Spelled x p) (before : List Char) (ch : Char) :
    Spelled (x ++ [ch]) (p.keep table before ch) := by
  obtain ⟨y, z, rfl, hy, hz⟩ := h.spells
  refine ⟨by simpa [Table.Reads.Paired, Progress.keep] using h.paired, y, z ++ [ch],
    List.append_assoc .., ?_, ?_⟩
  · rwa [Progress.keep, Progress.soFar_collect]
  · rw [Progress.keep, Progress.pending_collect, rewritten_eq, hz, rewrite_append]

/-- Following a transition drops what it takes. -/
theorem follow (h : Spelled x p) {tr : Transition State} (hs : Silent tr) {ch : Char}
    (hd : table.Gives (tr.delimiter ch)) (before cs : List Char) :
    Spelled x (p.follow table tr before ch cs) := by
  have hmoves := hs.follow_induct p before ch cs
    (A := fun q => Table.Reads.Paired table q ∧ Spells (q.soFar table).toList x)
    ⟨by simpa [Table.Reads.Paired] using h.paired, h.flush _ _⟩
    (fun q hq => ⟨hq.1.leave, leave hq.2⟩)
    (fun q s pair hsp hq => ⟨hq.1.enter hd hsp, by simpa using hq.2⟩)
  refine ⟨hmoves.1, x, [], (List.append_nil x).symm, hmoves.2, ?_⟩
  rw [hs.pending_follow]
  rfl

/-- Closing the open regions writes tags. -/
theorem close (h : Spelled x p) (source target : State) :
    Spells (Progress.close table (p.flush table source target none).outside
      (p.flush table source target none).regions "").toList x := by
  refine Progress.close_of_soFar (M := fun m => Spells m.toList x) (fun f _ m hm => ?_)
    (h.flush source target)
  rw [String.toList_append]
  simpa using hm.append (wrapper f.1).2

end Spelled

/-! ## What a scan keeps -/

/-- A scan has read the text `before`, nearest character first, and has kept of it what may be
kept; the rest is read from where it stands. -/
structure Kept (before : List Char) (p : Progress State) : Prop where
  tracks : ∃ ss held, Tracks before ss held p
  spelled : ∃ x, Spelled x p ∧ ∀ rest ds, Keeps (decide (p.current table = .code)) rest ds →
    Keeps false (before.reverse ++ rest) (x ++ ds)

namespace Kept

variable {before after : List Char} {p : Progress State} {ch : Char}

theorem start : Kept [] table.start := by
  refine ⟨?_, [], ⟨?_, [], [], rfl, ?_, rfl⟩, fun rest ds h => h⟩
  · have hempty : ∃ ss held, Tracks [] ss held (table.start.scan table [] [] 0) := by
      simpa using exists_tracks ""
    exact hempty
  · simp [Table.start, Table.Reads.Paired, Progress.frames, Table.Gives]
  · rw [Table.start, Progress.soFar_enter]
    exact .nil

theorem keep (h : Kept before p) (hch : ch ≠ '\x60') :
    Kept (ch :: before) (p.keep table before ch) := by
  obtain ⟨ss, held, htracks⟩ := h.tracks
  obtain ⟨x, hx, hkeeps⟩ := h.spelled
  refine ⟨⟨ss, htracks.keep hch⟩, x ++ [ch], hx.keep before ch, fun rest ds hrest => ?_⟩
  have hcurrent : (p.keep table before ch).current table = p.current table := by
    unfold Progress.keep Progress.collect
    split
    · rfl
    · split <;> rfl
  rw [hcurrent] at hrest
  simpa using hkeeps (ch :: rest) (ch :: ds) (.keep hch hrest)

/-- A transition at a place where it fires takes delimiters. -/
theorem follow (h : Kept before p) {tr : Transition State}
    (hfire : p.firing table before ch after = some tr) :
    Kept ((tr.taken (p.look before ch after)).reverse ++ before)
      (p.follow table tr before ch (tr.taken (p.look before ch after))) := by
  obtain ⟨ss, held, htracks⟩ := h.tracks
  obtain ⟨x, hx, hkeeps⟩ := h.spelled
  obtain ⟨hmem, hfires⟩ := Progress.firing_spec hfire
  have hsilent := silent _ tr hmem
  have htaken : ∀ c ∈ tr.taken (p.look before ch after), isDelimiter c = true :=
    mem_taken (s := p.current table) ⟨hmem, _, hx.paired.gives_pair, hfires, rfl⟩
  have hgives : table.Gives (tr.delimiter ch) := Or.inr ⟨_, tr, hmem, _, hfires, rfl⟩
  have hspelled := hx.follow hsilent hgives before (tr.taken (p.look before ch after))
  refine ⟨htracks.follow hfire, x, hspelled, fun rest ds hrest => ?_⟩
  rw [List.reverse_append, List.reverse_reverse, List.append_assoc]
  refine hkeeps _ _ ?_
  cases held with
  | none =>
    have hcurrent := htracks.stands.1.current_ne
    rw [decide_eq_false hcurrent]
    rcases firing_outside hcurrent hfire with ⟨rfl, rfl⟩ | ⟨htarget, htick⟩
    · -- a backtick opens code
      have htick : codeOpen.taken (p.look before '\x60' after) = ['\x60'] := rfl
      have hopen := (htracks.follow_open '\x60').stands.current_eq
      rw [htick, decide_eq_true hopen] at hrest
      exact .tick hrest
    · have houtside : (p.follow table tr before ch _).current table ≠ .code :=
        (htracks.follow_apart hsilent htarget htick).stands.1.current_ne
      rw [decide_eq_false houtside] at hrest
      exact hrest.dropped htaken htick
  | some held =>
    -- and the next one closes it
    have hcurrent := htracks.stands.current_eq
    obtain ⟨rfl, rfl⟩ := firing_inside hcurrent hfire
    have htick : codeClose.taken (p.look before '\x60' after) = ['\x60'] := rfl
    have hclosed := (htracks.follow_close '\x60').stands.1.current_ne
    rw [htick, decide_eq_false hclosed] at hrest
    rw [decide_eq_true hcurrent]
    exact .tick hrest

end Kept

/-- A line is kept as far as it may be to its end. -/
theorem kept_scan (text : String) :
    Kept text.toList.reverse (table.start.scan table [] text.toList 0) := by
  have hscan := Progress.scan_reads (t := table) (I := Kept)
    (fun _ _ _ _ hkept h => h.keep (ne_tick_of_kept hkept))
    (fun _ _ _ _ _ hfire h => h.follow hfire) [] text.toList 0 Kept.start
  simpa using hscan

/-- The markup of a line is markup for what is kept of its text. -/
theorem exists_kept (text : String) :
    ∃ kept, Spells (table.run text).toList kept ∧ Keeps false text.toList kept := by
  obtain ⟨x, hx, hkeeps⟩ := (kept_scan text).spelled
  have hwhole := hkeeps [] [] .nil
  rw [List.reverse_reverse, List.append_nil, List.append_nil] at hwhole
  exact ⟨x, hx.close _ _, hwhole⟩

/-- **The scan inside a line loses only delimiters.**  Without its tags and with the escaping
undone, the markup is the text without its backticks and without some of the stars, low lines
and tildes outside code. -/
theorem keeps_run (text : String) :
    Keeps false text.toList (unescape (stripTags (table.run text).toList)) := by
  obtain ⟨kept, hrun, hkeeps⟩ := exists_kept text
  rwa [hrun.unescape_eq]

end Inline
end Markup
end AnswerStream
