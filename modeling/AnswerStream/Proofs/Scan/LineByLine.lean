import AnswerStream.Proofs.Scan.Reading
import AnswerStream.Proofs.Scan.Remaining
import Mathlib.Data.List.Find

/-!
# Reading line by line

To some tables a newline is what the beginning and the end of a text are.  What they look for
before the cursor stops at a newline as it stops at the beginning, and what they look for after
it stops there as it stops at the end.  Only some of their states read on, as those of strings
do: these are *open*, and which they are is a parameter.  `Table.LineWise` is what has to be
known of such a table, and then a text may be cut at every newline at which no state is open:
its run is the run of the part before, the newline and the run of the part after
(`Table.LineWise.run_append`).

## Up to the newline

No rule can tell the newline from the end of the text, so both scans do the same up to it
(`scan_append`).  There is one way in which the longer text makes a difference: a rule that
takes more characters than are left takes the newline with them.  A table that reads line by
line does this only by staying in an open state, and then the scan of the part before ends in
that state.

## From the newline on

Open states lie one upon the other, and at the bottom there may be one that is not open
(`Layered`).  So if the innermost region is not open, it is the only one, and the newline leads
back to a scan that has the regions of a new one.  It has more behind it: what it has written,
in the region at the bottom too if that goes on, and the newline.  `Alongside` compares two such
scans.  Their stacks differ in the outside and at the bottom, where closing the one gives the
same as closing the other after the text `w` that was there before; and this every step keeps.
-/

namespace AnswerStream
namespace Scan

variable {σ : Type} {t : Table σ} {Open : σ → Prop}

/-- The state in which the scan of a text ends. -/
def Table.endState [DecidableEq σ] (t : Table σ) (text : String) : σ :=
  (t.start.scan t [] text.toList 0).current t

/-! ## What a rule may look at -/

/-- What stands next to a place of a line: the same character, or a newline where the text
begins or ends. -/
def SameInLine (a a' : Option Char) : Prop := a' = a ∨ a = none ∧ a' = some '\n'

theorem SameInLine.head? (before xs : List Char) :
    SameInLine before.head? (before ++ '\n' :: xs).head? := by
  cases before with
  | nil => exact Or.inr ⟨rfl, rfl⟩
  | cons c before => exact Or.inl rfl

/-- What cannot tell a newline from the edge of the text sees the same. -/
theorem SameInLine.congr {α : Type} {f : Option Char → α} (hf : f (some '\n') = f none)
    {a a' : Option Char} (h : SameInLine a a') : f a' = f a := by
  rcases h with rfl | ⟨rfl, rfl⟩
  · rfl
  · exact hf

theorem Context.sameInLine_prev (c : Context) (xs : List Char) :
    SameInLine c.prev ({ c with before := c.before ++ '\n' :: xs } : Context).prev :=
  SameInLine.head? c.before xs

theorem Context.sameInLine_next (c : Context) (ys : List Char) :
    SameInLine c.next ({ c with after := c.after ++ '\n' :: ys } : Context).next :=
  SameInLine.head? c.after ys

/-- A line begins after a newline as it does at the beginning of the text. -/
theorem Context.linePrefix_newline (c : Context) (xs : List Char) :
    ({ c with before := c.before ++ '\n' :: xs } : Context).linePrefix = c.linePrefix := by
  have htake : ∀ before : List Char,
      (before ++ '\n' :: xs).takeWhile (· ≠ '\n') = before.takeWhile (· ≠ '\n') := by
    intro before
    induction before with
    | nil => rfl
    | cons d before ih => rw [List.cons_append, List.takeWhile_cons, List.takeWhile_cons, ih]
  unfold Context.linePrefix
  rw [htake]

/-- A text without newlines is found before a newline where it is found before the end. -/
theorem Context.startsWith_newline (c : Context) {pat : List Char} (h : '\n' ∉ pat)
    (ys : List Char) :
    ({ c with after := c.after ++ '\n' :: ys } : Context).startsWith pat = c.startsWith pat := by
  have hprefix : ∀ xs : List Char, pat.isPrefixOf (xs ++ '\n' :: ys) = pat.isPrefixOf xs := by
    induction pat with
    | nil => exact fun _ => rfl
    | cons d pat ih =>
      rw [List.mem_cons, not_or] at h
      intro xs
      cases xs with
      | nil => simp [List.isPrefixOf, Ne.symm h.1]
      | cons x xs => simp [List.isPrefixOf, ih h.2 xs]
  exact hprefix (c.ch :: c.after)

/-- Where a text is found, it is there to be taken. -/
theorem Context.length_le_of_startsWith {c : Context} {pat : List Char}
    (h : c.startsWith pat = true) : pat.length - 1 ≤ c.after.length :=
  Nat.sub_le_of_le_add (List.isPrefixOf_iff_prefix.1 h).length_le

/-- A transition of the state `s` in a table that reads line by line. -/
structure LineRule (Open : σ → Prop) (s : σ) (tr : Transition σ) : Prop where
  consumes : tr.zeroWidth = false
  tokens : tr.tokens = none
  measure : tr.measure = none
  /-- Looking back, it cannot tell a newline from the beginning of the text. -/
  fires_before : ∀ (c : Context) xs,
    tr.fires { c with before := c.before ++ '\n' :: xs } = tr.fires c
  /-- Looking ahead, it cannot tell a newline from the end of the text. -/
  fires_after : ∀ (c : Context) ys,
    tr.fires { c with after := c.after ++ '\n' :: ys } = tr.fires c
  /-- It takes characters that are there, or keeps an open state. -/
  reach : ∀ c, tr.fires c = true → tr.extra ≤ c.after.length ∨ tr.target = .stay ∧ Open s
  /-- An open state comes upon others, or in place of one that is not open. -/
  layers : ∀ q, tr.target = .state q → if tr.nested then Open q else ¬ Open s
  /-- A state that is not open has no delimiter. -/
  pair : ∀ q, tr.target = .state q → Open q ∨ tr.pair = .none

/-- A transition of the state `s` that ends a line: it writes the newline between the regions
and leads to where a text begins. -/
structure EndsLine (t : Table σ) (s : σ) (tr : Transition σ) : Prop where
  extra : tr.extra = 0
  place : tr.place = .between
  newline : Progress.rewritten t s tr.chars ['\n'] = "\n"
  target : tr.target = .stay ∧ s = t.initial ∧ (t.rules s).entry = "" ∧ (t.rules s).exit = "" ∨
    tr.target = .pop ∨ tr.target = .state t.initial ∧ tr.nested = false ∧ tr.pair = .none

/-- The table reads line by line, except in the open states. -/
structure Table.LineWise (t : Table σ) (Open : σ → Prop) : Prop where
  rule : ∀ s, ∀ tr ∈ (t.rules s).transitions, LineRule Open s tr
  /-- In what a token is written, a newline before it does not show. -/
  written : ∀ (k : Token σ) before fresh, k.text = "" ∨ SameInLine k.before before →
    Progress.written t none { k with before, fresh } = Progress.written t none k
  /-- Every line ends. -/
  newline : ∀ s, ¬ Open s → ∀ c : Context, c.ch = '\n' →
    ∃ tr, (t.rules s).transitions.find? (fun tr => tr.fires c) = some tr ∧ EndsLine t s tr

/-! ## The regions that are open -/

namespace Progress

/-- Open states lie one upon the other.  Only the outermost may be another one, which has no
delimiter then. -/
inductive Layered (Open : σ → Prop) : List (σ × Option Char) → Prop
  | ground {s : σ} {pair : Option Char} (h : Open s ∨ pair = none) : Layered Open [(s, pair)]
  | upon {s : σ} {pair : Option Char} {fs : List (σ × Option Char)} (h : Open s)
    (hfs : Layered Open fs) : Layered Open ((s, pair) :: fs)

namespace Layered

variable {fs : List (σ × Option Char)} {f : σ × Option Char}

/-- A state that is not open is the only one. -/
theorem eq_ground (h : Layered Open (f :: fs)) (hf : ¬ Open f.1) : fs = [] ∧ f.2 = none := by
  cases h with
  | ground h => exact ⟨rfl, h.resolve_left hf⟩
  | upon h _ => exact absurd h hf

theorem tail (h : Layered Open (f :: fs)) : fs = [] ∨ Layered Open fs := by
  cases h with
  | ground _ => exact Or.inl rfl
  | upon _ hfs => exact Or.inr hfs

/-- The layers are kept when a transition is followed. -/
theorem framesAfter (h : Layered Open (f :: fs)) {tr : Transition σ} (htr : LineRule Open f.1 tr)
    (ch : Char) : Layered Open (framesAfter t tr ch (f :: fs)) := by
  unfold Progress.framesAfter
  cases htarget : tr.target with
  | stay => exact h
  | pop =>
    rcases h.tail with rfl | hfs
    · exact .ground (Or.inr rfl)
    · have hne : fs ≠ [] := by
        rintro rfl
        cases hfs
      simpa [hne] using hfs
  | state q =>
    have hlayers := htr.layers q htarget
    cases hnested : tr.nested with
    | true =>
      rw [hnested, if_pos rfl] at hlayers
      exact .upon hlayers h
    | false =>
      rw [hnested, if_neg Bool.false_ne_true] at hlayers
      obtain ⟨rfl, -⟩ := h.eq_ground hlayers
      refine .ground ((htr.pair q htarget).imp_right fun hpair => ?_)
      rw [Transition.delimiter, hpair]

end Layered

variable [DecidableEq σ]

/-- A scan has its states in layers. -/
theorem layered_scan (h : t.LineWise Open) (text : List Char) :
    Layered Open (t.start.scan t [] text 0).frames := by
  refine scan_invariant (I := fun p => Layered Open p.frames) (fun p before ch hp => ?_)
    (fun p before ch cs tr htr _ hp => ?_) [] text 0 t.start (.ground (Or.inr rfl))
  · simpa [keep] using hp
  · rw [frames_follow]
    rw [current_eq] at htr
    cases hf : p.frames with
    | nil =>
      rw [hf] at hp
      cases hp
    | cons f fs =>
      rw [hf] at hp htr
      exact hp.framesAfter (h.rule _ tr htr) ch

/-! ## Up to the newline -/

variable {before after : List Char} {ch : Char}

/-- A character is visited before a newline as it is before the end of the text, unless so much
is taken that the newline would be taken too.  Then an open state is kept. -/
theorem visit_append (h : t.LineWise Open) (p : Progress σ) (before : List Char) (ch : Char)
    (after ys : List Char) (hops : Nat) :
    p.visit t before ch (after ++ '\n' :: ys) hops = p.visit t before ch after hops ∧
        (p.visit t before ch after hops).2 ≤ after.length ∨
      Open ((p.visit t before ch after hops).1.current t) ∧
        (p.visit t before ch after hops).2 = after.length := by
  have hfiring : p.firing t before ch (after ++ '\n' :: ys) = p.firing t before ch after :=
    List.find?_congr fun tr htr => (h.rule _ tr htr).fires_after (p.look before ch after) ys
  cases hfire : p.firing t before ch after with
  | none =>
    rw [visit_of_none hfire, visit_of_none (hfiring.trans hfire)]
    exact Or.inl ⟨rfl, Nat.zero_le _⟩
  | some tr =>
    obtain ⟨hmem, hfires⟩ := firing_spec hfire
    have htr := h.rule _ tr hmem
    rw [visit_of_some hfire htr.consumes, visit_of_some (hfiring.trans hfire) htr.consumes,
      Transition.reach_of_none htr.measure, Transition.reach_of_none htr.measure]
    by_cases hle : tr.extra ≤ after.length
    · rw [List.take_append_of_le_length hle]
      exact Or.inl ⟨rfl, List.length_take_le' _ _⟩
    · obtain ⟨hstay, hopen⟩ := (htr.reach _ hfires).resolve_left hle
      refine Or.inr ⟨?_, by simp [Nat.le_of_not_le hle]⟩
      rw [current_eq, frames_follow, framesAfter, hstay, ← current_eq]
      exact hopen

/-- **The scan of a text that goes on after a newline is at the newline where the scan of the
text ends**, if no state is open there. -/
theorem scan_append (h : t.LineWise Open) {p : Progress σ} {x : List Char} {skip : Nat}
    (hskip : skip ≤ x.length) (hend : ¬ Open ((p.scan t before x skip).current t))
    (ys : List Char) :
    p.scan t before (x ++ '\n' :: ys) skip =
      (p.scan t before x skip).scan t (x.reverse ++ before) ('\n' :: ys) 0 := by
  induction x generalizing before skip p with
  | nil =>
    obtain rfl : skip = 0 := Nat.le_zero.1 hskip
    rfl
  | cons ch after ih =>
    have hreverse : (ch :: after).reverse ++ before = after.reverse ++ ch :: before := by simp
    rw [hreverse]
    cases skip with
    | succ skip => exact ih (Nat.le_of_succ_le_succ hskip) hend
    | zero =>
      rw [scan_cons] at hend ⊢
      rcases visit_append h p before ch after ys hopLimit with ⟨heq, hle⟩ | ⟨hopen, hlength⟩
      · rw [List.cons_append, scan_cons, heq]
        exact ih hle hend
      · have hrest := scan_skip (p.visit t before ch after hopLimit).1 (ch :: before) after []
          (t := t)
        rw [List.append_nil] at hrest
        rw [hlength, hrest] at hend
        exact absurd hopen hend

end Progress

/-! ## Two scans side by side -/

/-- Two stacks of regions, with what is outside of each.  Where they differ, closing the second
gives what closing the first gives after the text `w`. -/
inductive Stacks (t : Table σ) (w : String) :
    String → String → List (Region σ) → List (Region σ) → Prop
  | outside {o o' : String} (h : o' = w ++ o) : Stacks t w o o' [] []
  | ground {o o' c' : String} (r : Region σ)
    (h : ∀ text, o' ++ t.wrap { r with content := c' ++ text } =
      w ++ (o ++ t.wrap { r with content := r.content ++ text })) :
    Stacks t w o o' [r] [{ r with content := c' }]
  | inner {o o' : String} {rs rs' : List (Region σ)} (r : Region σ)
    (h : Stacks t w o o' rs rs') : Stacks t w o o' (r :: rs) (r :: rs')

/-- The scan `q` does what the scan `p` does, after the text `w` was written. -/
structure Alongside (t : Table σ) (w : String) (p q : Progress σ) : Prop where
  regions : Stacks t w p.outside q.outside p.regions q.regions
  pending : q.pending = p.pending
  before : p.pending = "" ∨ SameInLine p.before q.before

namespace Stacks

variable {w o o' : String} {rs rs' : List (Region σ)}

theorem frames_eq (h : Stacks t w o o' rs rs') :
    rs'.map (fun r => (r.state, r.pair)) = rs.map fun r => (r.state, r.pair) := by
  induction h with
  | outside _ => rfl
  | ground r _ => rfl
  | inner r _ ih => rw [List.map_cons, List.map_cons, ih]

theorem close_eq (h : Stacks t w o o' rs rs') (text : String) :
    Progress.close t o' rs' text = w ++ Progress.close t o rs text := by
  induction h generalizing text with
  | outside h => simp [Progress.close, h, String.append_assoc]
  | ground r h => exact h text
  | inner r _ ih => exact ih _

end Stacks

namespace Alongside

open Progress

variable {w : String} {p q : Progress σ}

theorem frames_eq (h : Alongside t w p q) : q.frames = p.frames := h.regions.frames_eq

theorem current_eq (h : Alongside t w p q) : q.current t = p.current t := by
  rw [Progress.current_eq, Progress.current_eq, h.frames_eq]

theorem pair_eq (h : Alongside t w p q) : q.pair = p.pair := by
  rw [Progress.pair_eq, Progress.pair_eq, h.frames_eq]

/-- Both scans write into the same region. -/
theorem write (h : Alongside t w p q) (text : String) :
    Alongside t w (p.write text) (q.write text) := by
  obtain ⟨o, rs, pending, before, finished⟩ := p
  obtain ⟨o', rs', pending', before', finished'⟩ := q
  obtain ⟨hregions, hpending, hbefore⟩ := h
  cases hregions with
  | outside h =>
    refine ⟨.outside ?_, hpending, hbefore⟩
    show o' ++ text = w ++ (o ++ text)
    rw [show o' = w ++ o from h, String.append_assoc]
  | @ground c' r h =>
    refine ⟨.ground { r with content := r.content ++ text } fun more => ?_, hpending, hbefore⟩
    show o' ++ t.wrap { r with content := c' ++ text ++ more } =
      w ++ (o ++ t.wrap { r with content := r.content ++ text ++ more })
    simpa only [String.append_assoc] using h (text ++ more)
  | inner r h => exact ⟨.inner { r with content := r.content ++ text } h, hpending, hbefore⟩

theorem writeAt (h : Alongside t w p q) (here place : Placement) (text : String) :
    Alongside t w (p.writeAt here place text) (q.writeAt here place text) := by
  unfold Progress.writeAt
  split
  · exact h.write text
  · exact h

theorem enter (h : Alongside t w p q) (s : σ) (pair : Option Char) :
    Alongside t w (p.enter s pair) (q.enter s pair) :=
  ⟨.inner _ h.regions, h.pending, h.before⟩

theorem leave (h : Alongside t w p q) : Alongside t w (p.leave t) (q.leave t) := by
  obtain ⟨o, rs, pending, before, finished⟩ := p
  obtain ⟨o', rs', pending', before', finished'⟩ := q
  obtain ⟨hregions, hpending, hbefore⟩ := h
  cases hregions with
  | outside h => exact ⟨.outside h, hpending, hbefore⟩
  | @ground c' r h =>
    refine ⟨.outside ?_, hpending, hbefore⟩
    show o' ++ t.wrap { r with content := c' } = w ++ (o ++ t.wrap r)
    simpa using h ""
  | @inner rs rs' r h =>
    have hrest : Alongside t w ⟨o, rs, pending, before, finished⟩
        ⟨o', rs', pending', before', finished'⟩ := ⟨h, hpending, hbefore⟩
    exact hrest.write (t.wrap r)

theorem reenter (h : Alongside t w p q) : Alongside t w (p.reenter t) (q.reenter t) := by
  have hregions : q.regions = [] ↔ p.regions = [] := by
    have hframes := h.frames_eq
    unfold frames at hframes
    rw [← List.map_eq_nil_iff, hframes, List.map_eq_nil_iff]
  unfold Progress.reenter
  cases hp : p.regions with
  | nil =>
    rw [hregions.2 hp]
    exact h.enter _ _
  | cons r rs =>
    obtain ⟨r', rs', hq⟩ := List.exists_cons_of_ne_nil fun hq => List.cons_ne_nil r rs
      (hp ▸ hregions.1 hq)
    rw [hq]
    exact h

theorem collect (h : Alongside t w p q) (text : String) {before before' : List Char}
    (hb : SameInLine before.head? before'.head?) :
    Alongside t w (p.collect text before) (q.collect text before') := by
  unfold Progress.collect
  rw [h.pending]
  split
  · exact h
  · split
    · exact ⟨h.regions, rfl, Or.inr hb⟩
    · exact ⟨h.regions, rfl, Or.inr (h.before.resolve_left ‹_›)⟩

/-- The token that both scans collect is written alike. -/
theorem written_token (hline : t.LineWise Open) (h : Alongside t w p q) (source target : σ) :
    written t none (q.token source target) = written t none (p.token source target) := by
  have hk := hline.written (p.token source target) q.before q.fresh h.before
  have htoken : q.token source target =
      { p.token source target with before := q.before, fresh := q.fresh } := by
    rw [Progress.token, h.pending]
    rfl
  rw [htoken, hk]

theorem flush (hline : t.LineWise Open) (h : Alongside t w p q) (source target : σ) :
    Alongside t w (p.flush t source target none) (q.flush t source target none) := by
  unfold Progress.flush
  dsimp only
  rw [h.written_token hline]
  have hdone : Alongside t w
      { p with pending := "", before := none, finished := p.token source target :: p.finished }
      { q with pending := "", before := none, finished := q.token source target :: q.finished } :=
    ⟨h.regions, rfl, Or.inl rfl⟩
  exact hdone.write _

/-- So both write the same in the end, the second after `w`. -/
theorem complete_eq (hline : t.LineWise Open) (h : Alongside t w p q) :
    q.complete t = w ++ p.complete t := by
  rw [complete, complete, h.current_eq]
  exact (h.flush hline _ _).regions.close_eq ""

theorem destination_eq (h : Alongside t w p q) (target : Target σ) :
    q.destination t target = p.destination t target := by
  cases target with
  | stay => exact h.current_eq
  | state s => rfl
  | pop => rw [destination_pop, destination_pop, h.frames_eq]

/-- Both scans go to the same place. -/
theorem move (h : Alongside t w p q) (tr : Transition σ) (ch : Char) (place : Placement)
    (text : String) :
    Alongside t w
      (match tr.target with
        | .stay => p.writeAt .between place text
        | .pop => ((p.leave t).writeAt .between place text).reenter t
        | .state s =>
          ((if tr.nested then p else p.leave t).writeAt .between place text).enter s
            (tr.delimiter ch))
      (match tr.target with
        | .stay => q.writeAt .between place text
        | .pop => ((q.leave t).writeAt .between place text).reenter t
        | .state s =>
          ((if tr.nested then q else q.leave t).writeAt .between place text).enter s
            (tr.delimiter ch)) := by
  cases tr.target with
  | stay => exact h.writeAt _ _ _
  | pop => exact (h.leave.writeAt _ _ _).reenter
  | state s =>
    cases tr.nested with
    | true => exact (h.writeAt _ _ _).enter _ _
    | false => exact (h.leave.writeAt _ _ _).enter _ _

theorem follow (hline : t.LineWise Open) (h : Alongside t w p q) {tr : Transition σ}
    (htokens : tr.tokens = none) {before before' : List Char}
    (hb : SameInLine before.head? before'.head?) (ch : Char) (taken : List Char) :
    Alongside t w (p.follow t tr before ch taken) (q.follow t tr before' ch taken) := by
  unfold Progress.follow
  rw [h.current_eq, h.destination_eq, htokens]
  have hmove := (((h.flush hline (p.current t) (p.destination t tr.target)).writeAt .closing
    tr.place (if tr.place = .drop then "" else rewritten t (p.current t) tr.chars taken)).move tr ch
    tr.place (if tr.place = .drop then "" else rewritten t (p.current t) tr.chars taken))
  cases hplace : tr.place <;> rw [hplace] at hmove
  case opening => exact hmove.write _
  case carry => exact hmove.collect _ hb
  all_goals exact hmove

theorem keep (h : Alongside t w p q) {before before' : List Char}
    (hb : SameInLine before.head? before'.head?) (ch : Char) :
    Alongside t w (p.keep t before ch) (q.keep t before' ch) := by
  rw [Progress.keep, Progress.keep, h.current_eq]
  exact h.collect _ hb

variable [DecidableEq σ]

/-- A character is visited alike where the line begins the text and where it does not. -/
theorem visit (hline : t.LineWise Open) (h : Alongside t w p q) (before xs : List Char) (ch : Char)
    (after : List Char) (hops : Nat) :
    Alongside t w (p.visit t before ch after hops).1
        (q.visit t (before ++ '\n' :: xs) ch after hops).1 ∧
      (q.visit t (before ++ '\n' :: xs) ch after hops).2 = (p.visit t before ch after hops).2 := by
  have hlook : q.look (before ++ '\n' :: xs) ch after =
      { p.look before ch after with before := (p.look before ch after).before ++ '\n' :: xs } := by
    rw [look, h.pair_eq]
    rfl
  have hfiring : q.firing t (before ++ '\n' :: xs) ch after = p.firing t before ch after := by
    rw [firing, hlook, h.current_eq]
    exact List.find?_congr fun tr htr => (hline.rule _ tr htr).fires_before _ xs
  have hb := SameInLine.head? before xs
  cases hfire : p.firing t before ch after with
  | none =>
    rw [visit_of_none hfire, visit_of_none (hfiring.trans hfire)]
    exact ⟨h.keep hb ch, rfl⟩
  | some tr =>
    have htr := hline.rule _ tr (firing_spec hfire).1
    rw [visit_of_some hfire htr.consumes, visit_of_some (hfiring.trans hfire) htr.consumes,
      Transition.reach_of_none htr.measure, Transition.reach_of_none htr.measure]
    exact ⟨h.follow hline htr.tokens hb ch _, rfl⟩

theorem scan (hline : t.LineWise Open) (h : Alongside t w p q) (before xs text : List Char)
    (skip : Nat) :
    Alongside t w (p.scan t before text skip) (q.scan t (before ++ '\n' :: xs) text skip) := by
  induction text generalizing before skip p q with
  | nil => exact h
  | cons ch after ih =>
    cases skip with
    | succ skip => exact ih h (ch :: before) skip
    | zero =>
      obtain ⟨hvisit, hskip⟩ := h.visit hline before xs ch after hopLimit
      rw [scan_cons, scan_cons, hskip]
      exact ih hvisit (ch :: before) _

end Alongside

/-! ## The newline -/

namespace Progress

/-- What a scan with one region open writes in the end. -/
theorem complete_of_single {p : Progress σ} {r : Region σ} (hregions : p.regions = [r]) :
    p.complete t = p.outside ++
      t.wrap { r with content := r.content ++ written t none (p.token r.state t.initial) } := by
  simp [complete, current, flush, write, hregions, close]

/-- Such a scan after its token was finished. -/
theorem flush_of_single {p : Progress σ} {r : Region σ} (hregions : p.regions = [r]) (target : σ) :
    p.flush t r.state target none =
      { p with
        regions := [{ r with content := r.content ++ written t none (p.token r.state target) }]
        pending := ""
        before := none
        finished := p.token r.state target :: p.finished } := by
  simp [flush, write, hregions]

end Progress

/-- A scan that opens the first region does what a new one does. -/
theorem Alongside.start {q : Progress σ} (hregions : q.regions = []) (hpending : q.pending = "") :
    Alongside t q.outside t.start (q.enter t.initial none) := by
  refine ⟨.inner _ ?_, hpending, Or.inl rfl⟩
  rw [show (q.enter t.initial none).outside = q.outside from rfl, hregions]
  exact .outside String.append_empty.symm

/-- A scan that ends a line goes on as a new one, after what it would have written in the end and
the newline. -/
theorem EndsLine.follow {p : Progress σ} {r : Region σ} {tr : Transition σ}
    (h : EndsLine t r.state tr) (htokens : tr.tokens = none) (hregions : p.regions = [r])
    (hpair : r.pair = none) (before : List Char) :
    Alongside t (p.complete t ++ "\n") t.start (p.follow t tr before '\n' ['\n']) := by
  have hcurrent : p.current t = r.state := by rw [Progress.current, hregions]
  have hdestination : p.destination t tr.target = t.initial := by
    rcases h.target with ⟨htarget, hs, -⟩ | htarget | ⟨htarget, -⟩ <;> rw [htarget]
    · exact hcurrent.trans hs
    · rw [Progress.destination_pop, Progress.frames, hregions]
      rfl
    · rfl
  rw [Progress.complete_of_single hregions, Progress.follow, hcurrent, hdestination, htokens,
    h.place, if_neg (by decide), h.newline, Progress.flush_of_single hregions]
  generalize Progress.written t none (p.token r.state t.initial) = word
  -- what a scan comes to that leaves the region
  have hleft := Alongside.start (t := t) (q := Progress.write "\n" (Progress.leave t
    { p with
      regions := [{ r with content := r.content ++ word }]
      pending := ""
      before := none
      finished := p.token r.state t.initial :: p.finished })) rfl rfl
  rcases h.target with ⟨htarget, hs, hentry, hexit⟩ | htarget | ⟨htarget, hnested, hnone⟩
  · -- the region goes on, and no text is around it
    have hwrap : ∀ content, t.wrap { r with content } = content := by
      intro content
      by_cases hc : content = "" <;> simp [Table.wrap, hentry, hexit, hc]
    obtain ⟨s, pair, content⟩ := r
    obtain rfl : pair = none := hpair
    obtain rfl : s = t.initial := hs
    rw [htarget]
    refine ⟨.ground _ fun text => ?_, rfl, Or.inl rfl⟩
    simp [Progress.writeAt, Progress.write, hwrap, String.append_assoc, Table.start, Progress.enter]
  · rw [htarget]
    exact hleft
  · have hdelimiter : tr.delimiter '\n' = none := by rw [Transition.delimiter, hnone]
    rw [htarget, hnested, hdelimiter]
    exact hleft

namespace Table.LineWise

open Progress

variable [DecidableEq σ]

/-- Where no state is open, one region is, and it has no delimiter. -/
theorem exists_single (h : t.LineWise Open) {a : String} (ha : ¬ Open (t.endState a)) :
    ∃ r, (t.start.scan t [] a.toList 0).regions = [r] ∧ r.pair = none ∧ ¬ Open r.state := by
  have hlayered := layered_scan h a.toList
  unfold frames at hlayered
  rw [Table.endState, Progress.current] at ha
  rcases hr : (t.start.scan t [] a.toList 0).regions with _ | ⟨r, rs⟩
  · rw [hr] at hlayered
    cases hlayered
  · rw [hr] at hlayered ha
    obtain ⟨hrs, hpair⟩ := hlayered.eq_ground ha
    exact ⟨r, by rw [List.map_eq_nil_iff.1 hrs], hpair, ha⟩

/-- A newline where no state is open ends a line. -/
theorem visit_newline (h : t.LineWise Open) {p : Progress σ} {r : Region σ}
    (hregions : p.regions = [r]) (hpair : r.pair = none) (hopen : ¬ Open r.state)
    (before after : List Char) :
    Alongside t (p.complete t ++ "\n") t.start (p.visit t before '\n' after hopLimit).1 ∧
      (p.visit t before '\n' after hopLimit).2 = 0 := by
  have hcurrent : p.current t = r.state := by rw [Progress.current, hregions]
  obtain ⟨tr, hfind, hends⟩ := h.newline r.state hopen (p.look before '\n' after) rfl
  have hfire : p.firing t before '\n' after = some tr := by rw [firing, hcurrent, hfind]
  have htr := h.rule _ tr (firing_spec hfire).1
  rw [visit_of_some hfire htr.consumes, Transition.reach_of_none htr.measure, hends.extra]
  exact ⟨hends.follow htr.tokens hregions hpair before, rfl⟩

/-- **A text may be cut at a newline at which no state is open.**  Its run is the run of the part
before, the newline, and the run of the part after. -/
theorem run_append (h : t.LineWise Open) {a : String} (ha : ¬ Open (t.endState a)) (b : String) :
    t.run (a ++ "\n" ++ b) = t.run a ++ "\n" ++ t.run b := by
  have htext : (a ++ "\n" ++ b).toList = a.toList ++ '\n' :: b.toList := by simp
  obtain ⟨r, hregions, hpair, hopen⟩ := h.exists_single ha
  obtain ⟨hvisit, hskip⟩ := h.visit_newline hregions hpair hopen a.toList.reverse b.toList
  have hscan := hvisit.scan h [] a.toList.reverse b.toList 0
  rw [t.run_eq_rest, htext, rest, scan_append h (Nat.zero_le _) ha, List.append_nil, scan_cons,
    hskip]
  exact hscan.complete_eq h

end Table.LineWise

end Scan
end AnswerStream
