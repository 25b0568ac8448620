import AnswerStream.Proofs.Markup.Delimiters
import AnswerStream.Proofs.Scan.Remaining
import Mathlib.Data.List.Find

/-!
# Spans that are closed

If the spans of a text are closed, they stay as they are whatever follows after a space: the
scan writes the text as it would on its own, then the space, and then what follows as it would
on its own (`run_append_blank`).

## Looking ahead

A transition looks at most two characters ahead.  Where the text ends it sees nothing, and where
a space follows it sees the space, and possibly the character after it.  No transition can tell
the one from the other (`fires_after`): nothing and white space count alike, the character after
the next one is looked at only if the next one is a delimiter, and a space is the delimiter of no
region.  So the scan of the longer text is at the space where the scan of the text ends
(`scan_append`).

## Looking back

After the space a new scan and the one that goes on see the same: white space counts like the
beginning of a text.  They have different things behind them, the text of the open region and
the token being collected, and they come to finish that token at different moments.  `Behind`
compares them with the token finished (`settled`): then they have the same regions open, and the
text of the outermost one differs by what was written before.
-/

namespace AnswerStream
namespace Markup
namespace Inline

open Text Scan

/-! ## What a transition looks at -/

variable {s : State} {tr : Transition State}

/-- Of the text before it a transition sees whether it ends in white space. -/
theorem fires_before (htr : tr ∈ (rules s).transitions) (c : Context) {before : List Char}
    (h : isBlankAt before.head? = isBlankAt c.prev) : tr.fires { c with before } = tr.fires c := by
  cases isRule_of_mem htr with
  | emOpen target =>
    have hprev : isBlankAt ({ c with before } : Context).prev = isBlankAt c.prev := h
    show opensEm { c with before } = opensEm c
    rw [opensEm, hprev]
    rfl
  | _ => rfl

/-- A text that goes on with a space and more. -/
def spaced (c : Context) (y : List Char) : Context := { c with after := c.after ++ ' ' :: y }

/-- Nothing and a space count alike where white space is asked for. -/
theorem isBlankAt_next_spaced (c : Context) (y : List Char) :
    isBlankAt (spaced c y).next = isBlankAt c.next := by
  obtain ⟨before, ch, after, pair⟩ := c
  cases after with
  | nil => rfl
  | cons a after => rfl

/-- They are alike too where another character is asked for. -/
theorem next_spaced (c : Context) (y : List Char) {d : Char} (hd : d ≠ ' ') :
    ((spaced c y).next == some d) = (c.next == some d) := by
  obtain ⟨before, ch, after, pair⟩ := c
  cases after with
  | nil => simp [spaced, Context.next, Ne.symm hd]
  | cons a after => rfl

/-- So it is with the character after one that is no space. -/
theorem peek_spaced (c : Context) (y : List Char) {d : Char} (hd : d ≠ ' ') :
    ((spaced c y).next == some d && !isBlankAt ((spaced c y).peek 1)) =
      (c.next == some d && !isBlankAt (c.peek 1)) := by
  rw [next_spaced c y hd]
  obtain ⟨before, ch, after, pair⟩ := c
  match after with
  | [] => rfl
  | [a] => rfl
  | a :: b :: after => rfl

theorem startsWith_tildes (c : Context) :
    c.startsWith ['~', '~'] = (c.ch == '~' && c.next == some '~') := by
  have hflip : ∀ d : Char, ('~' == d) = (d == '~') := fun d => by
    rw [Bool.eq_iff_iff, beq_iff_eq, beq_iff_eq, eq_comm]
  obtain ⟨before, ch, after, pair⟩ := c
  cases after with
  | nil =>
    show ('~' == ch && false) = (ch == '~' && false)
    rw [hflip]
  | cons a after =>
    show ('~' == ch && ('~' == a && true)) = (ch == '~' && a == '~')
    rw [hflip, hflip, Bool.and_true]

/-- **No transition can tell a space from the end of the text.** -/
theorem fires_after (htr : tr ∈ (rules s).transitions) (c : Context) (hpair : c.pair ≠ some ' ')
    (y : List Char) : tr.fires (spaced c y) = tr.fires c := by
  have htilde : '~' ≠ ' ' := by decide
  have hemphasis : isEmphasisChar c.ch = true → c.ch ≠ ' ' := by
    intro h heq
    rw [heq] at h
    exact absurd h (by decide)
  cases isRule_of_mem htr with
  | codeOpen | codeClose | emClose => rfl
  | strikeOpen =>
    show ((spaced c y).startsWith ['~', '~'] && !isBlankAt ((spaced c y).peek 1)) =
      (c.startsWith ['~', '~'] && !isBlankAt (c.peek 1))
    rw [startsWith_tildes, startsWith_tildes, Bool.and_assoc, Bool.and_assoc,
      peek_spaced c y htilde]
    rfl
  | strikeClose =>
    show (spaced c y).startsWith ['~', '~'] = c.startsWith ['~', '~']
    rw [startsWith_tildes, startsWith_tildes, next_spaced c y htilde]
    rfl
  | strongOpen target =>
    show (isEmphasisChar c.ch && (spaced c y).next == some c.ch &&
      !isBlankAt ((spaced c y).peek 1)) = opensStrong c
    cases hch : isEmphasisChar c.ch with
    | false => simp [opensStrong, hch]
    | true =>
      rw [Bool.and_assoc, peek_spaced c y (hemphasis hch), opensStrong, hch, Bool.and_assoc]
  | strongClose =>
    show (c.pair == some c.ch && (spaced c y).next == some c.ch) = closesStrong c
    cases hch : c.pair == some c.ch with
    | false => simp [closesStrong, hch]
    | true =>
      have hne : c.ch ≠ ' ' := by
        intro heq
        rw [heq, beq_iff_eq] at hch
        exact hpair hch
      rw [next_spaced c y hne, closesStrong, hch]
  | emOpen target =>
    show (isEmphasisChar c.ch && isBlankAt c.prev && !isBlankAt (spaced c y).next) = opensEm c
    rw [isBlankAt_next_spaced]
    rfl

/-- A transition takes characters that are there. -/
theorem extra_le (htr : tr ∈ (rules s).transitions) {c : Context} (h : tr.fires c = true) :
    tr.extra ≤ c.after.length := by
  have hnext : ∀ d, (c.next == some d) = true → 1 ≤ c.after.length := by
    intro d hd
    obtain ⟨before, ch, after, pair⟩ := c
    cases after with
    | nil => cases hd
    | cons a after => simp
  cases isRule_of_mem htr with
  | codeOpen | codeClose | emOpen | emClose => exact Nat.zero_le _
  | strikeOpen =>
    have htildes := (Bool.and_eq_true_iff.1 h).1
    rw [startsWith_tildes] at htildes
    exact hnext _ (Bool.and_eq_true_iff.1 htildes).2
  | strikeClose =>
    have htildes : c.startsWith ['~', '~'] = true := h
    rw [startsWith_tildes] at htildes
    exact hnext _ (Bool.and_eq_true_iff.1 htildes).2
  | strongOpen target =>
    exact hnext _ (Bool.and_eq_true_iff.1 (Bool.and_eq_true_iff.1 h).1).2
  | strongClose => exact hnext _ (Bool.and_eq_true_iff.1 h).2

theorem reach_eq (htr : tr ∈ (rules s).transitions) (c : Context) : tr.reach c = tr.extra := by
  cases isRule_of_mem htr <;> rfl

/-! ## Up to the space -/

open Table.Reads (Paired)

variable {p q : Progress State} {before after : List Char} {ch : Char}

/-- A space is the delimiter of no region. -/
theorem pair_ne_space (h : Paired table p) : p.pair ≠ some ' ' := by
  intro hspace
  exact absurd (isEmphasisChar_of_gives h.gives_pair ' ' hspace) (by decide)

theorem paired_start : Paired table table.start :=
  List.forall_mem_singleton.2 (Or.inl rfl)

theorem paired_visit (h : Paired table p) (hops : Nat) :
    Paired table (p.visit table before ch after hops).1 := by
  refine Progress.visit_reads (I := fun _ p => Paired table p) (fun before ch _ p _ h => ?_)
    (fun before ch after p tr hfire h => ?_) before ch after hops h
  · simpa [Paired, Progress.keep] using h
  · obtain ⟨htr, hfires⟩ := Progress.firing_spec hfire
    have hgives : table.Gives (tr.delimiter ch) := Or.inr ⟨_, tr, htr, _, hfires, rfl⟩
    exact (silent _ tr htr).follow_induct (A := Paired table) p before ch _
      (by simpa [Paired] using h) (fun q hq => hq.leave) fun q s pair hs hq => hq.enter hgives hs

theorem paired_scan (h : Paired table p) (before text : List Char) (skip : Nat) :
    Paired table (p.scan table before text skip) := by
  induction text generalizing before skip p with
  | nil => exact h
  | cons ch after ih =>
    cases skip with
    | zero => exact ih (paired_visit h hopLimit) _ _
    | succ skip => exact ih h _ _

/-- A character is visited in the same way before a space and before the end of the text. -/
theorem visit_append (h : Paired table p) (before : List Char) (ch : Char) (after y : List Char)
    (hops : Nat) :
    p.visit table before ch (after ++ ' ' :: y) hops = p.visit table before ch after hops ∧
      (p.visit table before ch after hops).2 ≤ after.length := by
  have hfiring : p.firing table before ch (after ++ ' ' :: y) = p.firing table before ch after :=
    List.find?_congr fun tr htr => fires_after htr (p.look before ch after) (pair_ne_space h) y
  cases hfire : p.firing table before ch after with
  | none =>
    rw [Progress.visit_of_none hfire, Progress.visit_of_none (hfiring.trans hfire)]
    exact ⟨rfl, Nat.zero_le _⟩
  | some tr =>
    obtain ⟨htr, hfires⟩ := Progress.firing_spec hfire
    have hz := (silent _ tr htr).consumes
    have hle : tr.extra ≤ after.length := extra_le htr hfires
    rw [Progress.visit_of_some hfire hz, Progress.visit_of_some (hfiring.trans hfire) hz,
      reach_eq htr, reach_eq htr, List.take_append_of_le_length hle]
    exact ⟨rfl, List.length_take_le' _ _⟩

/-- **The scan of a text that goes on after a space is at the space where the scan of the text
ends.** -/
theorem scan_append (h : Paired table p) {x : List Char} {skip : Nat} (hskip : skip ≤ x.length)
    (before y : List Char) :
    p.scan table before (x ++ ' ' :: y) skip =
      (p.scan table before x skip).scan table (x.reverse ++ before) (' ' :: y) 0 := by
  induction x generalizing before skip p with
  | nil =>
    obtain rfl : skip = 0 := Nat.le_zero.1 hskip
    rfl
  | cons ch after ih =>
    have hreverse : (ch :: after).reverse ++ before = after.reverse ++ ch :: before := by simp
    rw [hreverse]
    cases skip with
    | succ skip => exact ih h (Nat.le_of_succ_le_succ hskip) _
    | zero =>
      obtain ⟨heq, hle⟩ := visit_append h before ch after y hopLimit
      rw [List.cons_append, Progress.scan_cons, Progress.scan_cons, heq]
      exact ih (paired_visit h hopLimit) hle _

/-! ## After the space -/

/-- Open regions after a text was written into the innermost one. -/
def written (text : String) : List (Region State) → List (Region State)
  | [] => []
  | r :: rs => { r with content := r.content ++ text } :: rs

theorem regions_write (text : String) (p : Progress State) :
    (p.write text).regions = written text p.regions := by
  unfold Progress.write written
  split <;> simp [*]

theorem written_append (a b : String) (rs : List (Region State)) :
    written (a ++ b) rs = written b (written a rs) := by
  cases rs <;> simp [written, String.append_assoc]

/-- The open regions once the token is finished. -/
def settled (p : Progress State) : List (Region State) := written p.pending p.regions

theorem frames_settled (p : Progress State) :
    (settled p).map (fun r => (r.state, r.pair)) = p.frames := by
  rw [settled, ← regions_write]
  exact Progress.frames_write _ _

/-- A character that is kept comes behind what was written. -/
theorem keep_spec (p : Progress State) (before : List Char) (ch : Char) :
    (p.keep table before ch).outside = p.outside ∧
      settled (p.keep table before ch) = written (escapeChar ch) (settled p) := by
  have hpending : (p.keep table before ch).pending = p.pending ++ escapeChar ch := by
    rw [Progress.keep, Progress.pending_collect, rewritten_eq, rewrite_singleton]
  have hrest : (p.keep table before ch).outside = p.outside ∧
      (p.keep table before ch).regions = p.regions := by
    unfold Progress.keep Progress.collect
    split
    · exact ⟨rfl, rfl⟩
    · split <;> exact ⟨rfl, rfl⟩
  exact ⟨hrest.1, by rw [settled, hpending, hrest.2, written_append, settled]⟩

/-- The outermost region, that of the text itself. -/
def ground (content : String) : Region State := { state := .text, pair := none, content }

/-- It has no tags. -/
theorem wrap_ground (content : String) : table.wrap (ground content) = content := by
  unfold Table.wrap
  split
  · rename_i hempty
    exact hempty.symm
  · show "" ++ content ++ "" = content
    simp

/-- Two stacks of regions have the same regions inside the outermost one, and the second has `w`
written there before all the rest. -/
def Beside (w : String) (rs rs' : List (Region State)) : Prop :=
  ∃ inner c, rs = inner ++ [ground c] ∧ rs' = inner ++ [ground (w ++ c)]

namespace Beside

variable {w : String} {rs rs' : List (Region State)}

theorem write (h : Beside w rs rs') (text : String) :
    Beside w (written text rs) (written text rs') := by
  obtain ⟨inner, c, rfl, rfl⟩ := h
  cases inner with
  | nil => exact ⟨[], c ++ text, rfl, by simp [written, ground, String.append_assoc]⟩
  | cons r inner => exact ⟨{ r with content := r.content ++ text } :: inner, c, rfl, rfl⟩

theorem enter (h : Beside w rs rs') (r : Region State) : Beside w (r :: rs) (r :: rs') := by
  obtain ⟨inner, c, rfl, rfl⟩ := h
  exact ⟨r :: inner, c, rfl, rfl⟩

theorem frames_eq (h : Beside w rs rs') :
    rs.map (fun r => (r.state, r.pair)) = rs'.map fun r => (r.state, r.pair) := by
  obtain ⟨inner, c, rfl, rfl⟩ := h
  simp [ground]

/-- What is written on the ground comes first when all is closed. -/
theorem close_eq (h : Beside w rs rs') :
    Progress.close table "" rs' "" = w ++ Progress.close table "" rs "" := by
  have hinner : ∀ (inner : List (Region State)) (c text : String),
      Progress.close table "" (inner ++ [ground (w ++ c)]) text =
        w ++ Progress.close table "" (inner ++ [ground c]) text := by
    intro inner c
    induction inner with
    | nil =>
      intro text
      show "" ++ table.wrap (ground (w ++ c ++ text)) = w ++ ("" ++ table.wrap (ground (c ++ text)))
      rw [wrap_ground, wrap_ground, String.empty_append, String.empty_append, String.append_assoc]
    | cons r inner ih => exact fun text => ih _
  obtain ⟨inner, c, rfl, rfl⟩ := h
  exact hinner inner c ""

end Beside

/-- The scan `q` is where the scan `p` is, but for the text `w` that was written before. -/
structure Behind (w : String) (p q : Progress State) : Prop where
  outside : p.outside = "" ∧ q.outside = ""
  beside : Beside w (settled p) (settled q)

namespace Behind

variable {w : String} {before' : List Char}

theorem frames_eq (h : Behind w p q) : p.frames = q.frames := by
  rw [← frames_settled, ← frames_settled, h.beside.frames_eq]

theorem current_eq (h : Behind w p q) : p.current table = q.current table := by
  have hcurrent : ∀ p : Progress State,
      p.current table = (p.frames.head?.map Prod.fst).getD .text := by
    intro p
    unfold Progress.current Progress.frames
    cases p.regions <;> rfl
  rw [hcurrent, hcurrent, h.frames_eq]

/-- The same fires on both sides, if both have white space behind them or neither has. -/
theorem firing_eq (h : Behind w p q) (hblank : isBlankAt before'.head? = isBlankAt before.head?)
    (ch : Char) (after : List Char) :
    q.firing table before' ch after = p.firing table before ch after := by
  have hpair : q.pair = p.pair := by rw [Progress.pair_eq, Progress.pair_eq, h.frames_eq]
  have hlook : q.look before' ch after = { p.look before ch after with before := before' } := by
    rw [Progress.look, Progress.look, hpair]
  unfold Progress.firing
  rw [h.current_eq, hlook]
  exact List.find?_congr fun tr htr => fires_before htr (p.look before ch after) hblank

theorem ne_nil (h : Behind w p q) : p.regions ≠ [] ∧ q.regions ≠ [] := by
  obtain ⟨inner, c, hp, hq⟩ := h.beside
  constructor
  all_goals
    intro hnil
    simp [settled, hnil, written] at hp hq

theorem keep (h : Behind w p q) :
    Behind w (p.keep table before ch) (q.keep table before' ch) := by
  obtain ⟨hpout, hpset⟩ := keep_spec p before ch
  obtain ⟨hqout, hqset⟩ := keep_spec q before' ch
  refine ⟨⟨hpout.trans h.outside.1, hqout.trans h.outside.2⟩, ?_⟩
  rw [hpset, hqset]
  exact h.beside.write _

end Behind

/-! ### Transitions -/

/-- A rule enters a region inside the present one, or leaves one that is not the outermost. -/
theorem target_cases (htr : tr ∈ (rules s).transitions) :
    (∃ target, tr.target = .state target ∧ tr.nested = true) ∨ tr.target = .pop ∧ s ≠ .text := by
  cases isRule_of_mem htr with
  | codeOpen | strikeOpen | strongOpen | emOpen => exact Or.inl ⟨_, rfl, rfl⟩
  | codeClose inside => exact Or.inr ⟨rfl, by rw [inside]; decide⟩
  | strikeClose inside | strongClose inside | emClose inside => exact Or.inr ⟨rfl, inside⟩

theorem settled_of_empty (h : p.pending = "") : settled p = p.regions := by
  unfold settled written
  rw [h]
  cases p.regions <;> simp

theorem current_of_settled {r : Region State} {rs : List (Region State)}
    (h : settled p = r :: rs) : p.current table = r.state := by
  unfold settled written at h
  unfold Progress.current
  split at h
  · cases h
  · rename_i hregions
    rw [hregions, ← (List.cons.inj h).1]

theorem outside_write (h : p.regions ≠ []) (text : String) :
    (p.write text).outside = p.outside := by
  unfold Progress.write
  split
  · exact absurd ‹_› h
  · rfl

/-- Finishing the token is all that is done to the open regions. -/
theorem flush_spec (h : p.regions ≠ []) (source target : State) :
    (p.flush table source target none).regions = settled p ∧
      (p.flush table source target none).outside = p.outside := by
  unfold Progress.flush
  dsimp only
  rw [written_eq, regions_write]
  exact ⟨rfl, outside_write (by exact h) _⟩

/-- A region that is entered lies inside those that are open. -/
theorem follow_enter (h : p.regions ≠ []) (htr : tr ∈ (rules s).transitions) {target : State}
    (htarget : tr.target = .state target) (hnested : tr.nested = true) (before : List Char)
    (ch : Char) (cs : List Char) :
    settled (p.follow table tr before ch cs) =
        { state := target, pair := tr.delimiter ch, content := "" } :: settled p ∧
      (p.follow table tr before ch cs).outside = p.outside := by
  obtain ⟨hplace, htokens, -⟩ := silent s tr htr
  have hfollow : p.follow table tr before ch cs =
      (p.flush table (p.current table) target none).enter target (tr.delimiter ch) := by
    unfold Progress.follow
    simp only [hplace, htokens, htarget, hnested, Progress.writeAt, Progress.destination]
    rfl
  obtain ⟨hregions, houtside⟩ := flush_spec h (p.current table) target
  rw [settled_of_empty ((silent s tr htr).pending_follow p before ch cs), hfollow, Progress.regions_enter, hregions]
  exact ⟨rfl, houtside⟩

/-- A region that is left moves its markup into the one around it. -/
theorem follow_leave (htr : tr ∈ (rules s).transitions) (htarget : tr.target = .pop)
    {r : Region State} {rs : List (Region State)} (hp : settled p = r :: rs) (hrs : rs ≠ [])
    (before : List Char) (ch : Char) (cs : List Char) :
    settled (p.follow table tr before ch cs) = written (table.wrap r) rs ∧
      (p.follow table tr before ch cs).outside = p.outside := by
  obtain ⟨hplace, htokens, -⟩ := silent s tr htr
  have hne : p.regions ≠ [] := by
    intro hnil
    rw [settled, hnil] at hp
    cases hp
  have hfollow : p.follow table tr before ch cs =
      ((p.flush table (p.current table) (p.destination table .pop) none).leave table).reenter
        table := by
    unfold Progress.follow
    simp only [hplace, htokens, htarget, Progress.writeAt]
    rfl
  obtain ⟨hregions, houtside⟩ := flush_spec hne (p.current table) (p.destination table .pop)
  rw [settled_of_empty ((silent s tr htr).pending_follow p before ch cs), hfollow]
  generalize p.flush table (p.current table) (p.destination table .pop) none = q at *
  rw [hp] at hregions
  have hleave : (q.leave table).regions = written (table.wrap r) rs ∧
      (q.leave table).outside = q.outside := by
    unfold Progress.leave
    rw [hregions]
    exact ⟨regions_write _ _, outside_write (by exact hrs) _⟩
  have hreenter : (q.leave table).reenter table = q.leave table := by
    unfold Progress.reenter
    rw [hleave.1]
    cases rs with
    | nil => exact absurd rfl hrs
    | cons r' rs => rfl
  rw [hreenter]
  exact ⟨hleave.1, hleave.2.trans houtside⟩

namespace Behind

variable {w : String} {before' : List Char}

/-- The two scans follow a transition side by side. -/
theorem follow (h : Behind w p q) (htr : tr ∈ (rules (p.current table)).transitions)
    (cs : List Char) :
    Behind w (p.follow table tr before ch cs) (q.follow table tr before' ch cs) := by
  obtain ⟨hp, hq⟩ := h.ne_nil
  rcases target_cases htr with ⟨target, htarget, hnested⟩ | ⟨htarget, hinside⟩
  · obtain ⟨hpset, hpout⟩ := follow_enter hp htr htarget hnested before ch cs
    obtain ⟨hqset, hqout⟩ := follow_enter hq htr htarget hnested before' ch cs
    refine ⟨⟨hpout.trans h.outside.1, hqout.trans h.outside.2⟩, ?_⟩
    rw [hpset, hqset]
    exact h.beside.enter _
  · obtain ⟨inner, c, hpset, hqset⟩ := h.beside
    cases inner with
    | nil => exact absurd (current_of_settled hpset) hinside
    | cons r inner =>
      obtain ⟨hpset, hpout⟩ := follow_leave htr htarget hpset (by simp) before ch cs
      obtain ⟨hqset, hqout⟩ := follow_leave htr htarget hqset (by simp) before' ch cs
      refine ⟨⟨hpout.trans h.outside.1, hqout.trans h.outside.2⟩, ?_⟩
      rw [hpset, hqset]
      exact Beside.write ⟨inner, c, rfl, rfl⟩ _

/-! ### The rest of the text -/

theorem visit (h : Behind w p q) (hblank : isBlankAt before'.head? = isBlankAt before.head?)
    (ch : Char) (after : List Char) (hops : Nat) :
    (q.visit table before' ch after hops).2 = (p.visit table before ch after hops).2 ∧
      Behind w (p.visit table before ch after hops).1 (q.visit table before' ch after hops).1 := by
  have hfiring := h.firing_eq hblank ch after
  cases hfire : p.firing table before ch after with
  | none =>
    rw [Progress.visit_of_none hfire, Progress.visit_of_none (hfiring.trans hfire)]
    exact ⟨rfl, h.keep⟩
  | some tr =>
    obtain ⟨htr, -⟩ := Progress.firing_spec hfire
    have hz := (silent _ tr htr).consumes
    rw [Progress.visit_of_some hfire hz, Progress.visit_of_some (hfiring.trans hfire) hz,
      reach_eq htr, reach_eq htr]
    exact ⟨rfl, h.follow htr _⟩

theorem scan (h : Behind w p q) (hblank : isBlankAt before'.head? = isBlankAt before.head?)
    (text : List Char) (skip : Nat) :
    Behind w (p.scan table before text skip) (q.scan table before' text skip) := by
  induction text generalizing before before' skip p q with
  | nil => exact h
  | cons ch after ih =>
    have hbehind : isBlankAt (ch :: before').head? = isBlankAt (ch :: before).head? := rfl
    cases skip with
    | succ skip => exact ih h hbehind skip
    | zero =>
      obtain ⟨hskip, hvisit⟩ := h.visit hblank ch after hopLimit
      rw [Progress.scan_cons, Progress.scan_cons, hskip]
      exact ih hvisit hbehind _

end Behind

/-- The markup of a scan that ends is that of its regions with the token finished. -/
theorem complete_eq (hne : p.regions ≠ []) (hout : p.outside = "") :
    p.complete table = Progress.close table "" (settled p) "" := by
  obtain ⟨hregions, houtside⟩ := flush_spec hne (p.current table) table.initial
  show Progress.close table (p.flush table _ _ none).outside
    (p.flush table _ _ none).regions "" = _
  rw [hregions, houtside, hout]

/-- **Where the text ends, one scan has written what the other has, and `w` before it.** -/
theorem Behind.complete_eq {w : String} (h : Behind w p q) :
    q.complete table = w ++ p.complete table := by
  rw [Inline.complete_eq h.ne_nil.2 h.outside.2, Inline.complete_eq h.ne_nil.1 h.outside.1,
    h.beside.close_eq]

/-! ## Texts with closed spans -/

/-- The scan of a text ends with no region open but that of the text itself. -/
def ClosesSpans (text : String) : Prop :=
  (table.start.scan table [] text.toList 0).frames = [(.text, none)]

instance (text : String) : Decidable (ClosesSpans text) :=
  inferInstanceAs (Decidable (_ = _))

/-- The scan of such a text has written all of it on the ground. -/
theorem ClosesSpans.settled_eq {text : String} (h : ClosesSpans text) :
    (table.start.scan table [] text.toList 0).outside = "" ∧
      settled (table.start.scan table [] text.toList 0) = [ground (table.run text)] := by
  -- a scan is where it is itself, with nothing written before
  have hstart : Behind "" table.start table.start := ⟨⟨rfl, rfl⟩, [], "", rfl, rfl⟩
  have hend : Behind "" (table.start.scan table [] text.toList 0)
      (table.start.scan table [] text.toList 0) := hstart.scan rfl text.toList 0
  have hrun : table.run text = (table.start.scan table [] text.toList 0).complete table := rfl
  rw [ClosesSpans] at h
  generalize table.start.scan table [] text.toList 0 = p at h hend hrun ⊢
  obtain ⟨inner, c, hsettled, -⟩ := hend.beside
  rw [← frames_settled, hsettled, List.map_append] at h
  obtain rfl : inner = [] := by
    have hlength := congrArg List.length h
    simpa using hlength
  have hcontent : table.run text = c := by
    rw [hrun, complete_eq hend.ne_nil.1 hend.outside.1, hsettled]
    show "" ++ table.wrap (ground (c ++ "")) = c
    rw [wrap_ground, String.append_empty, String.empty_append]
  rw [hcontent]
  exact ⟨hend.outside.1, hsettled⟩

/-- **Spans that are closed stay as they are** whatever follows after a space. -/
theorem run_append_blank {x : String} (h : ClosesSpans x) (y : String) :
    table.run (x ++ " " ++ y) = table.run x ++ " " ++ table.run y := by
  have hpaired := paired_scan paired_start [] x.toList 0
  obtain ⟨hout, hsettled⟩ := h.settled_eq
  have htext : (x ++ " " ++ y).toList = x.toList ++ ' ' :: y.toList := by simp
  rw [Table.run_eq_rest, Table.run_eq_rest table y, htext, Progress.rest,
    scan_append paired_start (Nat.zero_le _), List.append_nil]
  generalize table.start.scan table [] x.toList 0 = p at hpaired hout hsettled ⊢
  -- nothing fires at the space, so it is kept
  have hquiet : p.firing table x.toList.reverse ' ' y.toList = none := by
    refine List.find?_eq_none.2 fun tr htr hfires => ?_
    exact absurd (isDelimiter_of_fires htr (isEmphasisChar_of_gives hpaired.gives_pair) hfires)
      (by show ¬ isDelimiter ' ' = true; decide)
  have hspace : Behind (table.run x ++ " ") table.start (p.keep table x.toList.reverse ' ') := by
    obtain ⟨hkeptOut, hkept⟩ := keep_spec p x.toList.reverse ' '
    refine ⟨⟨rfl, hkeptOut.trans hout⟩, [], "", rfl, ?_⟩
    rw [hkept, hsettled]
    simp [written, ground, escapeChar]
  have hreach := (Progress.reaches_of_none hquiet).rest_eq
  rw [Progress.rest] at hreach
  -- a space behind a scan is as good as nothing
  have hblank : isBlankAt (' ' :: x.toList.reverse).head? = isBlankAt ([] : List Char).head? := rfl
  rw [hreach]
  exact (hspace.scan hblank y.toList 0).complete_eq

/-- Nested spans before, and others after that are never closed. -/
theorem run_append_blank_open :
    ClosesSpans "**a _b_** ~~`c*`~~" ∧
      table.run ("**a _b_** ~~`c*`~~" ++ " " ++ "*d ~~`e") =
        table.run "**a _b_** ~~`c*`~~" ++ " " ++ table.run "*d ~~`e" := by
  have hcloses : ClosesSpans "**a _b_** ~~`c*`~~" := by decide +kernel
  exact ⟨hcloses, run_append_blank hcloses "*d ~~`e"⟩

end Inline
end Markup
end AnswerStream
