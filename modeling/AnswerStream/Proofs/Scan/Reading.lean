import AnswerStream.Proofs.Scan.Invariant

/-!
# What a run makes of its text

A run reads its text once, from left to right, and what it writes it only ever adds to.
`Progress.soFar` is what a scan has written at some moment, with the entry text of each
region that holds something and with no exit text of an open one.  Each operation of the
scan leaves this as it is or adds to its end, which makes it possible to say what the
markup written so far has to do with the text read so far.

## The contract

`Table.Reads R Q S` collects what has to be known of a table for that: `R m xs` says that
the markup `m` is a way to write the text `xs`, `Q p ys` that the token `p` holds the text
`ys`, and `S xs` that the text `xs` may end where a token starts.  Each field is about one
rule of the table.  Then `R` holds of a run and its whole text (`Table.Reads.run`).

Consumed characters take different ways into the markup: into the region that is left,
between it and the next, into the region that is entered, or into the next token.  The
token that is finished is always written before them, so the order is kept.
-/

namespace AnswerStream
namespace Scan

open Text

variable {σ : Type}

/-! ## What was written so far -/

/-- What was written, with the open regions around `inner`.  A region that holds nothing
has no entry text yet. -/
def Table.openText (t : Table σ) (outside : String) : List (Region σ) → String → String
  | [], inner => outside ++ inner
  | r :: rs, inner =>
    t.openText outside rs
      (if r.content ++ inner = "" then "" else (t.rules r.state).entry ++ r.content ++ inner)

/-- The entry texts that the next text to be written brings with it: those of the regions
that hold nothing yet. -/
def Table.lead (t : Table σ) : List (Region σ) → String
  | [] => ""
  | r :: rs => if r.content = "" then t.lead rs ++ (t.rules r.state).entry else ""

/-- Text written inside the open regions comes after all that was written. -/
theorem Table.openText_eq (t : Table σ) (outside : String) (rs : List (Region σ))
    {text : String} (h : text ≠ "") :
    t.openText outside rs text = t.openText outside rs "" ++ t.lead rs ++ text := by
  induction rs generalizing text with
  | nil => simp [openText, lead]
  | cons r rs ih =>
    have hne : ∀ s, s ++ text ≠ "" := fun s hs => h (String.append_eq_empty_iff.1 hs).2
    by_cases hc : r.content = ""
    · rw [openText, if_neg (hne _), ih (hne _)]
      simp [openText, lead, hc, String.append_assoc]
    · have hne' : (t.rules r.state).entry ++ r.content ≠ "" :=
        fun hs => hc (String.append_eq_empty_iff.1 hs).2
      rw [openText, if_neg (hne _), ih (hne _)]
      simp [openText, lead, hc, ih hne', String.append_assoc]

namespace Progress

variable (t : Table σ)

/-- What a scan has written. -/
def soFar (p : Progress σ) : String := t.openText p.outside p.regions ""

variable {t}

theorem soFar_write_eq (text : String) (p : Progress σ) :
    (p.write text).soFar t = t.openText p.outside p.regions text := by
  unfold soFar write
  split
  · simp [*, Table.openText]
  · simp [*, Table.openText, String.append_assoc]

/-- What is written is added, after the entry texts that are due. -/
theorem soFar_write {text : String} (h : text ≠ "") (p : Progress σ) :
    (p.write text).soFar t = p.soFar t ++ t.lead p.regions ++ text := by
  rw [soFar_write_eq, t.openText_eq _ _ h]
  rfl

@[simp] theorem soFar_write_empty (p : Progress σ) : (p.write "").soFar t = p.soFar t :=
  soFar_write_eq "" p

/-- Finishing a token writes it. -/
theorem soFar_flush (source target : σ) (own : Option (Token σ → String)) (p : Progress σ) :
    (p.flush t source target own).soFar t =
      (p.write (written t own (p.token source target))).soFar t := by
  rw [flush, soFar_write_eq, soFar_write_eq]

@[simp] theorem soFar_enter (s : σ) (pair : Option Char) (p : Progress σ) :
    (p.enter s pair).soFar t = p.soFar t := by
  simp [soFar, enter, Table.openText]

@[simp] theorem soFar_reenter (p : Progress σ) : (p.reenter t).soFar t = p.soFar t := by
  unfold reenter
  split
  · exact soFar_enter _ _ _
  · rfl

@[simp] theorem soFar_collect (text : String) (before : List Char) (p : Progress σ) :
    (p.collect text before).soFar t = p.soFar t := by
  unfold collect
  split
  · rfl
  · split <;> rfl

/-- Leaving a region that holds something adds its exit text. -/
theorem soFar_leave (p : Progress σ) :
    (p.leave t).soFar t = p.soFar t ∨
      ∃ r ∈ p.regions, (p.leave t).soFar t = p.soFar t ++ (t.rules r.state).exit := by
  unfold leave
  split
  · exact Or.inl rfl
  · rename_i r rs hr
    rw [soFar_write_eq]
    by_cases hc : r.content = ""
    · left
      simp [soFar, hr, Table.openText, Table.wrap, hc]
    · right
      refine ⟨r, by simp [hr], ?_⟩
      have hne : ∀ s, (t.rules r.state).entry ++ r.content ++ s ≠ "" := by
        intro s hs
        exact hc (String.append_eq_empty_iff.1 (String.append_eq_empty_iff.1 hs).1).2
      have hopen := t.openText_eq p.outside rs (hne "")
      rw [Table.wrap, if_neg hc, t.openText_eq _ _ (hne _)]
      simp [soFar, hr, Table.openText, hc, String.append_assoc] at hopen ⊢
      rw [hopen]
      simp [String.append_assoc]

/-! ## The open regions -/

/-- The states and delimiters of the open regions, innermost first. -/
def frames (p : Progress σ) : List (σ × Option Char) := p.regions.map fun r => (r.state, r.pair)

@[simp] theorem frames_write (text : String) (p : Progress σ) :
    (p.write text).frames = p.frames := by
  unfold frames write
  split
  · rfl
  · simp [*]

@[simp] theorem frames_leave (p : Progress σ) : (p.leave t).frames = p.frames.tail := by
  unfold leave
  split
  · simp [frames, *]
  · rw [frames_write]
    simp [frames, *]

@[simp] theorem frames_enter (s : σ) (pair : Option Char) (p : Progress σ) :
    (p.enter s pair).frames = (s, pair) :: p.frames := rfl

@[simp] theorem frames_flush (source target : σ) (own : Option (Token σ → String))
    (p : Progress σ) : (p.flush t source target own).frames = p.frames := by
  unfold flush
  rw [frames_write]
  rfl

@[simp] theorem frames_collect (text : String) (before : List Char) (p : Progress σ) :
    (p.collect text before).frames = p.frames := by
  unfold collect
  split
  · rfl
  · split <;> rfl

/-- The rules see the delimiter of the innermost region. -/
theorem pair_eq (p : Progress σ) : p.pair = p.frames.head?.bind Prod.snd := by
  unfold pair frames
  cases p.regions <;> rfl

/-- The innermost region says where the scan is. -/
theorem current_eq (p : Progress σ) :
    p.current t = (p.frames.head?.map Prod.fst).getD t.initial := by
  unfold current frames
  cases p.regions <;> rfl

/-- The region around it says where a pop leads. -/
theorem destination_pop (p : Progress σ) :
    p.destination t .pop = (p.frames.tail.head?.map Prod.fst).getD t.initial := by
  unfold destination frames
  rcases p.regions with _ | ⟨r, _ | ⟨r', rs⟩⟩ <;> rfl

@[simp] theorem frames_writeAt (here place : Placement) (text : String) (p : Progress σ) :
    (p.writeAt here place text).frames = p.frames := by
  unfold writeAt
  split
  · exact frames_write _ _
  · rfl

theorem frames_reenter (p : Progress σ) :
    (p.reenter t).frames = if p.frames = [] then [(t.initial, none)] else p.frames := by
  unfold reenter
  cases hr : p.regions <;> simp [frames, hr, enter]

/-- Markup that is kept by the exit texts of the open regions is kept when all are closed. -/
theorem close_of_soFar {M : String → Prop} {p : Progress σ}
    (hexit : ∀ f ∈ p.frames, ∀ m, M m → M (m ++ (t.rules f.1).exit)) (h : M (p.soFar t)) :
    M (Progress.close t p.outside p.regions "") := by
  induction hn : p.regions.length generalizing p with
  | zero =>
    have hr : p.regions = [] := List.length_eq_zero_iff.1 hn
    simpa [soFar, Table.openText, Progress.close, hr] using h
  | succ n ih =>
    obtain ⟨r, rs, hr⟩ := List.exists_cons_of_length_eq_add_one hn
    have hleave : M ((p.leave t).soFar t) := by
      rcases soFar_leave (t := t) p with heq | ⟨r, hmem, heq⟩
      · rw [heq]
        exact h
      · rw [heq]
        exact hexit _ (List.mem_map_of_mem hmem) _ h
    rw [close_eq_close_leave (by simp [hr])]
    refine ih (fun f hf => hexit f ?_) hleave (by simpa [leave, hr] using hn)
    rw [frames_leave] at hf
    exact List.mem_of_mem_tail hf

/-! ## What a transition does -/

/-- Moving to the target of a transition leads from `A` to `B` if what is done between the
regions does. -/
theorem move_induct {A B : Progress σ → Prop} {tr : Transition σ} {ch : Char}
    {mid : Progress σ → Progress σ} (hleave : ∀ q, A q → A (q.leave t))
    (henter : ∀ q s pair, (s = t.initial ∧ pair = none) ∨
      (tr.target = .state s ∧ pair = tr.delimiter ch) → B q → B (q.enter s pair))
    (hmid : ∀ q, A q → B (mid q)) {q : Progress σ} (h : A q) :
    B (match tr.target with
      | .stay => mid q
      | .pop => (mid (q.leave t)).reenter t
      | .state s => (mid (if tr.nested then q else q.leave t)).enter s (tr.delimiter ch)) := by
  cases htarget : tr.target with
  | stay => exact hmid q h
  | pop =>
    have hB := hmid _ (hleave q h)
    show B ((mid (q.leave t)).reenter t)
    unfold reenter
    split
    · exact henter _ _ _ (Or.inl ⟨rfl, rfl⟩) hB
    · exact hB
  | state s =>
    refine henter _ _ _ (Or.inr ⟨htarget, rfl⟩) (hmid _ ?_)
    split
    · exact h
    · exact hleave q h

/-- What following a transition comes to.  `A` is a property of scans that have not written
the consumed characters yet, `B` one of scans that have, and moving between regions keeps
both.  Carried characters go to the token at the very end. -/
theorem follow_induct {A B : Progress σ → Prop} (p : Progress σ) (tr : Transition σ)
    (before : List Char) (ch : Char) (cs : List Char)
    (hflush : A (p.flush t (p.current t) (p.destination t tr.target) tr.tokens))
    (hleaveA : ∀ q, A q → A (q.leave t)) (hleaveB : ∀ q, B q → B (q.leave t))
    (henterA : ∀ q s pair, (s = t.initial ∧ pair = none) ∨
      (tr.target = .state s ∧ pair = tr.delimiter ch) → A q → A (q.enter s pair))
    (henterB : ∀ q s pair, (s = t.initial ∧ pair = none) ∨
      (tr.target = .state s ∧ pair = tr.delimiter ch) → B q → B (q.enter s pair))
    (hwrite : tr.place ≠ .drop → tr.place ≠ .carry → ∀ q, A q →
      B (q.write (rewritten t (p.current t) tr.chars cs))) :
    if tr.place = .carry then
      ∃ q, A q ∧ p.follow t tr before ch cs =
        q.collect (rewritten t (p.current t) tr.chars cs) before
    else if tr.place = .drop then A (p.follow t tr before ch cs)
    else B (p.follow t tr before ch cs) := by
  unfold follow writeAt
  cases hp : tr.place with
  | carry => exact ⟨_, move_induct hleaveA henterA (fun _ h => h) hflush, rfl⟩
  | drop => exact move_induct hleaveA henterA (fun _ h => h) hflush
  | closing =>
    have hw := hwrite (by simp [hp]) (by simp [hp])
    exact move_induct hleaveB henterB (fun _ h => h) (hw _ hflush)
  | between =>
    have hw := hwrite (by simp [hp]) (by simp [hp])
    exact move_induct hleaveA henterB (fun q h => hw q h) hflush
  | opening =>
    have hw := hwrite (by simp [hp]) (by simp [hp])
    exact hw _ (move_induct hleaveA henterA (fun _ h => h) hflush)

/-- The open regions after a transition has been followed. -/
def framesAfter (t : Table σ) (tr : Transition σ) (ch : Char) (fs : List (σ × Option Char)) :
    List (σ × Option Char) :=
  match tr.target with
  | .stay => fs
  | .pop => if fs.tail = [] then [(t.initial, none)] else fs.tail
  | .state s => (s, tr.delimiter ch) :: if tr.nested then fs else fs.tail

theorem frames_follow (p : Progress σ) (tr : Transition σ) (before : List Char) (ch : Char)
    (taken : List Char) :
    (p.follow t tr before ch taken).frames = framesAfter t tr ch p.frames := by
  unfold follow framesAfter
  cases tr.place <;> cases tr.target <;> cases tr.nested <;> simp [frames_reenter]

end Progress

/-! ## Reading a text -/

/-- The characters that a transition consumes. -/
def Transition.taken (tr : Transition σ) (c : Context) : List Char :=
  if tr.zeroWidth then [] else c.ch :: c.after.take (tr.reach c)

namespace Progress

variable {t : Table σ}

/-- What fires is a transition of the state, and it fires there. -/
theorem firing_spec {p : Progress σ} {before after : List Char} {ch : Char} {tr : Transition σ}
    (h : p.firing t before ch after = some tr) :
    tr ∈ (t.rules (p.current t)).transitions ∧ tr.fires (p.look before ch after) = true := by
  have hfires := List.find?_some h
  exact ⟨List.mem_of_find?_eq_some h, hfires⟩

/-- Nothing that fires here consumes anything. -/
def Stalls (t : Table σ) (p : Progress σ) (before : List Char) (ch : Char) (after : List Char) :
    Prop :=
  ∀ tr, p.firing t before ch after = some tr → tr.zeroWidth = true

theorem stalls_of_eq_none {p : Progress σ} {before after : List Char} {ch : Char}
    (h : p.firing t before ch after = none) : p.Stalls t before ch after := by
  intro tr htr
  rw [h] at htr
  cases htr

theorem stalls_of_eq_some {p : Progress σ} {before after : List Char} {ch : Char}
    {tr : Transition σ} (h : p.firing t before ch after = some tr) (hz : tr.zeroWidth = true) :
    p.Stalls t before ch after := by
  intro tr' htr'
  rwa [Option.some.inj (h.symm.trans htr')] at hz

variable [DecidableEq σ]

/-- A property of scans and of the text read before them that is kept when a character
joins the token and when a transition is followed is kept when a character is visited. -/
theorem visit_reads {I : List Char → Progress σ → Prop}
    (hkeep : ∀ before ch after p, p.Stalls t before ch after → I before p →
      I (ch :: before) (p.keep t before ch))
    (hfollow : ∀ before ch after p tr, p.firing t before ch after = some tr → I before p →
      I ((tr.taken (p.look before ch after)).reverse ++ before)
        (p.follow t tr before ch (tr.taken (p.look before ch after))))
    (before : List Char) (ch : Char) (after : List Char) (hops : Nat) {p : Progress σ}
    (h : I before p) :
    I ((ch :: after.take (p.visit t before ch after hops).2).reverse ++ before)
      (p.visit t before ch after hops).1 := by
  refine visit_induction (motive := fun p v => I before p →
    I ((ch :: after.take v.2).reverse ++ before) v.1) (fun p hstall hp => ?_)
    (fun p tr hfire hz hp => ?_) (fun p tr v hfire hz hv hp => ?_) hops p h
  · simpa using hkeep before ch after p hstall hp
  · have hf := hfollow before ch after p tr hfire hp
    have htake : ∀ n, after.take (after.take n).length = after.take n := by simp
    rw [Transition.taken, if_neg (by simp [hz])] at hf
    simp only [htake]
    exact hf
  · have hf := hfollow before ch after p tr hfire hp
    rw [Transition.taken, if_pos hz] at hf
    exact hv hf

/-- What is kept when a character is visited is kept to the end of the text. -/
theorem scan_reads {I : List Char → Progress σ → Prop}
    (hkeep : ∀ before ch after p, p.Stalls t before ch after → I before p →
      I (ch :: before) (p.keep t before ch))
    (hfollow : ∀ before ch after p tr, p.firing t before ch after = some tr → I before p →
      I ((tr.taken (p.look before ch after)).reverse ++ before)
        (p.follow t tr before ch (tr.taken (p.look before ch after))))
    (before text : List Char) (skip : Nat) {p : Progress σ}
    (h : I ((text.take skip).reverse ++ before) p) :
    I (text.reverse ++ before) (p.scan t before text skip) := by
  induction text generalizing before skip p with
  | nil => simpa [scan] using h
  | cons ch after ih =>
    cases skip with
    | succ skip =>
      have hn := ih (ch :: before) skip (by simpa using h)
      simpa [scan] using hn
    | zero =>
      have hv := visit_reads hkeep hfollow before ch after hopLimit h
      have hn := ih (ch :: before) _ (by simpa using hv)
      simpa [scan] using hn

end Progress

/-! ## The contract of a table -/

namespace Table

/-- A delimiter that the region of a scan may have. -/
def Gives (t : Table σ) (pair : Option Char) : Prop :=
  pair = none ∨ ∃ s, ∃ tr ∈ (t.rules s).transitions, ∃ c : Context,
    tr.fires c = true ∧ pair = tr.delimiter c.ch

/-- The characters `cs` are some that a transition of the state `s` consumes at a place
where it fires. -/
def Takes (t : Table σ) (s : σ) (tr : Transition σ) (cs : List Char) : Prop :=
  tr ∈ (t.rules s).transitions ∧
    ∃ c : Context, t.Gives c.pair ∧ tr.fires c = true ∧ cs = tr.taken c

/-- What makes the runs of a table ways to write their texts. -/
structure Reads (t : Table σ) (R : String → List Char → Prop) (Q : String → List Char → Prop)
    (S : List Char → Prop) : Prop where
  /-- Nothing is written for nothing. -/
  nil : R "" []
  /-- A token may start where the text starts. -/
  start : S []
  /-- The text that opens a region stands for nothing. -/
  entry : ∀ s m xs, R m xs → R (m ++ (t.rules s).entry) xs
  /-- Nor does the text that closes one. -/
  exit : ∀ s m xs, R m xs → R (m ++ (t.rules s).exit) xs
  /-- A token starts empty. -/
  empty : Q "" []
  /-- A character is kept at the end of the token. -/
  keep : ∀ s p ys c, Q p ys → Q (p ++ Progress.rewritten t s none [c]) (ys ++ [c])
  /-- Characters carried into a token start it. -/
  carried : ∀ s tr cs, t.Takes s tr cs → tr.place = .carry →
    Q (Progress.rewritten t s tr.chars cs) cs
  /-- A token is written for the text that it holds. -/
  token : ∀ m xs k ys own, S xs → R m xs → Q k.text ys →
    (own = none ∨ ∃ tr ∈ (t.rules k.source).transitions, own = tr.tokens) →
    R (m ++ Progress.written t own k) (xs ++ ys)
  /-- Consumed characters are written for themselves. -/
  shown : ∀ m xs s tr cs, t.Takes s tr cs → tr.place ≠ .drop → tr.place ≠ .carry →
    R m xs → R (m ++ Progress.rewritten t s tr.chars cs) (xs ++ cs)
  /-- Dropped characters are written as nothing. -/
  dropped : ∀ m xs s tr cs, t.Takes s tr cs → tr.place = .drop → R m xs → R m (xs ++ cs)
  /-- A token may start where a transition has consumed its characters, or where these
  are carried into it. -/
  settled : ∀ xs s tr cs, t.Takes s tr cs → S (xs ++ if tr.place = .carry then [] else cs)

variable {t : Table σ} {R : String → List Char → Prop} {Q : String → List Char → Prop}
  {S : List Char → Prop}

namespace Reads

/-- The entry texts that are due stand for nothing. -/
theorem lead (h : t.Reads R Q S) {m : String} {xs : List Char} (hm : R m xs)
    (rs : List (Region σ)) : R (m ++ t.lead rs) xs := by
  induction rs with
  | nil => simpa [Table.lead] using hm
  | cons r rs ih =>
    unfold Table.lead
    split
    · rw [← String.append_assoc]
      exact h.entry _ _ _ ih
    · simpa using hm

/-- What is written into a scan is read after what it has written so far. -/
theorem write (h : t.Reads R Q S) {p : Progress σ} {xs zs : List Char} {text : String}
    (hp : R (p.soFar t) xs) (hw : ∀ m, R m xs → R (m ++ text) zs) :
    R ((p.write text).soFar t) zs := by
  by_cases ht : text = ""
  · have hz := hw _ hp
    rw [ht, String.append_empty] at hz
    rwa [ht, Progress.soFar_write_empty]
  · rw [Progress.soFar_write ht]
    exact hw _ (h.lead hp _)

theorem leave (h : t.Reads R Q S) {p : Progress σ} {xs : List Char}
    (hp : R (p.soFar t) xs) : R ((p.leave t).soFar t) xs := by
  rcases Progress.soFar_leave (t := t) p with heq | ⟨r, -, heq⟩
  · rwa [heq]
  · rw [heq]
    exact h.exit _ _ _ hp

end Reads

end Table

namespace Table
namespace Reads

variable {t : Table σ} {R : String → List Char → Prop} {Q : String → List Char → Prop}
  {S : List Char → Prop}

/-- The delimiters of the open regions are some that the transitions of the table give. -/
def Paired (t : Table σ) (p : Progress σ) : Prop := ∀ f ∈ p.frames, t.Gives f.2

/-- The delimiter that a rule sees is one of them. -/
theorem Paired.gives_pair {p : Progress σ} (h : Paired t p) : t.Gives p.pair := by
  rw [Progress.pair_eq]
  cases hf : p.frames with
  | nil => exact Or.inl rfl
  | cons f fs => exact h f (by simp [hf])

theorem Paired.leave {p : Progress σ} (h : Paired t p) : Paired t (p.leave t) := by
  intro f hf
  rw [Progress.frames_leave] at hf
  exact h f (List.mem_of_mem_tail hf)

/-- A region is entered without a delimiter, or with the one that a transition gives. -/
theorem Paired.enter {p : Progress σ} (h : Paired t p) {tr : Transition σ} {ch : Char}
    (hd : t.Gives (tr.delimiter ch)) {s : σ} {pair : Option Char}
    (hs : (s = t.initial ∧ pair = none) ∨ (tr.target = .state s ∧ pair = tr.delimiter ch)) :
    Paired t (p.enter s pair) := by
  refine List.forall_mem_cons.2 ⟨?_, h⟩
  rcases hs with ⟨-, rfl⟩ | ⟨-, rfl⟩
  · exact Or.inl rfl
  · exact hd

/-- A scan has read the text `before`, nearest character first: it has written one part of
it and collects the other. -/
def Invariant (t : Table σ) (R : String → List Char → Prop) (Q : String → List Char → Prop)
    (S : List Char → Prop) (before : List Char) (p : Progress σ) : Prop :=
  Paired t p ∧ ∃ xs ys, before = (xs ++ ys).reverse ∧ R (p.soFar t) xs ∧ Q p.pending ys ∧ S xs

theorem invariant_keep (h : t.Reads R Q S) (before : List Char) (ch : Char) (p : Progress σ)
    (hp : Invariant t R Q S before p) : Invariant t R Q S (ch :: before) (p.keep t before ch) := by
  obtain ⟨hpair, xs, ys, rfl, hR, hQ, hS⟩ := hp
  refine ⟨by simpa [Paired, Progress.keep] using hpair, xs, ys ++ [ch], by simp, ?_, ?_, hS⟩
  · rw [Progress.keep, Progress.soFar_collect]
    exact hR
  · rw [Progress.keep, Progress.pending_collect]
    exact h.keep _ _ _ _ hQ

/-- Following a transition of the state in which the scan stands reads what the transition
takes. -/
theorem invariant_follow (h : t.Reads R Q S) (before : List Char) (ch : Char)
    {p : Progress σ} {tr : Transition σ} {cs : List Char} (ht : t.Takes (p.current t) tr cs)
    (hd : t.Gives (tr.delimiter ch)) (hp : Invariant t R Q S before p) :
    Invariant t R Q S (cs.reverse ++ before) (p.follow t tr before ch cs) := by
  obtain ⟨hpair, xs, ys, rfl, hR, hQ, hS⟩ := hp
  have hpending : ∀ c, tr.place = c → (p.follow t tr (xs ++ ys).reverse ch cs).pending =
      if c = .carry then Progress.rewritten t (p.current t) tr.chars cs else "" := by
    rintro c rfl
    exact Progress.pending_follow ..
  have hmoves := Progress.follow_induct (t := t)
    (A := fun q => Paired t q ∧ R (q.soFar t) (xs ++ ys))
    (B := fun q => Paired t q ∧ R (q.soFar t) (xs ++ ys ++ cs)) p tr (xs ++ ys).reverse ch cs
    ⟨by simpa [Paired] using hpair, by
      rw [Progress.soFar_flush]
      exact h.write hR fun m hm => h.token _ _ _ _ _ hS hm hQ (Or.inr ⟨tr, ht.1, rfl⟩)⟩
    (fun q hq => ⟨hq.1.leave, h.leave hq.2⟩) (fun q hq => ⟨hq.1.leave, h.leave hq.2⟩)
    (fun q s pair hs hq => ⟨hq.1.enter hd hs, by simpa using hq.2⟩)
    (fun q s pair hs hq => ⟨hq.1.enter hd hs, by simpa using hq.2⟩)
    (fun hdrop hcarry q hq => ⟨by simpa [Paired] using hq.1,
      h.write hq.2 fun m hm => h.shown _ _ _ _ _ ht hdrop hcarry hm⟩)
  have hsettled := h.settled (xs ++ ys) _ _ _ ht
  split at hmoves
  · rename_i hc
    -- carried characters are the start of the next token
    obtain ⟨q, ⟨hqp, hqr⟩, hq⟩ := hmoves
    refine ⟨by rw [hq]; simpa [Paired] using hqp, xs ++ ys, cs, by simp, ?_, ?_, ?_⟩
    · rw [hq, Progress.soFar_collect]
      exact hqr
    · rw [hpending _ hc, if_pos rfl]
      exact h.carried _ _ _ ht hc
    · simpa [hc] using hsettled
  · rename_i hc
    rw [if_neg hc] at hsettled
    have hempty : Q (p.follow t tr (xs ++ ys).reverse ch cs).pending [] := by
      rw [hpending _ rfl, if_neg hc]
      exact h.empty
    split at hmoves
    · rename_i hdrop
      exact ⟨hmoves.1, xs ++ ys ++ cs, [], by simp, h.dropped _ _ _ _ _ ht hdrop hmoves.2, hempty,
        hsettled⟩
    · exact ⟨hmoves.1, xs ++ ys ++ cs, [], by simp, hmoves.2, hempty, hsettled⟩

variable [DecidableEq σ]

/-- **A run writes its text**, if the table reads. -/
theorem run (h : t.Reads R Q S) (text : String) : R (t.run text) text.toList := by
  have hstart : Invariant t R Q S [] t.start := by
    refine ⟨?_, [], [], rfl, ?_, h.empty, h.start⟩
    · simp [Table.start, Paired, Progress.frames, Gives]
    · rw [Table.start, Progress.soFar_enter]
      exact h.nil
  have hscan := Progress.scan_reads (I := Invariant t R Q S)
    (fun before ch _ p _ hp => h.invariant_keep before ch p hp)
    (fun before ch after p tr hfire hp => by
      obtain ⟨hmem, hfires⟩ := Progress.firing_spec hfire
      exact h.invariant_follow before ch
        ⟨hmem, p.look before ch after, hp.1.gives_pair, hfires, rfl⟩
        (Or.inr ⟨_, tr, hmem, p.look before ch after, hfires, rfl⟩) hp)
    [] text.toList 0 hstart
  obtain ⟨-, xs, ys, hb, hR, hQ, hS⟩ := hscan
  have htext : xs ++ ys = text.toList := by simpa using congrArg List.reverse hb.symm
  have hfinish : R ((t.finish text).soFar t) text.toList := by
    rw [Table.finish]
    generalize t.start.scan t [] text.toList 0 = p at hR hQ ⊢
    rw [Progress.soFar_flush, ← htext]
    exact h.write hR fun m hm => h.token _ _ _ _ _ hS hm hQ (Or.inl rfl)
  exact Progress.close_of_soFar (M := fun m => R m text.toList)
    (fun f _ m hm => h.exit f.1 m _ hm) hfinish

end Reads
end Table

end Scan
end AnswerStream
