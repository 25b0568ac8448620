import AnswerStream.Markup.Inline
import AnswerStream.Proofs.Markup.Pieces
import AnswerStream.Proofs.Scan.Reading

/-!
# Code inside a line

A backtick opens code wherever it stands, and the next one closes it; nothing else starts
or ends in between.  So the code of a line is every second part of its text between
backticks, and the scan writes each such part, unless it is empty, between code tags with
its characters escaped (`coded_run`).

## The scan

Outside code every state looks for a backtick first, and no other transition consumes one.
Inside code only a backtick is looked for.  `Tracks` relates a scan to the text it has read:
to the parts of code that are complete, and to the one under way, if any, which is the token
being collected.
-/

namespace AnswerStream
namespace Markup
namespace Inline

open Text Scan

/-! ## Code in a text -/

/-- The texts that stand in code, in order.  The last one may have no closing backtick.
Inside code, `held` is what was read of it, the latest character first. -/
def codeParts : (held : Option (List Char)) → List Char → List (List Char)
  | none, [] => []
  | some held, [] => [held.reverse]
  | none, c :: cs => if c = '\x60' then codeParts (some []) cs else codeParts none cs
  | some held, c :: cs =>
    if c = '\x60' then held.reverse :: codeParts none cs else codeParts (some (c :: held)) cs

/-- Text without backticks has no code in it. -/
theorem codeParts_append {cs : List Char} (h : '\x60' ∉ cs) (rest : List Char) :
    codeParts none (cs ++ rest) = codeParts none rest := by
  induction cs with
  | nil => rfl
  | cons c cs ih =>
    have hc : c ≠ '\x60' := by
      rintro rfl
      exact h (List.mem_cons_self ..)
    rw [List.cons_append, codeParts, if_neg hc]
    exact ih fun hm => h (List.mem_cons_of_mem _ hm)

/-! ## Code in markup -/

/-- Code as the scan writes it. -/
def codeSpan (s : List Char) : List Char :=
  Markup.codeOpen ++ escaped s ++ Markup.codeClose

/-- The elements that the scan writes apart from code. -/
def styleNames : List String := ["del", "strong", "em"]

/-- The tags that the scan writes apart from those of code. -/
inductive OfStyle : Tag → Prop
  | opening {name : String} (h : name ∈ styleNames) : OfStyle (.opening name [])
  | closing {name : String} (h : name ∈ styleNames) : OfStyle (.closing name)

theorem OfStyle.ofLine {t : Tag} (h : OfStyle t) : t.OfLine := by
  rcases h with ⟨h⟩ | ⟨h⟩
  · exact .opening ((by decide : ∀ n ∈ styleNames, n ∈ Tag.lineNames) _ h)
  · exact .closing ((by decide : ∀ n ∈ styleNames, n ∈ Tag.lineNames) _ h)

/-- Markup whose code spans hold the texts `ss`, in order, and which has no other tags than
those of deleted, strong and emphasised text. -/
inductive Coded : List Char → List (List Char) → Prop
  | nil : Coded [] []
  | other {m n : List Char} {ss : List (List Char)} (h : Coded m ss) (hn : MadeOf OfStyle n) :
    Coded (m ++ n) ss
  | span {m : List Char} {ss : List (List Char)} (s : List Char) (h : Coded m ss) :
    Coded (m ++ codeSpan s) (ss ++ [s])

namespace Coded

/-- Markup can be cut around any of its code spans. -/
theorem split {m s : List Char} {ss rs : List (List Char)} (h : Coded m (ss ++ s :: rs)) :
    ∃ a b, m = a ++ codeSpan s ++ b ∧ Coded a ss ∧ Coded b rs := by
  generalize hq : ss ++ s :: rs = qs at h
  induction h generalizing rs with
  | nil => simp at hq
  | other h hn ih =>
    obtain ⟨a, b, rfl, ha, hb⟩ := ih hq
    exact ⟨a, b ++ _, by simp, ha, hb.other hn⟩
  | @span m qs t h ih =>
    rcases List.eq_nil_or_concat rs with rfl | ⟨rs, r, rfl⟩
    · obtain ⟨rfl, hs⟩ := List.append_inj' hq rfl
      obtain rfl : s = t := by simpa using hs
      exact ⟨m, [], by simp, h, .nil⟩
    · have hq' : (ss ++ s :: rs) ++ [r] = qs ++ [t] := by simpa using hq
      obtain ⟨hqs, hr⟩ := List.append_inj' hq' rfl
      obtain rfl : r = t := by simpa using hr
      obtain ⟨a, b, rfl, ha, hb⟩ := ih hqs
      exact ⟨a, b ++ codeSpan r, by simp, ha, by simpa using hb.span r⟩

end Coded

/-! ## The transitions -/

/-- A transition that has nothing to do with code: it writes nothing in a way of its own
and drops what it consumes. -/
structure Silent (tr : Transition State) : Prop where
  place_eq : tr.place = .drop
  tokens_none : tr.tokens = none
  consumes : tr.zeroWidth = false

theorem silent (s : State) : ∀ tr ∈ (rules s).transitions, Silent tr := by
  intro tr htr
  cases s <;>
    simp only [rules, Rules.tagged, List.mem_cons, List.not_mem_nil, or_false] at htr <;>
    rcases htr with rfl | rfl | rfl | rfl <;> exact ⟨rfl, rfl, rfl⟩

/-- A silent transition finishes the token and moves the scan, and that is all. -/
theorem Silent.follow_induct {A : Progress State → Prop} {tr : Transition State} (hs : Silent tr)
    (p : Progress State) (before : List Char) (ch : Char) (cs : List Char)
    (hflush : A (p.flush table (p.current table) (p.destination table tr.target) none))
    (hleave : ∀ q, A q → A (q.leave table))
    (henter : ∀ q s pair, (s = State.text ∧ pair = none) ∨
      (tr.target = .state s ∧ pair = tr.delimiter ch) → A q → A (q.enter s pair)) :
    A (p.follow table tr before ch cs) := by
  have hmoves := Progress.follow_induct (t := table) (A := A) (B := fun _ => True) p tr before ch cs
    (by rwa [hs.tokens_none]) hleave (fun _ _ => trivial) henter (fun _ _ _ _ _ => trivial)
    (fun _ _ _ _ => trivial)
  rwa [if_neg (by rw [hs.place_eq]; decide), if_pos hs.place_eq] at hmoves

theorem Silent.pending_follow {tr : Transition State} (hs : Silent tr) (p : Progress State)
    (before : List Char) (ch : Char) (cs : List Char) :
    (p.follow table tr before ch cs).pending = "" := by
  rw [Progress.pending_follow, if_neg (by rw [hs.place_eq]; decide)]

/-- A transition that leads elsewhere than to code, and consumes its character once or twice
or tildes. -/
structure Apart (tr : Transition State) : Prop where
  target_ne : tr.target ≠ .state .code
  taken : ∀ c : Context, tr.fires c = true → ∀ d ∈ tr.taken c, d = c.ch ∨ d = '~'

/-- A transition that consumes one character. -/
theorem Apart.of_one {tr : Transition State} (ht : tr.target ≠ .state .code)
    (hm : tr.measure = none) (he : tr.extra = 0) (hz : tr.zeroWidth = false) : Apart tr := by
  refine ⟨ht, fun c _ d hd => ?_⟩
  simp [Transition.taken, hz, hm, he] at hd
  exact Or.inl hd

/-- A transition that consumes two characters, of which the second is the first again or a
tilde. -/
theorem Apart.of_two {tr : Transition State} (ht : tr.target ≠ .state .code)
    (hm : tr.measure = none) (he : tr.extra = 1) (hz : tr.zeroWidth = false)
    (hnext : ∀ c : Context, tr.fires c = true → ∀ d ∈ c.next, d = c.ch ∨ d = '~') :
    Apart tr := by
  refine ⟨ht, fun c hc d hd => ?_⟩
  have htaken : tr.taken c = c.ch :: c.after.take 1 := by
    simp [Transition.taken, hz, hm, he]
  rw [htaken] at hd
  rcases List.mem_cons.1 hd with rfl | hd
  · exact Or.inl rfl
  · refine hnext c hc d ?_
    unfold Context.next
    cases ha : c.after with
    | nil => simp [ha] at hd
    | cons e es =>
      have hde : d = e := by simpa [ha] using hd
      simp [hde]

/-- Tildes follow each other. -/
theorem next_of_tildes {c : Context} (h : c.startsWith ['~', '~'] = true) :
    ∀ d ∈ c.next, d = c.ch ∨ d = '~' := by
  intro d hd
  unfold Context.startsWith Context.next at *
  cases ha : c.after with
  | nil => simp [ha] at hd
  | cons e es =>
    have hde : d = e := by simpa [ha, eq_comm] using hd
    have htildes : '~' = c.ch ∧ '~' = e := by simpa [ha, List.isPrefixOf] using h
    exact Or.inr (hde.trans htildes.2.symm)

theorem apart_strikeOpen : Apart strikeOpen :=
  .of_two (by simp [strikeOpen]) rfl rfl rfl fun c hc => by
    simp only [strikeOpen, Bool.and_eq_true] at hc
    exact next_of_tildes hc.1

theorem apart_strikeClose : Apart strikeClose :=
  .of_two (by simp [strikeClose]) rfl rfl rfl fun c hc => next_of_tildes hc

theorem apart_strongOpen {s : State} (hs : s ≠ .code) : Apart (strongOpen s) :=
  .of_two (by simpa [strongOpen] using hs) rfl rfl rfl fun c hc d hd => by
    simp only [strongOpen, opensStrong, Bool.and_eq_true, beq_iff_eq] at hc
    rw [hc.1.2] at hd
    exact Or.inl (Option.some.inj hd).symm

theorem apart_strongClose : Apart strongClose :=
  .of_two (by simp [strongClose]) rfl rfl rfl fun c hc d hd => by
    simp only [strongClose, closesStrong, Bool.and_eq_true, beq_iff_eq] at hc
    rw [hc.2] at hd
    exact Or.inl (Option.some.inj hd).symm

theorem apart_emOpen {s : State} (hs : s ≠ .code) : Apart (emOpen s) :=
  .of_one (by simpa [emOpen] using hs) rfl rfl rfl

theorem apart_emClose : Apart emClose := .of_one (by simp [emClose]) rfl rfl rfl

/-- Outside code every state looks for a backtick first. -/
theorem transitions_eq {s : State} (h : s ≠ .code) :
    ∃ trs, (rules s).transitions = codeOpen :: trs ∧ ∀ tr ∈ trs, Apart tr := by
  have hstrong : Apart (strongOpen .strong) := apart_strongOpen (by decide)
  have hem : Apart (emOpen .em) := apart_emOpen (by decide)
  have hstrongInEm : Apart (strongOpen .strongInEm) := apart_strongOpen (by decide)
  have hemInStrong : Apart (emOpen .emInStrong) := apart_emOpen (by decide)
  cases s with
  | code => exact absurd rfl h
  | _ =>
    refine ⟨_, rfl, ?_⟩
    simp [apart_strikeOpen, apart_strikeClose, apart_strongClose, apart_emClose, hstrong, hem,
      hstrongInEm, hemInStrong]

/-- The transition that fires outside code opens code at a backtick, and elsewhere it leads
elsewhere and consumes no backtick. -/
theorem firing_outside {p : Progress State} (h : p.current table ≠ .code) {before after : List Char}
    {ch : Char} {tr : Transition State} (hfire : p.firing table before ch after = some tr) :
    (tr = codeOpen ∧ ch = '\x60') ∨
      (tr.target ≠ .state .code ∧ '\x60' ∉ tr.taken (p.look before ch after)) := by
  obtain ⟨trs, htrs, hapart⟩ := transitions_eq h
  have hrules : (table.rules (p.current table)).transitions = codeOpen :: trs := htrs
  rw [Progress.firing, hrules, List.find?_cons] at hfire
  by_cases hch : ch = '\x60'
  · have hopen : codeOpen.fires (p.look before ch after) = true := beq_iff_eq.2 hch
    rw [hopen] at hfire
    exact Or.inl ⟨(Option.some.inj hfire).symm, hch⟩
  · have hopen : codeOpen.fires (p.look before ch after) = false := beq_eq_false_iff_ne.2 hch
    rw [hopen] at hfire
    have htr := hapart tr (List.mem_of_find?_eq_some hfire)
    have hfires := List.find?_some hfire
    refine Or.inr ⟨htr.target_ne, fun hmem => ?_⟩
    rcases htr.taken _ hfires _ hmem with heq | heq
    · exact hch heq.symm
    · exact absurd heq (by decide)

/-- Inside code only a backtick is looked for. -/
theorem firing_inside {p : Progress State} (h : p.current table = .code) {before after : List Char}
    {ch : Char} {tr : Transition State} (hfire : p.firing table before ch after = some tr) :
    tr = codeClose ∧ ch = '\x60' := by
  have hrules : (table.rules (p.current table)).transitions = [codeClose] := by rw [h]; rfl
  obtain ⟨hmem, hfires⟩ := Progress.firing_spec hfire
  rw [hrules] at hmem
  have htr : tr = codeClose := List.mem_singleton.1 hmem
  rw [htr] at hfires
  exact ⟨htr, beq_iff_eq.1 hfires⟩

/-- A backtick is never kept. -/
theorem ne_tick_of_kept {p : Progress State} {before after : List Char} {ch : Char}
    (h : p.Stalls table before ch after) : ch ≠ '\x60' := by
  rintro rfl
  have hnone : ∀ tr ∈ (table.rules (p.current table)).transitions,
      tr.fires (p.look before '\x60' after) = true → False := by
    intro tr htr hfires
    cases hf : p.firing table before '\x60' after with
    | none => exact absurd hfires (by simpa using List.find?_eq_none.1 hf tr htr)
    | some tr' =>
      have hzero := h tr' hf
      rw [(silent _ tr' (List.mem_of_find?_eq_some hf)).consumes] at hzero
      cases hzero
  by_cases hs : p.current table = .code
  · exact hnone codeClose (by rw [hs]; exact List.mem_singleton_self _) rfl
  · obtain ⟨trs, htrs, -⟩ := transitions_eq hs
    have hrules : (table.rules (p.current table)).transitions = codeOpen :: trs := htrs
    exact hnone codeOpen (by rw [hrules]; exact List.mem_cons_self ..) rfl

/-! ## The scan -/

/-- No region of code is open. -/
def Outside (p : Progress State) : Prop := ∀ f ∈ p.frames, f.1 ≠ .code

/-- Where a scan stands: outside code, or inside code of which the characters `held` were
read, the latest first.  They are the token being collected. -/
def Stands : Option (List Char) → Progress State → Prop
  | none, p => Outside p ∧ ∃ y, p.pending = rewrite escapeChar y
  | some held, p => p.pending = rewrite escapeChar held.reverse ∧ ∃ rs,
      p.regions = { state := .code, pair := none, content := "" } :: rs ∧ ∀ r ∈ rs, r.state ≠ .code

/-- The texts of the tokens of code that a scan has finished, in order. -/
def codeTexts (ks : List (Token State)) : List String :=
  (ks.filter fun k => k.source = .code).map Token.text

/-- A scan has read the text `before`, nearest character first: the texts `ss` stood in
code, and it stands as `held` says. -/
structure Tracks (before : List Char) (ss : List (List Char)) (held : Option (List Char))
    (p : Progress State) : Prop where
  /-- What follows is read from where the scan stands. -/
  parts : ∀ rest, codeParts none (before.reverse ++ rest) = ss ++ codeParts held rest
  /-- What is written has the code spans of the parts that are not empty. -/
  coded : Coded (p.soFar table).toList (ss.filter (· ≠ []))
  /-- Each part was a token. -/
  texts : codeTexts p.finished.reverse = ss.map (rewrite escapeChar)
  stands : Stands held p

theorem Outside.current_ne {p : Progress State} (h : Outside p) : p.current table ≠ .code := by
  unfold Outside Progress.frames at h
  unfold Progress.current
  split
  · decide
  · rename_i r rs hr
    exact h (r.state, r.pair) (by simp [hr])

/-- Characters are escaped in every state. -/
theorem rewritten_eq (s : State) (cs : List Char) :
    Progress.rewritten table s none cs = rewrite escapeChar cs := by
  cases s <;> rfl

/-- Tokens are written as they are. -/
theorem written_eq (k : Token State) : Progress.written table none k = k.text := by
  obtain ⟨text, source, target, before, fresh⟩ := k
  cases source <;> rfl

/-- Keeping a character keeps track. -/
theorem Tracks.keep {before : List Char} {ss : List (List Char)} {held : Option (List Char)}
    {p : Progress State} (h : Tracks before ss held p) {ch : Char} (hch : ch ≠ '\x60') :
    ∃ held', Tracks (ch :: before) ss held' (p.keep table before ch) := by
  have hreverse : ∀ rest, (ch :: before).reverse ++ rest = before.reverse ++ ch :: rest := by simp
  have hcoded : Coded ((p.keep table before ch).soFar table).toList (ss.filter (· ≠ [])) := by
    rw [Progress.keep, Progress.soFar_collect]
    exact h.coded
  have htexts : codeTexts (p.keep table before ch).finished.reverse =
      ss.map (rewrite escapeChar) := by
    rw [Progress.keep, Progress.finished_collect]
    exact h.texts
  have hpending : (p.keep table before ch).pending = p.pending ++ rewrite escapeChar [ch] := by
    rw [Progress.keep, Progress.pending_collect, rewritten_eq]
  have hregions : (p.keep table before ch).regions = p.regions := by
    unfold Progress.keep Progress.collect
    split
    · rfl
    · split <;> rfl
  cases held with
  | none =>
    obtain ⟨hout, y, hy⟩ := h.stands
    refine ⟨none, fun rest => ?_, hcoded, htexts, ?_, y ++ [ch], ?_⟩
    · rw [hreverse, h.parts, codeParts, if_neg hch]
    · rwa [Outside, Progress.frames, hregions]
    · rw [hpending, hy, rewrite_append]
  | some held =>
    obtain ⟨hp, hr⟩ := h.stands
    refine ⟨some (ch :: held), fun rest => ?_, hcoded, htexts, ?_, by rwa [hregions]⟩
    · rw [hreverse, h.parts, codeParts, if_neg hch]
    · rw [hpending, hp, ← rewrite_append, List.reverse_cons]

/-! ### Outside code -/

/-- The texts around a region that is not code are tags of style. -/
theorem madeOf_wrapper {s : State} (h : s ≠ .code) :
    MadeOf OfStyle (rules s).entry.toList ∧ MadeOf OfStyle (rules s).exit.toList := by
  have htags : ∀ name ∈ styleNames, MadeOf OfStyle (Tag.opening name []).source ∧
      MadeOf OfStyle (Tag.closing name).source :=
    fun name hname => ⟨.tag (.opening hname), .tag (.closing hname)⟩
  cases s with
  | code => exact absurd rfl h
  | text => exact ⟨.nil, .nil⟩
  | strike => exact htags "del" (by decide)
  | strong => exact htags "strong" (by decide)
  | em => exact htags "em" (by decide)
  | strongInEm => exact htags "strong" (by decide)
  | emInStrong => exact htags "em" (by decide)

/-- The entry texts that are due outside code are tags of style. -/
theorem madeOf_lead {rs : List (Region State)} (h : ∀ r ∈ rs, r.state ≠ .code) :
    MadeOf OfStyle (table.lead rs).toList := by
  induction rs with
  | nil => exact .nil
  | cons r rs ih =>
    unfold Table.lead
    split
    · rw [String.toList_append]
      exact (ih fun r' hr' => h r' (List.mem_cons_of_mem _ hr')).append
        (madeOf_wrapper (h r (List.mem_cons_self ..))).1
    · exact .nil

theorem Outside.state_ne {p : Progress State} (h : Outside p) : ∀ r ∈ p.regions, r.state ≠ .code :=
  fun r hr => h (r.state, r.pair) (List.mem_map_of_mem hr)

/-- Finishing a token outside code writes no code. -/
theorem Outside.coded_flush {p : Progress State} (h : Outside p) {y : List Char}
    (hy : p.pending = rewrite escapeChar y) {ss : List (List Char)}
    (hc : Coded (p.soFar table).toList ss) (source target : State) :
    Coded ((p.flush table source target none).soFar table).toList ss := by
  rw [Progress.soFar_flush, written_eq]
  show Coded ((p.write p.pending).soFar table).toList ss
  by_cases hempty : p.pending = ""
  · rwa [hempty, Progress.soFar_write_empty]
  · rw [Progress.soFar_write hempty, String.toList_append, String.toList_append,
      List.append_assoc, hy, toList_rewrite_escapeChar]
    exact hc.other ((madeOf_lead h.state_ne).append (madeOf_escaped y))

/-- A finished token of code is the last one. -/
theorem codeTexts_token (p : Progress State) (source target : State) :
    codeTexts (p.token source target :: p.finished).reverse =
      codeTexts p.finished.reverse ++ if source = .code then [p.pending] else [] := by
  rw [List.reverse_cons, codeTexts, List.filter_append, List.map_append]
  by_cases hs : source = .code
  · rw [if_pos hs]
    simp [codeTexts, Progress.token, hs]
  · rw [if_neg hs]
    simp [codeTexts, Progress.token, hs]

/-- The tokens of code that are finished when a transition is followed. -/
theorem codeTexts_follow (p : Progress State) (tr : Transition State) (before : List Char)
    (ch : Char) (cs : List Char) :
    codeTexts (p.follow table tr before ch cs).finished.reverse =
      codeTexts p.finished.reverse ++ if p.current table = .code then [p.pending] else [] := by
  rw [Progress.finished_follow, codeTexts_token]

/-- Following a transition that has nothing to do with code. -/
theorem Tracks.follow_apart {before : List Char} {ss : List (List Char)} {p : Progress State}
    (h : Tracks before ss none p) {tr : Transition State} (hs : Silent tr)
    (htarget : tr.target ≠ .state .code) {ch : Char} {cs : List Char} (hcs : '\x60' ∉ cs) :
    Tracks (cs.reverse ++ before) ss none (p.follow table tr before ch cs) := by
  obtain ⟨hout, y, hy⟩ := h.stands
  have hmoves := hs.follow_induct p before ch cs
    (A := fun q => Outside q ∧ Coded (q.soFar table).toList (ss.filter (· ≠ [])))
    ⟨by simpa [Outside] using hout, hout.coded_flush hy h.coded _ _⟩
    (fun q hq => by
      refine ⟨fun f hf => hq.1 f ?_, ?_⟩
      · rw [Progress.frames_leave] at hf
        exact List.mem_of_mem_tail hf
      · rcases Progress.soFar_leave (t := table) q with heq | ⟨r, hr, heq⟩
        · rw [heq]
          exact hq.2
        · rw [heq, String.toList_append]
          exact hq.2.other (madeOf_wrapper (hq.1.state_ne r hr)).2)
    (fun q s pair hsp hq => by
      refine ⟨List.forall_mem_cons.2 ⟨?_, hq.1⟩, by simpa using hq.2⟩
      rcases hsp with ⟨rfl, -⟩ | ⟨hstate, -⟩
      · exact (by decide : State.text ≠ .code)
      · rintro rfl
        exact htarget hstate)
  refine ⟨fun rest => ?_, hmoves.2, ?_, hmoves.1, [], ?_⟩
  · have hread := h.parts (cs ++ rest)
    rw [codeParts_append hcs] at hread
    simpa using hread
  · rw [codeTexts_follow, if_neg hout.current_ne, List.append_nil]
    exact h.texts
  · rw [hs.pending_follow]
    rfl

/-- Opening code. -/
theorem Tracks.follow_open {before : List Char} {ss : List (List Char)} {p : Progress State}
    (h : Tracks before ss none p) (ch : Char) :
    Tracks ('\x60' :: before) ss (some []) (p.follow table codeOpen before ch ['\x60']) := by
  obtain ⟨hout, y, hy⟩ := h.stands
  have hfollow : p.follow table codeOpen before ch ['\x60'] =
      (p.flush table (p.current table) .code none).enter .code none := rfl
  refine ⟨fun rest => ?_, ?_, ?_, ?_, ?_⟩
  · have hread := h.parts ('\x60' :: rest)
    simpa [codeParts] using hread
  · rw [hfollow, Progress.soFar_enter]
    exact hout.coded_flush hy h.coded _ _
  · rw [codeTexts_follow, if_neg hout.current_ne, List.append_nil]
    exact h.texts
  · rw [Progress.pending_follow]
    rfl
  · refine ⟨(p.flush table (p.current table) .code none).regions, by rw [hfollow]; rfl, ?_⟩
    have hflush : Outside (p.flush table (p.current table) .code none) := by
      simpa [Outside] using hout
    exact hflush.state_ne

/-- Inside code, the state is that of code. -/
theorem Stands.current_eq {held : List Char} {p : Progress State} (h : Stands (some held) p) :
    p.current table = .code := by
  obtain ⟨-, rs, hr, -⟩ := h
  simp [Progress.current, hr]

/-- Leaving code leads outside code. -/
theorem Stands.outside_leave {held : List Char} {p : Progress State} (h : Stands (some held) p)
    (source target : State) : Outside ((p.flush table source target none).leave table) := by
  obtain ⟨-, rs, hr, hrs⟩ := h
  intro f hf
  rw [Progress.frames_leave, Progress.frames_flush, Progress.frames, hr] at hf
  obtain ⟨r, hmem, rfl⟩ := List.mem_map.1 hf
  exact hrs r hmem

/-- Finishing the token of code and leaving its region writes the code span, unless the code
is empty. -/
theorem Stands.coded_leave {held : List Char} {p : Progress State} (h : Stands (some held) p)
    {ss : List (List Char)} (hc : Coded (p.soFar table).toList (ss.filter (· ≠ [])))
    (source target : State) :
    Coded (((p.flush table source target none).leave table).soFar table).toList
      ((ss ++ [held.reverse]).filter (· ≠ [])) := by
  obtain ⟨hp, rs, hr, hrs⟩ := h
  have hleave : ((p.flush table source target none).leave table).soFar table =
      table.openText p.outside rs
        (table.wrap { state := .code, pair := none, content := p.pending }) := by
    have hflush : p.flush table source target none = { p with
        pending := "", before := none, finished := p.token source target :: p.finished,
        regions := { state := .code, pair := none, content := p.pending } :: rs } := by
      rw [Progress.flush, written_eq]
      simp [Progress.write, hr, Progress.token]
    rw [hflush, Progress.leave]
    exact Progress.soFar_write_eq _ _
  have hbefore : p.soFar table = table.openText p.outside rs "" := by
    simp [Progress.soFar, hr, Table.openText]
  rw [hleave]
  by_cases hempty : held.reverse = []
  · have hpending : p.pending = "" := by rw [hp, hempty]; rfl
    have hwrap : table.wrap { state := .code, pair := none, content := p.pending } = "" :=
      if_pos hpending
    rw [hwrap, ← hbefore, List.filter_append, hempty]
    simpa using hc
  · have hpending : p.pending ≠ "" := by rwa [hp, ne_eq, rewrite_eq_empty]
    have hwrap : table.wrap { state := .code, pair := none, content := p.pending } =
        "<code>" ++ p.pending ++ "</code>" := if_neg hpending
    have hspan : ("<code>" ++ p.pending ++ "</code>").toList = codeSpan held.reverse := by
      rw [String.toList_append, String.toList_append, hp, toList_rewrite_escapeChar]
      rfl
    have hne : "<code>" ++ p.pending ++ "</code>" ≠ "" := by
      simp [String.append_eq_empty_iff]
    rw [hwrap, table.openText_eq _ _ hne, ← hbefore, String.toList_append, String.toList_append,
      hspan, List.filter_append]
    simpa [hempty] using (hc.other (madeOf_lead hrs)).span held.reverse

/-- Closing code. -/
theorem Tracks.follow_close {before : List Char} {ss : List (List Char)} {held : List Char}
    {p : Progress State} (h : Tracks before ss (some held) p) (ch : Char) :
    Tracks ('\x60' :: before) (ss ++ [held.reverse]) none
      (p.follow table codeClose before ch ['\x60']) := by
  have hcurrent := h.stands.current_eq
  have hfollow : p.follow table codeClose before ch ['\x60'] =
      ((p.flush table (p.current table) (p.destination table .pop) none).leave table).reenter
        table := rfl
  refine ⟨fun rest => ?_, ?_, ?_, ?_, [], ?_⟩
  · have hread := h.parts ('\x60' :: rest)
    simpa [codeParts] using hread
  · rw [hfollow, Progress.soFar_reenter]
    exact h.stands.coded_leave h.coded _ _
  · rw [codeTexts_follow, if_pos hcurrent, h.texts, h.stands.1, List.map_append]
    rfl
  · rw [hfollow]
    have hleave := h.stands.outside_leave (p.current table) (p.destination table .pop)
    unfold Progress.reenter
    split
    · exact List.forall_mem_cons.2 ⟨(by decide : State.text ≠ .code), hleave⟩
    · exact hleave
  · rw [Progress.pending_follow]
    rfl

/-- Following a transition that fires keeps track. -/
theorem Tracks.follow {before after : List Char} {ss : List (List Char)}
    {held : Option (List Char)} {p : Progress State} (h : Tracks before ss held p) {ch : Char}
    {tr : Transition State} (hfire : p.firing table before ch after = some tr) :
    ∃ ss' held', Tracks ((tr.taken (p.look before ch after)).reverse ++ before) ss' held'
      (p.follow table tr before ch (tr.taken (p.look before ch after))) := by
  cases held with
  | none =>
    have hsilent := silent _ tr (List.mem_of_find?_eq_some hfire)
    rcases firing_outside h.stands.1.current_ne hfire with ⟨rfl, rfl⟩ | ⟨htarget, htaken⟩
    · exact ⟨_, _, h.follow_open '\x60'⟩
    · exact ⟨_, _, h.follow_apart hsilent htarget htaken⟩
  | some held =>
    obtain ⟨rfl, rfl⟩ := firing_inside h.stands.current_eq hfire
    exact ⟨_, _, h.follow_close '\x60'⟩

/-- A line is tracked to its end. -/
theorem exists_tracks (text : String) : ∃ ss held,
    Tracks text.toList.reverse ss held (table.start.scan table [] text.toList 0) := by
  have hstart : Tracks [] [] none table.start := by
    refine ⟨fun _ => rfl, ?_, rfl, ?_, [], rfl⟩
    · rw [Table.start, Progress.soFar_enter]
      exact .nil
    · exact List.forall_mem_cons.2 ⟨(by decide : State.text ≠ .code), by simp⟩
  have hscan := Progress.scan_reads (t := table)
    (I := fun before p => ∃ ss held, Tracks before ss held p) ?keep ?follow
    [] text.toList 0 ⟨[], none, hstart⟩
  · simpa using hscan
  case keep =>
    rintro before ch after p hkept ⟨ss, held, hp⟩
    exact ⟨ss, hp.keep (ne_tick_of_kept hkept)⟩
  case follow =>
    rintro before ch after p tr hfire ⟨ss, held, hp⟩
    exact hp.follow hfire

/-- Closing what is open outside code writes no code. -/
theorem Outside.coded_close {p : Progress State} (h : Outside p) {ss : List (List Char)}
    (hc : Coded (p.soFar table).toList ss) :
    Coded (Progress.close table p.outside p.regions "").toList ss := by
  refine Progress.close_of_soFar (M := fun m => Coded m.toList ss) (fun f hf m hm => ?_) hc
  rw [String.toList_append]
  exact hm.other (madeOf_wrapper (h f hf)).2

/-- **The scan writes code as it stands in the text.**  Its code spans hold the parts of the
text between backticks that are not empty, in order, and these parts are the tokens that it
collects in code. -/
theorem coded_run (text : String) :
    Coded (table.run text).toList ((codeParts none text.toList).filter (· ≠ [])) ∧
      codeTexts (table.tokens text) = (codeParts none text.toList).map (rewrite escapeChar) := by
  obtain ⟨ss, held, h⟩ := exists_tracks text
  generalize hp : table.start.scan table [] text.toList 0 = p at h
  have hfinish : table.finish text = p.flush table (p.current table) .text none := by
    rw [← hp]
    rfl
  have hparts : codeParts none text.toList = ss ++ codeParts held [] := by
    simpa using h.parts []
  have htokens : codeTexts (table.tokens text) = codeTexts p.finished.reverse ++
      if p.current table = .code then [p.pending] else [] := by
    rw [Table.tokens, hfinish, Progress.finished_flush, codeTexts_token]
  have hrun : table.run text = Progress.close table
      (p.flush table (p.current table) .text none).outside
      (p.flush table (p.current table) .text none).regions "" := by
    rw [← hfinish]
    rfl
  rw [htokens, hrun, hparts, h.texts]
  cases held with
  | none =>
    obtain ⟨hout, y, hy⟩ := h.stands
    have hflush : Outside (p.flush table (p.current table) .text none) := by
      simpa [Outside] using hout
    rw [if_neg hout.current_ne, codeParts, List.append_nil, List.append_nil]
    exact ⟨hflush.coded_close (hout.coded_flush hy h.coded _ _), rfl⟩
  | some held =>
    obtain ⟨hpending, rs, hr, -⟩ := h.stands
    -- code that is never closed is closed at the end
    have hopen : (p.flush table (p.current table) .text none).regions ≠ [] := by
      intro hnil
      have hframes : (p.flush table (p.current table) .text none).frames = p.frames :=
        Progress.frames_flush ..
      simp [Progress.frames, hnil, hr] at hframes
    have hleave := h.stands.outside_leave (p.current table) .text
    rw [Progress.close_eq_close_leave hopen, if_pos h.stands.current_eq, hpending, codeParts]
    exact ⟨hleave.coded_close (h.stands.coded_leave h.coded _ _), by rw [List.map_append]; rfl⟩

end Inline
end Markup
end AnswerStream
