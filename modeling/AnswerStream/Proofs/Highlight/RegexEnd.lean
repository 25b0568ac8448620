import AnswerStream.Proofs.Highlight.Rules
import AnswerStream.Proofs.Scan.Steps

/-!
# Where a regular expression ends

A slash opens a regular expression only if `slashFollows` has found an unescaped slash before the
end of the line.  It looks ahead with its own reading of backslashes, while the scan reads the same
characters again, one or two at a time, in the state `regex`.  The two agree: a regular expression
ends at the slash that was found (`regex_ends_at_slash`).

An escape is defined here without either of them.  A character is escaped if an odd number of
backslashes stands directly before it (`Escapes`).  What the look-ahead reads is a `Body`, made of
plain characters and of escaped pairs, and the parity comes out even after each of these.

## What a run knows about its only region

The rules for code open no region inside another, so exactly one is open all the time.  While it is
a regular expression, a slash follows on the line (`Expects`).  This is the invariant of the
steps: it holds when the region is opened because `opensRegex` says so, and both the plain
characters and the pairs hand it on.  With it neither a newline nor the end of the text can be
reached.
-/

namespace AnswerStream
namespace Highlight
namespace Expression

open Text Scan

/-! ## Escapes -/

/-- Whether a character after `cs` is escaped: an odd number of backslashes stands directly before
it. -/
def Escapes (cs : List Char) : Prop := (cs.reverse.takeWhile (· == '\\')).length % 2 = 1

instance : DecidablePred Escapes := fun cs =>
  inferInstanceAs (Decidable ((cs.reverse.takeWhile (· == '\\')).length % 2 = 1))

theorem not_escapes_nil : ¬ Escapes [] := by decide

/-- Only a backslash escapes, and only one that is not escaped itself. -/
theorem escapes_concat (cs : List Char) (c : Char) :
    Escapes (cs ++ [c]) ↔ c = '\\' ∧ ¬ Escapes cs := by
  unfold Escapes
  rw [List.reverse_append, List.reverse_singleton, List.singleton_append, List.takeWhile_cons]
  by_cases hc : c = '\\'
  · rw [if_pos (beq_iff_eq.2 hc), List.length_cons]
    simp only [hc, true_and]
    omega
  · rw [if_neg (by simpa using hc)]
    simp [hc]

theorem not_escapes_char {c : Char} (hc : c ≠ '\\') (cs : List Char) : ¬ Escapes (cs ++ [c]) :=
  fun h => hc ((escapes_concat cs c).1 h).1

theorem escapes_backslash {cs : List Char} (h : ¬ Escapes cs) : Escapes (cs ++ ['\\']) :=
  (escapes_concat cs '\\').2 ⟨rfl, h⟩

/-- A backslash and the character that it escapes leave no escape open. -/
theorem not_escapes_pair {cs : List Char} (h : ¬ Escapes cs) (c : Char) :
    ¬ Escapes (cs ++ ['\\'] ++ [c]) :=
  fun hc => ((escapes_concat _ c).1 hc).2 (escapes_backslash h)

/-- The text before the first unescaped slash, which stands on the same line. -/
structure UpToSlash (body : List Char) : Prop where
  /-- There is no newline in it. -/
  line : '\n' ∉ body
  /-- The slash after it is not escaped. -/
  unescaped : ¬ Escapes body
  /-- Every slash in it is. -/
  first : ∀ xs ys, body = xs ++ '/' :: ys → Escapes xs

/-- What stands between the slashes of a regular expression. -/
inductive Body : List Char → Prop
  | nil : Body []
  /-- A character that stands for itself. -/
  | char {c : Char} {cs : List Char} (hesc : c ≠ '\\') (hslash : c ≠ '/') (hline : c ≠ '\n')
      (h : Body cs) : Body (c :: cs)
  /-- A backslash and the character that it escapes. -/
  | pair {c : Char} {cs : List Char} (hline : c ≠ '\n') (h : Body cs) : Body ('\\' :: c :: cs)

/-- The look-ahead finds the slash after a body. -/
theorem exists_body {cs : List Char} (h : slashFollows cs = true) :
    ∃ body rest, cs = body ++ '/' :: rest ∧ Body body := by
  induction cs using slashFollows.induct with
  | case1 | case2 | case4 | case5 => cases h
  | case3 rest => exact ⟨[], rest, rfl, .nil⟩
  | case6 c cs hline ih =>
    rw [slashFollows] at h
    · obtain ⟨body, rest, rfl, hbody⟩ := ih h
      exact ⟨'\\' :: c :: body, rest, rfl, .pair hline hbody⟩
    · exact hline
  | case7 c cs hline hslash hend hcut hescape ih =>
    have hesc : c ≠ '\\' := by
      intro hc
      cases cs with
      | nil => exact hend hc rfl
      | cons d cs => exact hescape d cs hc rfl
    rw [slashFollows] at h
    · obtain ⟨body, rest, rfl, hbody⟩ := ih h
      exact ⟨c :: body, rest, rfl, .char hesc hslash hline hbody⟩
    · exact hline
    · exact hslash
    · exact fun hc _ => hesc hc
    · exact fun _ hc _ => hesc hc
    · exact fun _ _ hc _ => hesc hc

namespace Body

variable {body : List Char}

theorem newline_not_mem (h : Body body) : '\n' ∉ body := by
  induction h with
  | nil => exact List.not_mem_nil
  | char _ _ hline _ ih => simp [hline.symm, ih]
  | pair hline _ ih => simp [hline.symm, ih]

/-- No escape is left open by a body. -/
theorem not_escapes_append (h : Body body) {us : List Char} (hus : ¬ Escapes us) :
    ¬ Escapes (us ++ body) := by
  induction h generalizing us with
  | nil => rwa [List.append_nil]
  | char hesc _ _ _ ih =>
    rw [List.append_cons]
    exact ih (not_escapes_char hesc us)
  | pair _ _ ih =>
    rw [List.append_cons, List.append_cons]
    exact ih (not_escapes_pair hus _)

/-- A slash in a body is escaped. -/
theorem escapes_of_eq (h : Body body) {us xs ys : List Char} (hus : ¬ Escapes us)
    (heq : body = xs ++ '/' :: ys) : Escapes (us ++ xs) := by
  induction h generalizing us xs with
  | nil => simp at heq
  | char hesc hslash _ _ ih =>
    cases xs with
    | nil => exact absurd (List.cons.inj heq).1 hslash
    | cons x xs =>
      rw [List.cons_append, List.cons.injEq] at heq
      obtain ⟨rfl, heq⟩ := heq
      rw [List.append_cons]
      exact ih (not_escapes_char hesc us) heq
  | pair _ _ ih =>
    rcases xs with _ | ⟨x, _ | ⟨y, xs⟩⟩
    · simp at heq
    · obtain ⟨rfl, -⟩ := List.cons.inj heq
      exact escapes_backslash hus
    · simp only [List.cons_append, List.cons.injEq] at heq
      obtain ⟨rfl, rfl, heq⟩ := heq
      rw [List.append_cons, List.append_cons]
      exact ih (not_escapes_pair hus _) heq

theorem upToSlash (h : Body body) : UpToSlash body where
  line := h.newline_not_mem
  unescaped := h.not_escapes_append not_escapes_nil
  first _ _ heq := h.escapes_of_eq not_escapes_nil heq

end Body

/-! ## The only region -/

variable {p : Profile} {name : String} {s s' : Stage State}

/-- A region of a regular expression is open, at whatever depth. -/
def InRegex (s : Stage State) : Prop := ∃ f ∈ s.scan.frames, f.1 = .regex

/-- One region is open, and if it is a regular expression, its end lies ahead. -/
def Expects (s : Stage State) : Prop :=
  ∃ f, s.scan.frames = [f] ∧
    (f.1 = .regex → ∃ body rest, s.text = body ++ '/' :: rest ∧ Body body)

variable (p name) in
theorem current_of_frames {q : Progress State} {f : State × Option Char} (h : q.frames = [f]) :
    q.current (table p name) = f.1 := by
  rw [Progress.current_eq, h]
  rfl

theorem inRegex_iff {f : State × Option Char} (h : s.scan.frames = [f]) :
    InRegex s ↔ f.1 = .regex := by
  simp [InRegex, h]

/-- A rule that fires belongs to the state of the only region. -/
theorem isRule_of_firing {q : Progress State} {f : State × Option Char} (hf : q.frames = [f])
    {before after : List Char} {ch : Char} {tr : Transition State}
    (hfire : q.firing (table p name) before ch after = some tr) :
    IsRule p f.1 tr ∧ tr.fires (q.look before ch after) = true := by
  obtain ⟨hmem, hfires⟩ := Progress.firing_spec hfire
  rw [current_of_frames p name hf] at hmem
  exact ⟨isRule_of_mem hmem, hfires⟩

/-! ## Inside a regular expression -/

section

variable (p name) {pair : Option Char} {cs : List Char}

/-- A plain character joins the token. -/
theorem next_char (hf : s.scan.frames = [(.regex, pair)]) {c : Char} (htext : s.text = c :: cs)
    (hesc : c ≠ '\\') (hslash : c ≠ '/') (hline : c ≠ '\n') :
    s.scan.firing (table p name) s.before c cs = none ∧
      s.next (table p name) = some (s.kept (table p name) c cs) := by
  have hfire := firing_of_regex (current_of_frames p name hf) s.before cs c
  rw [if_neg hesc, if_neg hslash, if_neg hline] at hfire
  exact ⟨hfire, Stage.next_of_none htext hfire⟩

/-- A backslash takes the next character along. -/
theorem next_pair (hf : s.scan.frames = [(.regex, pair)]) {c : Char}
    (htext : s.text = '\\' :: c :: cs) :
    s.scan.firing (table p name) s.before '\\' (c :: cs) = some escapedPair ∧
      s.next (table p name) = some (s.taken (table p name) escapedPair '\\' (c :: cs)) := by
  have hfire := firing_of_regex (current_of_frames p name hf) s.before (c :: cs) '\\'
  rw [if_pos rfl] at hfire
  exact ⟨hfire, Stage.next_of_take htext hfire rfl⟩

/-- The rule by which a slash ends a regular expression. -/
def slashEnd : Transition State where
  target := .pop
  fires c := c.ch == '/'

/-- A slash ends it. -/
theorem next_slash (hf : s.scan.frames = [(.regex, pair)]) (htext : s.text = '/' :: cs) :
    s.scan.firing (table p name) s.before '/' cs = some slashEnd ∧
      s.next (table p name) = some (s.taken (table p name) slashEnd '/' cs) := by
  have hfire := firing_of_regex (current_of_frames p name hf) s.before cs '/'
  rw [if_neg (by decide), if_pos rfl] at hfire
  exact ⟨hfire, Stage.next_of_take htext hfire rfl⟩

theorem frames_kept (c : Char) (cs : List Char) :
    (s.kept (table p name) c cs).scan.frames = s.scan.frames := by
  rw [Stage.kept, Progress.keep, Progress.frames_collect]

theorem frames_taken (tr : Transition State) (c : Char) (cs : List Char) :
    (s.taken (table p name) tr c cs).scan.frames =
      Progress.framesAfter (table p name) tr c s.scan.frames :=
  Progress.frames_follow _ _ _ _ _

theorem frames_escapedPair {f : State × Option Char} (hf : s.scan.frames = [f]) (c : Char)
    (cs : List Char) : (s.taken (table p name) escapedPair c cs).scan.frames = [f] := by
  rw [frames_taken, hf]
  rfl

theorem frames_slashEnd {f : State × Option Char} (hf : s.scan.frames = [f]) (cs : List Char) :
    (s.taken (table p name) slashEnd '/' cs).scan.frames = [(.normal, none)] := by
  rw [frames_taken, hf]
  rfl

end

/-! ## The invariant -/

/-- A step outside regular expressions stays outside, or opens one at a slash whose end was
found. -/
theorem step_outside {f : State × Option Char} (hf : s.scan.frames = [f]) (hout : f.1 ≠ .regex)
    (hnext : s.next (table p name) = some s') :
    (∃ g, s'.scan.frames = [g] ∧ g.1 ≠ .regex) ∨
    (∃ after, s.text = '/' :: after ∧ slashFollows after = true ∧ s'.before = '/' :: s.before ∧
      s'.text = after ∧ s'.scan.frames = [(.regex, none)]) := by
  cases Stage.step_of_next hnext with
  | keep => exact Or.inl ⟨f, (frames_kept p name _ _).trans hf, hout⟩
  | hop _ hfire hz _ =>
    rw [(isRule_of_firing hf hfire).1.zeroWidth_eq] at hz
    cases hz
  | @take ch after tr htext hfire _ =>
    obtain ⟨hrule, hfires⟩ := isRule_of_firing hf hfire
    have hframes := frames_taken p name tr ch after (s := s)
    rw [hf, Progress.framesAfter] at hframes
    cases htarget : tr.target with
    | stay =>
      rw [htarget] at hframes
      exact Or.inl ⟨f, hframes, hout⟩
    | pop =>
      rw [htarget] at hframes
      exact Or.inl ⟨(.normal, none), hframes, by decide⟩
    | state st =>
      rw [htarget, hrule.nested_eq] at hframes
      by_cases hst : st = .regex
      · subst hst
        obtain rfl := hrule.opens_regex htarget
        simp only [opensRegex, Bool.and_eq_true, beq_iff_eq] at hfires
        obtain rfl : ch = '/' := hfires.1.1.1
        exact Or.inr ⟨after, htext, hfires.2, rfl, rfl, hframes⟩
      · exact Or.inl ⟨_, hframes, hst⟩

theorem expects_first (text : String) : Expects ((table p name).first text) :=
  ⟨(.normal, none), rfl, fun h => by cases h⟩

/-- Every step hands on that the end of a regular expression lies ahead. -/
theorem Expects.next (h : Expects s) (hnext : s.next (table p name) = some s') : Expects s' := by
  obtain ⟨⟨st, pair⟩, hf, hahead⟩ := h
  by_cases hregex : st = .regex
  · subst hregex
    obtain ⟨body, rest, htext, hbody⟩ := hahead rfl
    cases hbody with
    | nil =>
      rw [(next_slash p name hf htext).2, Option.some.injEq] at hnext
      subst hnext
      exact ⟨_, frames_slashEnd p name hf rest, fun hregex => by cases hregex⟩
    | @char c cs hesc hslash hline hcs =>
      rw [(next_char p name hf htext hesc hslash hline).2, Option.some.injEq] at hnext
      subst hnext
      exact ⟨_, (frames_kept p name _ _).trans hf, fun _ => ⟨cs, rest, rfl, hcs⟩⟩
    | @pair c cs hline hcs =>
      rw [(next_pair p name hf htext).2, Option.some.injEq] at hnext
      subst hnext
      exact ⟨_, frames_escapedPair p name hf _ _, fun _ => ⟨cs, rest, rfl, hcs⟩⟩
  · obtain ⟨g, hg, hout⟩ | ⟨after, -, hfollows, -, rfl, hg⟩ := step_outside hf hregex hnext
    · exact ⟨g, hg, fun h => absurd h hout⟩
    · exact ⟨_, hg, fun _ => exists_body hfollows⟩

variable (p name) in
/-- A body is read to its end in one region. -/
theorem exists_within {body : List Char} (h : Body body) {pair : Option Char} {rest : List Char}
    (hf : s.scan.frames = [(.regex, pair)]) (htext : s.text = body ++ '/' :: rest) :
    ∃ e, Stage.Within (table p name) s e ∧ e.before = body.reverse ++ s.before ∧
      e.text = '/' :: rest ∧ e.scan.frames = [(.regex, pair)] := by
  induction h generalizing s with
  | nil => exact ⟨s, .refl s, rfl, htext, hf⟩
  | char hesc hslash hline _ ih =>
    obtain ⟨hfire, hnext⟩ := next_char p name hf htext hesc hslash hline
    obtain ⟨e, hwithin, hbefore, hrest, hframes⟩ := ih ((frames_kept p name _ _).trans hf) rfl
    refine ⟨e, .step hnext ?_ hwithin, ?_, hrest, hframes⟩
    · intro ch after tr htext' hfire'
      obtain ⟨rfl, rfl⟩ := List.cons.inj (htext.symm.trans htext')
      exact absurd (hfire.symm.trans hfire') (by simp)
    · simp [hbefore, Stage.kept]
  | @pair c cs _ _ ih =>
    obtain ⟨hfire, hnext⟩ := next_pair p name hf htext
    obtain ⟨e, hwithin, hbefore, hrest, hframes⟩ :=
      ih (frames_escapedPair p name hf '\\' (c :: (cs ++ '/' :: rest))) rfl
    refine ⟨e, .step hnext ?_ hwithin, ?_, hrest, hframes⟩
    · intro ch after tr htext' hfire'
      obtain ⟨rfl, rfl⟩ := List.cons.inj (htext.symm.trans htext')
      obtain rfl := Option.some.inj (hfire.symm.trans hfire')
      rfl
    · simp [hbefore, Stage.taken, Stage.more, escapedPair, Transition.reach]

/-- A regular expression is opened at a slash, and its end lies ahead. -/
theorem Expects.opened (h : Expects s) (hnext : s.next (table p name) = some s')
    (hout : ¬ InRegex s) (hin : InRegex s') :
    ∃ body rest, s.text = '/' :: (body ++ '/' :: rest) ∧ Body body ∧
      s'.before = '/' :: s.before ∧ s'.text = body ++ '/' :: rest ∧
      s'.scan.frames = [(.regex, none)] := by
  obtain ⟨f, hf, -⟩ := h
  rw [inRegex_iff hf] at hout
  obtain ⟨g, hg, hg'⟩ | ⟨after, htext, hfollows, hbefore, htext', hframes⟩ :=
    step_outside hf hout hnext
  · exact absurd ((inRegex_iff hg).1 hin) hg'
  · obtain ⟨body, rest, rfl, hbody⟩ := exists_body hfollows
    exact ⟨body, rest, htext, hbody, hbefore, htext', hframes⟩

/-! ## Regular expressions in a run -/

/-- The regular expression that is opened by the step from `s` to `s'` is `body`, and the slash
after it closes it between the stages `e` and `e'`. -/
structure ClosedBySlash (p : Profile) (name : String) (s s' : Stage State) (body rest : List Char)
    (e e' : Stage State) : Prop where
  /-- It stands between slashes. -/
  text_eq : s.text = '/' :: (body ++ '/' :: rest)
  /-- The second one is the first that is not escaped, and is on the same line. -/
  upToSlash : UpToSlash body
  /-- It is open until there. -/
  within : Stage.Within (table p name) s' e
  inRegex : InRegex e
  before_eq : e.before = ('/' :: body).reverse ++ s.before
  rest_eq : e.text = '/' :: rest
  /-- What closes it is the rule for slashes. -/
  firing_eq : e.scan.firing (table p name) e.before '/' rest = some slashEnd
  next_eq : e.next (table p name) = some e'
  /-- It is open no more. -/
  closed : ¬ InRegex e'
  after_eq : e'.text = rest

/-- **A regular expression ends at the slash that was found.**  Every regular expression that a
run opens is closed by the first unescaped slash after the opening one, which stands on the same
line.  A run that is inside one has neither a newline nor the end of the text before it, and none is
open when the text ends. -/
theorem regex_ends_at_slash (p : Profile) (name text : String) :
    (∀ s s', (table p name).Passes text s → s.next (table p name) = some s' → ¬ InRegex s →
      InRegex s' → ∃ body rest e e', ClosedBySlash p name s s' body rest e e') ∧
    (∀ s, (table p name).Passes text s → InRegex s → ∃ c cs, s.text = c :: cs ∧ c ≠ '\n') ∧
    ∀ f ∈ ((table p name).finish text).frames, f.1 ≠ .regex := by
  have hpasses : ∀ {s}, (table p name).Passes text s → Expects s := fun h =>
    h.induct (expects_first text) fun _ _ hnext hs => hs.next hnext
  have hahead : ∀ s, (table p name).Passes text s → InRegex s →
      ∃ c cs, s.text = c :: cs ∧ c ≠ '\n' := by
    intro s hs hin
    obtain ⟨f, hf, hahead⟩ := hpasses hs
    obtain ⟨body, rest, htext, hbody⟩ := hahead ((inRegex_iff hf).1 hin)
    cases hbody with
    | nil => exact ⟨'/', rest, htext, by decide⟩
    | char _ _ hline _ => exact ⟨_, _, htext, hline⟩
    | pair _ _ => exact ⟨'\\', _, htext, by decide⟩
  refine ⟨fun s s' hs hnext hout hin => ?_, hahead, fun f hf hregex => ?_⟩
  · obtain ⟨body, rest, htext, hbody, hbefore, htext', hf⟩ :=
      (hpasses hs).opened hnext hout hin
    obtain ⟨e, hwithin, hbefore', hrest, hfe⟩ := exists_within p name hbody hf htext'
    obtain ⟨hfire, hend⟩ := next_slash p name hfe hrest
    refine ⟨body, rest, e, _, htext, hbody.upToSlash, hwithin, (inRegex_iff hfe).2 rfl, ?_, hrest,
      hfire, hend, ?_, rfl⟩
    · rw [hbefore', hbefore, List.reverse_cons, List.append_assoc, List.singleton_append]
    · rw [inRegex_iff (frames_slashEnd p name hfe rest)]
      decide
  · obtain ⟨n, hn⟩ := (table p name).exists_stage?_last text
    rw [Table.finish, Progress.frames_flush] at hf
    obtain ⟨c, cs, hnil, -⟩ := hahead _ ⟨n, hn⟩ ⟨f, hf, hregex⟩
    cases hnil

/-- The slash after a backslash does not end a regular expression. -/
theorem regex_ends_at_slash_escaped :
    ∃ s s', (table { keywords := [], regexLiterals := true } "").Passes "/\\//" s ∧
      s.next (table { keywords := [], regexLiterals := true } "") = some s' ∧ ¬ InRegex s ∧
      InRegex s' ∧ ∃ body rest e e',
        ClosedBySlash { keywords := [], regexLiterals := true } "" s s' body rest e e' := by
  refine ⟨_, _, ⟨0, rfl⟩, rfl, ?hout, ?hin, ?closed⟩
  case hout => rw [inRegex_iff rfl]; decide
  case hin => rw [inRegex_iff rfl]
  case closed =>
    refine (regex_ends_at_slash _ "" "/\\//").1 _ _ ⟨0, rfl⟩ rfl ?_ ?_
    · rw [inRegex_iff rfl]; decide
    · rw [inRegex_iff rfl]

end Expression
end Highlight
end AnswerStream
