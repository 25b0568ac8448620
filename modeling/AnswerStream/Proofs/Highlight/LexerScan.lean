import AnswerStream.Proofs.Highlight.Lexer
import AnswerStream.Proofs.Highlight.Rules
import AnswerStream.Proofs.Scan.Remaining

/-!
# Where a scan of code is

A scan of the table for code is either outside every construct, with a word under way
(`Outside`), or inside one (`Inside`).  Each transition of the table moves it from one of
these places to another, and writes what the place says that it writes.

What fires is said once for each place.  Outside constructs it is what the lexer looks for
(`Outside.firing`), so a construct begins where the lexer says (`Outside.exists_firing`).
-/

namespace AnswerStream
namespace Highlight
namespace Expression

open Text Scan

variable (p : Profile) (name : String)

/-! ## The table -/

namespace Construct

/-- The state of a scan inside a construct. -/
def state : Construct → State
  | lineComment => .lineComment
  | blockComment _ => .blockComment
  | string _ => .string
  | regex => .regex

/-- The delimiter that a scan inside a construct remembers. -/
def pair : Construct → Option Char
  | string quote => some quote
  | _ => none

end Construct

/-- Every state writes characters alike. -/
theorem rewritten_eq (s : State) (cs : List Char) :
    Progress.rewritten (table p name) s none cs = rewrite escapeChar cs := by
  cases s <;> rfl

/-- The text of a construct is marked. -/
theorem wrap_construct (k : Construct) (pair : Option Char) {content : String}
    (h : content ≠ "") :
    (table p name).wrap { state := k.state, pair, content } = k.role.mark content := by
  rw [Table.wrap, if_neg h]
  cases k <;> rfl

/-- Code outside constructs has no mark of its own. -/
theorem wrap_normal (pair : Option Char) (content : String) :
    (table p name).wrap { state := .normal, pair, content } = content := by
  by_cases h : content = "" <;> simp [Table.wrap, table, rules, h]

/-- Inside a construct, a token is written as it is. -/
theorem written_construct (k : Construct) {tok : Token State} (h : tok.source = k.state) :
    Progress.written (table p name) none tok = tok.text := by
  cases k <;> simp [Progress.written, h, table, rules, Rules.span, Construct.state]

/-- Outside constructs, a token is a word. -/
theorem written_normal {tok : Token State} (h : tok.source = .normal) :
    Progress.written (table p name) none tok =
      classify (keywords p) p.caseInsensitive tok.before tok.text := by
  simp [Progress.written, h, table, rules]

/-- A word character is written as it is. -/
theorem escapeChar_wordChar {c : Char} (h : isWordChar c = true) :
    escapeChar c = String.singleton c := by
  have hne : ∀ d, isWordChar d = false → c ≠ d := by
    rintro d hd rfl
    simp [hd] at h
  have hamp := hne '&' (by decide)
  have hlt := hne '<' (by decide)
  have hgt := hne '>' (by decide)
  simp [escapeChar, hamp, hlt, hgt]

theorem append_rewrite_cons (content held : String) (c : Char) (cs : List Char) :
    content ++ held ++ rewrite escapeChar (c :: cs) =
      content ++ (held ++ escapeChar c) ++ rewrite escapeChar cs := by
  simp only [rewrite_cons, String.append_assoc]

/-! ## Where a scan is -/

/-- The scan `q` is outside every construct.  It has written `out`, and the word under way is
`word`, before which `prev` stands. -/
structure Outside (out word : String) (prev : Option Char) (q : Progress State) : Prop where
  /-- One region is open. -/
  regions : ∃ content, q.regions = [{ state := .normal, pair := none, content }] ∧
    q.outside ++ content = out
  /-- The word under way. -/
  pending : q.pending = word
  /-- The character before it. -/
  before : word ≠ "" → q.before = prev

/-- The scan `q` is inside the construct `k`, before which it has written `out`.  Of the
construct it has written `content` and holds `held`. -/
structure Inside (k : Construct) (out content held : String) (q : Progress State) : Prop where
  /-- One region is open. -/
  regions : q.regions = [{ state := k.state, pair := k.pair, content }]
  /-- The text before it. -/
  outside : q.outside = out
  /-- At least its opening is written. -/
  content_ne : content ≠ ""
  /-- The text that is not yet written. -/
  pending : q.pending = held

variable {p name} {out word content held : String} {prev : Option Char} {k : Construct}
variable {q : Progress State}

namespace Outside

theorem start : Outside "" "" none (table p name).start :=
  ⟨⟨"", rfl, rfl⟩, rfl, fun h => absurd rfl h⟩

/-- There is a scan that is outside after any text. -/
theorem exists_of_out (out : String) : ∃ q, Outside out "" none q :=
  ⟨{ regions := [{ state := .normal, pair := none, content := out }] },
    ⟨out, rfl, String.empty_append⟩, rfl, fun h => absurd rfl h⟩

theorem current (h : Outside out word prev q) : q.current (table p name) = .normal := by
  obtain ⟨content, hregions, -⟩ := h.regions
  rw [Progress.current, hregions]

/-- The word under way, marked for what it is. -/
theorem written (h : Outside out word prev q) (target : State) :
    Progress.written (table p name) none (q.token .normal target) =
      classify (keywords p) p.caseInsensitive prev word := by
  rw [written_normal p name rfl]
  by_cases hword : word = ""
  · simp [Progress.token, h.pending, hword]
  · simp [Progress.token, h.pending, h.before hword]

/-- At the end of the text, the word is the last that is written. -/
theorem complete (h : Outside out word prev q) :
    q.complete (table p name) = out ++ classify (keywords p) p.caseInsensitive prev word := by
  obtain ⟨content, hregions, hout⟩ := h.regions
  rw [Progress.complete, h.current]
  simp only [Progress.flush, h.written, Progress.write, hregions, Progress.close,
    String.append_empty, wrap_normal]
  rw [← String.append_assoc, hout]

variable (p name) in
/-- A word goes on with a word character. -/
theorem keep (h : Outside out word prev q) (before : List Char) {c : Char}
    (hc : isWordChar c = true) :
    Outside out (word ++ String.singleton c) (if word = "" then before.head? else prev)
      (q.keep (table p name) before c) := by
  have hne : String.singleton c ≠ "" := by simp
  rw [Progress.keep, h.current, rewritten_eq, rewrite_singleton, escapeChar_wordChar hc,
    Progress.collect, if_neg hne]
  by_cases hword : word = ""
  · rw [if_pos (h.pending.trans hword), if_pos hword, hword]
    exact ⟨h.regions, (String.empty_append).symm, fun _ => rfl⟩
  · rw [if_neg hword, if_neg (by rwa [h.pending])]
    exact ⟨h.regions, by rw [h.pending], fun _ => h.before hword⟩

variable (p name) in
/-- A character that is no part of a word ends it. -/
theorem follow_stay (h : Outside out word prev q) (before : List Char) (c : Char) :
    Outside (out ++ classify (keywords p) p.caseInsensitive prev word ++ escapeChar c) "" none
      (q.follow (table p name) { target := .stay, fires := fun x => !isWordChar x.ch } before c
        [c]) := by
  obtain ⟨content, hregions, hout⟩ := h.regions
  refine ⟨⟨content ++ classify (keywords p) p.caseInsensitive prev word ++ escapeChar c, ?_, ?_⟩,
    ?_, fun hne => absurd rfl hne⟩
  all_goals
    simp [Progress.follow, Transition.place, h.current, Progress.flush, h.written,
      Progress.writeAt, Progress.write, hregions, rewritten_eq]
  simp [← hout, String.append_assoc]

variable (p name) in
/-- A construct begins with the text `c :: taken`. -/
theorem follow_enter (h : Outside out word prev q) {fires : Context → Bool} {extra : Nat}
    {pairing : Pairing} {c : Char}
    (hpair : Transition.delimiter { target := .state k.state, fires, extra, pair := pairing } c =
      k.pair) (before taken : List Char) :
    Inside k (out ++ classify (keywords p) p.caseInsensitive prev word)
      (rewrite escapeChar (c :: taken)) ""
      (q.follow (table p name) { target := .state k.state, fires, extra, pair := pairing } before c
        (c :: taken)) := by
  obtain ⟨content, hregions, hout⟩ := h.regions
  have hne : rewrite escapeChar (c :: taken) ≠ "" := by simp [rewrite_eq_empty]
  refine ⟨?_, ?_, hne, ?_⟩
  all_goals
    simp [Progress.follow, Transition.place, h.current, Progress.flush, h.written,
      Progress.writeAt, Progress.write, hregions, rewritten_eq, Progress.leave, Progress.enter,
      wrap_normal, hpair]
  simp [← hout, String.append_assoc]

end Outside

namespace Inside

theorem current (h : Inside k out content held q) : q.current (table p name) = k.state := by
  rw [Progress.current, h.regions]

theorem written (h : Inside k out content held q) (target : State) :
    Progress.written (table p name) none (q.token k.state target) = held :=
  (written_construct p name k rfl).trans h.pending

/-- At the end of the text, the construct ends. -/
theorem complete (h : Inside k out content held q) :
    q.complete (table p name) = out ++ k.role.mark (content ++ held) := by
  have hne : content ++ held ≠ "" := fun h' => h.content_ne (String.append_eq_empty_iff.1 h').1
  rw [Progress.complete, h.current]
  simp only [Progress.flush, h.written, Progress.write, h.regions, Progress.close,
    String.append_empty, wrap_construct p name k _ hne, h.outside]

variable (p name) in
/-- A character is held. -/
theorem keep (h : Inside k out content held q) (before : List Char) (c : Char) :
    Inside k out content (held ++ escapeChar c) (q.keep (table p name) before c) := by
  rw [Progress.keep, rewritten_eq, rewrite_singleton, Progress.collect,
    if_neg (escapeChar_ne_empty c)]
  split
  · rename_i hpending
    exact ⟨h.regions, h.outside, h.content_ne,
      by rw [← h.pending, hpending, String.empty_append]⟩
  · exact ⟨h.regions, h.outside, h.content_ne, by rw [h.pending]⟩

variable (p name) in
/-- Text is written inside the construct. -/
theorem follow_stay (h : Inside k out content held q) (before : List Char) (c : Char)
    (taken : List Char) :
    Inside k out (content ++ held ++ rewrite escapeChar taken) ""
      (q.follow (table p name) escapedPair before c taken) := by
  have hne : content ++ held ++ rewrite escapeChar taken ≠ "" := by
    simp [h.content_ne]
  refine ⟨?_, ?_, hne, ?_⟩
  all_goals
    simp [Progress.follow, escapedPair, Transition.place, h.current, Progress.flush, h.written,
      Progress.writeAt, Progress.write, h.regions, rewritten_eq, h.outside]

variable (p name) in
/-- The construct ends with the text `taken`. -/
theorem follow_close (h : Inside k out content held q) (fires : Context → Bool) (extra : Nat)
    (before : List Char) (c : Char) (taken : List Char) :
    Outside (out ++ k.role.mark (content ++ held ++ rewrite escapeChar taken)) "" none
      (q.follow (table p name) { target := .pop, fires, extra } before c taken) := by
  have hne : content ++ held ++ rewrite escapeChar taken ≠ "" := by
    simp [h.content_ne]
  refine ⟨⟨"", ?_, ?_⟩, ?_, fun hne => absurd rfl hne⟩
  all_goals
    simp [Progress.follow, Transition.place, h.current, Progress.flush, h.written,
      Progress.writeAt, Progress.write, h.regions, rewritten_eq, h.outside, Progress.leave,
      Progress.reenter, Progress.enter, wrap_construct p name k _ hne]
  simp [table]

variable (p name) in
/-- The construct ends before the text `taken`. -/
theorem follow_newline (h : Inside k out content held q) (fires : Context → Bool)
    (before : List Char) (c : Char) (taken : List Char) :
    Outside (out ++ k.role.mark (content ++ held) ++ rewrite escapeChar taken) "" none
      (q.follow (table p name) { target := .pop, fires, placement := some .between } before c
        taken) := by
  have hne : content ++ held ≠ "" := by
    simp [h.content_ne]
  refine ⟨⟨"", ?_, ?_⟩, ?_, fun hne => absurd rfl hne⟩
  all_goals
    simp [Progress.follow, Transition.place, h.current, Progress.flush, h.written,
      Progress.writeAt, Progress.write, h.regions, rewritten_eq, h.outside, Progress.leave,
      Progress.reenter, Progress.enter, wrap_construct p name k _ hne]
  simp [table]

end Inside

/-! ## What fires -/

section

variable (name)

/-- What fires outside constructs, in the order in which `opening?` looks for openings. -/
theorem Outside.firing (h : Outside out word prev q) (before after : List Char) (c : Char) :
    q.firing (table p name) before c after =
      ((p.lineComments.find? fun marker => marker.toList.isPrefixOf (c :: after)).map
        (opener .lineComment)).or
      (((p.blockComment.filter fun b => b.1.toList.isPrefixOf (c :: after)).map
        fun b => opener .blockComment b.1).or
      ((if p.quotes.contains c then
          some { target := .state .string, fires := fun x => p.quotes.contains x.ch,
                 pair := .trigger } else none).or
      ((if p.regexLiterals && opensRegex { before, ch := c, after } then
          some { target := .state .regex, fires := opensRegex } else none).or
      (if isWordChar c then none
        else some { target := .stay, fires := fun x => !isWordChar x.ch })))) := by
  have hone : ∀ tr : Transition State, [tr].find? (fun tr => tr.fires (q.look before c after)) =
      if tr.fires (q.look before c after) then some tr else none := by
    intro tr
    by_cases hfires : tr.fires (q.look before c after) <;> simp [hfires]
  have hblock : ∀ f : String × String → Bool,
      p.blockComment.toList.find? f = p.blockComment.filter f := by
    intro f
    cases p.blockComment with
    | none => rfl
    | some b => by_cases hb : f b <;> simp [Option.filter, hb]
  have hregex : (if p.regexLiterals then
        [({ target := .state .regex, fires := opensRegex } : Transition State)] else []).find?
          (fun tr => tr.fires (q.look before c after)) =
      if p.regexLiterals && opensRegex { before, ch := c, after } then
        some { target := .state .regex, fires := opensRegex } else none := by
    cases p.regexLiterals with
    | false => rfl
    | true => exact hone _
  have hstay : (if !isWordChar c then
        some ({ target := .stay, fires := fun x => !isWordChar x.ch } : Transition State) else none) =
      if isWordChar c then none else some { target := .stay, fires := fun x => !isWordChar x.ch } := by
    cases isWordChar c <;> rfl
  rw [Progress.firing, h.current]
  simp only [table, rules, openers, List.find?_append, List.find?_map, hone, hblock, hregex,
    Option.or_assoc]
  rw [← hstay]
  rfl

/-- A comment, a string or a regular expression begins where the lexer says. -/
theorem Outside.exists_firing (h : Outside out word prev q) {before after : List Char} {c : Char}
    {n : Nat} (hopen : opening? p before c after = some (k, n)) :
    ∃ fires pairing,
      Transition.delimiter { target := .state k.state, fires, extra := n - 1, pair := pairing } c =
        k.pair ∧
      q.firing (table p name) before c after =
        some { target := .state k.state, fires, extra := n - 1, pair := pairing } := by
  rw [h.firing name]
  obtain ⟨marker, hline, rfl, rfl⟩ | ⟨hline, ⟨b, hblock, rfl, rfl⟩ | ⟨hblock, ⟨hquote, rfl, rfl⟩ |
    ⟨hquote, hregex, rfl, rfl⟩⟩⟩ := opening?_cases hopen
  · rw [hline]
    exact ⟨_, _, rfl, rfl⟩
  · rw [hline, hblock]
    exact ⟨_, _, rfl, rfl⟩
  · rw [hline, hblock, if_pos hquote]
    exact ⟨_, _, rfl, rfl⟩
  · rw [hline, hblock, if_neg hquote, if_pos hregex]
    exact ⟨_, _, rfl, rfl⟩

/-- Where nothing begins, a character that is no part of a word ends it. -/
theorem Outside.firing_of_none (h : Outside out word prev q) {before after : List Char} {c : Char}
    (hopen : opening? p before c after = none) :
    q.firing (table p name) before c after =
      if isWordChar c then none
      else some { target := .stay, fires := fun x => !isWordChar x.ch } := by
  simp only [opening?, Option.or_eq_none_iff, Option.map_eq_none_iff, ite_eq_right_iff,
    reduceCtorEq, imp_false] at hopen
  obtain ⟨hline, hblock, hquote, hregex⟩ := hopen
  rw [h.firing name, hline, hblock, if_neg hquote, if_neg hregex]
  rfl

end

section

variable (p name)

namespace Inside

/-- A line comment ends at a newline. -/
theorem firing_lineComment (h : Inside .lineComment out content held q)
    (before after : List Char) (c : Char) :
    q.firing (table p name) before c after =
      if c = '\n' then
        some { target := .pop, fires := fun x => x.ch == '\n', placement := some .between }
      else none := by
  rw [Progress.firing, h.current]
  by_cases hc : c = '\n' <;>
    simp [table, rules, Rules.span, Construct.state, Progress.look, hc]

/-- A block comment ends with its closing text. -/
theorem firing_blockComment {close : List Char}
    (h : Inside (.blockComment close) out content held q) (before after : List Char) (c : Char) :
    q.firing (table p name) before c after =
      if (blockEnd p).toList.isPrefixOf (c :: after) then
        some { target := .pop, fires := fun x => x.startsWith (blockEnd p).toList,
               extra := (blockEnd p).length - 1 }
      else none := by
  rw [Progress.firing, h.current]
  by_cases hc : (blockEnd p).toList.isPrefixOf (c :: after) <;>
    simp [table, rules, Rules.span, Construct.state, Progress.look, Context.startsWith, hc]

/-- A string ends at its quote. -/
theorem firing_string {quote : Char} (h : Inside (.string quote) out content held q)
    (before after : List Char) (c : Char) :
    q.firing (table p name) before c after =
      if c = '\\' then some escapedPair
      else if quote = c then some { target := .pop, fires := Context.atPair }
      else none := by
  have hpair : q.pair = some quote := by rw [Progress.pair, h.regions]; rfl
  rw [Progress.firing, h.current]
  by_cases hesc : c = '\\'
  · subst hesc
    rfl
  · by_cases hquote : quote = c <;>
      simp [table, rules, Rules.span, Construct.state, Progress.look, escapedPair,
        Context.atPair, hpair, hesc, hquote]

/-- A regular expression ends at a slash, or before a newline. -/
theorem firing_regex (h : Inside .regex out content held q) (before after : List Char)
    (c : Char) :
    q.firing (table p name) before c after =
      if c = '\\' then some escapedPair
      else if c = '/' then some { target := .pop, fires := fun x => x.ch == '/' }
      else if c = '\n' then
        some { target := .pop, fires := fun x => x.ch == '\n', placement := some .between }
      else none :=
  firing_of_regex h.current before after c

end Inside

end

end Expression
end Highlight
end AnswerStream
