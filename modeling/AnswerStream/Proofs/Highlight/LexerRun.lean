import AnswerStream.Proofs.Highlight.LexerScan

/-!
# The table takes code piece by piece

A scan that is inside a construct comes out of it where the lexer says that the construct
ends (`Inside.comesOut`), and a word grows for as long as the lexer's does
(`Outside.reaches_word`).  So a scan that has come to the beginning of a piece goes on to the
beginning of the next, one lemma for each kind of piece, and the rest of a run is the markup
of the pieces to come (`AtLexeme.rest_eq`).

The one place where the scan goes its own way is the newline after a line comment.  The
transition that ends the comment takes it, so nothing can begin there.
-/

namespace AnswerStream
namespace Highlight
namespace Expression

open Text Scan

variable {p : Profile} {name : String} {out word content held : String} {prev : Option Char}
variable {k : Construct} {q : Progress State} {before text : List Char} {n : Nat}

/-! ## Coming out of a construct -/

/-- After the first `n` characters of `text` the scan `q` is outside constructs and has written
`out`. -/
def ComesOut (p : Profile) (name out : String) (n : Nat) (before text : List Char)
    (q : Progress State) : Prop :=
  ∃ q', Outside out "" none q' ∧ q.Reaches (table p name) n before text q'

theorem ComesOut.of_reaches {q₁ : Progress State} {m : Nat}
    (hreach : q.Reaches (table p name) m before text q₁)
    (h : ComesOut p name out n ((text.take m).reverse ++ before) (text.drop m) q₁) :
    ComesOut p name out (n + m) before text q := by
  obtain ⟨q', hq', hreach'⟩ := h
  exact ⟨q', hq', Nat.add_comm n m ▸ hreach.trans hreach'⟩

namespace Inside

/-- At the end of the text, a scan comes out of any construct. -/
theorem comesOut_nil (h : Inside k out content held q) (before : List Char) :
    ComesOut p name (out ++ k.role.mark (content ++ held)) 0 before [] q := by
  obtain ⟨q', hq'⟩ := Outside.exists_of_out (out ++ k.role.mark (content ++ held))
  refine ⟨q', hq', ?_⟩
  rw [Progress.Reaches, List.take_nil, List.drop_nil, Progress.rest_nil, Progress.rest_nil,
    h.complete, hq'.complete, classify_empty, String.append_empty]

/-- A construct that is closed with `n` more characters is left. -/
theorem comesOut_close (h : Inside k out content held q) {fires : Context → Bool} {c : Char}
    (hfire : q.firing (table p name) before c text = some { target := .pop, fires, extra := n }) :
    ComesOut p name
      (out ++ k.role.mark (content ++ held ++ rewrite escapeChar (c :: text.take n)))
      (n + 1) before (c :: text) q :=
  ⟨_, h.follow_close p name fires n before c _, Progress.reaches_of_some hfire rfl rfl⟩

/-- A scan comes out of a block comment after its closing text. -/
theorem comesOut_blockComment (hclose : (blockEnd p).toList ≠ [])
    (h : Inside (.blockComment (blockEnd p).toList) out content held q) (before text : List Char) :
    ComesOut p name (out ++ Role.comment.mark (content ++ held ++
      rewrite escapeChar (text.take (throughText (blockEnd p).toList text))))
      (throughText (blockEnd p).toList text) before text q := by
  induction text generalizing before held q with
  | nil => simpa [throughText, Construct.role] using h.comesOut_nil before
  | cons c cs ih =>
    have hfire := h.firing_blockComment p name before cs c
    rw [throughText]
    by_cases hc : (blockEnd p).toList.isPrefixOf (c :: cs)
    · rw [if_pos hc] at hfire ⊢
      obtain ⟨d, ds, hd⟩ := List.exists_cons_of_ne_nil hclose
      obtain ⟨text, htext⟩ := List.isPrefixOf_iff_prefix.1 hc
      rw [hd, List.cons_append] at htext
      obtain ⟨rfl, rfl⟩ := List.cons.inj htext
      have hlen : (blockEnd p).length - 1 = ds.length := by
        rw [← String.length_toList, hd, List.length_cons, Nat.add_sub_cancel]
      rw [hlen] at hfire
      simpa [hd, Construct.role] using h.comesOut_close hfire
    · rw [if_neg hc] at hfire ⊢
      have hkeep := ih (h.keep p name before c) (c :: before)
      rw [List.take_succ_cons, append_rewrite_cons]
      exact ComesOut.of_reaches (Progress.reaches_of_none hfire) hkeep

end Inside

/-! ## Quoted texts -/

/-- The construct `k`, of which `text` is to be read, ends with the next `close` of `text` that
is not escaped. -/
inductive Quoted : Construct → Char → List Char → Prop
  /-- A string. -/
  | string (quote : Char) (text : List Char) : Quoted (.string quote) quote text
  /-- A regular expression, which has its end on the same line. -/
  | regex {text : List Char} (h : slashFollows text = true) : Quoted .regex '/' text

namespace Quoted

variable {close c : Char}

/-- An escaped character changes nothing. -/
theorem of_escaped (h : Quoted k close ('\\' :: c :: text)) : Quoted k close text := by
  cases h with
  | string => exact .string _ _
  | regex hfollows =>
    refine .regex ?_
    by_cases hc : c = '\n'
    · simp [hc, slashFollows] at hfollows
    · simpa [slashFollows, hc] using hfollows

/-- Nor does any other character but `close`. -/
theorem of_ne (h : Quoted k close (c :: text)) (hesc : c ≠ '\\') (hclose : c ≠ close) :
    Quoted k close text := by
  cases h with
  | string => exact .string _ _
  | regex hfollows =>
    refine .regex ?_
    by_cases hc : c = '\n'
    · simp [hc, slashFollows] at hfollows
    · simpa [slashFollows, hc, hesc, hclose] using hfollows

variable (p name)

theorem firing_escaped (hq : Quoted k close text) (h : Inside k out content held q)
    (before after : List Char) :
    q.firing (table p name) before '\\' after = some escapedPair := by
  cases hq with
  | string => rw [h.firing_string, if_pos rfl]
  | regex => rw [h.firing_regex, if_pos rfl]

theorem exists_firing_close (hq : Quoted k close text) (h : Inside k out content held q)
    (hesc : close ≠ '\\') (before after : List Char) :
    ∃ fires, q.firing (table p name) before close after = some { target := .pop, fires } := by
  cases hq with
  | string => exact ⟨_, by rw [h.firing_string, if_neg hesc, if_pos rfl]⟩
  | regex => exact ⟨_, by rw [h.firing_regex, if_neg hesc, if_pos rfl]⟩

/-- Nothing fires at any other character.  In a regular expression it is no newline either,
because a slash follows on the same line. -/
theorem firing_of_ne (hq : Quoted k close (c :: text)) (h : Inside k out content held q)
    (hesc : c ≠ '\\') (hclose : c ≠ close) (before after : List Char) :
    q.firing (table p name) before c after = none := by
  cases hq with
  | string => rw [h.firing_string, if_neg hesc, if_neg hclose.symm]
  | regex hfollows =>
    have hline : c ≠ '\n' := by
      rintro rfl
      simp [slashFollows] at hfollows
    rw [h.firing_regex, if_neg hesc, if_neg hclose, if_neg hline]

variable {p name}

/-- A scan comes out of a quoted text after the character that closes it. -/
theorem comesOut (hq : Quoted k close text) (h : Inside k out content held q)
    (before : List Char) :
    ComesOut p name (out ++ k.role.mark (content ++ held ++
      rewrite escapeChar (text.take (throughUnescaped close text))))
      (throughUnescaped close text) before text q := by
  induction text using throughUnescaped.induct close generalizing before content held q with
  | case1 => simpa [throughUnescaped] using h.comesOut_nil before
  | case2 =>
    have hfire := hq.firing_escaped p name h before []
    have hstay := h.follow_stay p name before '\\' ['\\']
    -- No character is left for the backslash to take with it.
    have hreach : q.Reaches (table p name) 1 before ['\\'] _ :=
      Progress.reaches_of_some (n := 1) hfire rfl rfl
    simpa [throughUnescaped] using ComesOut.of_reaches hreach (hstay.comesOut_nil _)
  | case3 c cs ih =>
    have hfire := hq.firing_escaped p name h before (c :: cs)
    have hstay := h.follow_stay p name before '\\' ['\\', c]
    have hmarkup : ∀ cs, content ++ held ++ rewrite escapeChar ('\\' :: c :: cs) =
        content ++ held ++ rewrite escapeChar ['\\', c] ++ "" ++ rewrite escapeChar cs := by
      intro cs
      simp [rewrite_cons, String.append_assoc]
    rw [throughUnescaped, List.take_succ_cons, List.take_succ_cons, hmarkup]
    exact ComesOut.of_reaches (Progress.reaches_of_some (n := 1) hfire rfl rfl)
      (ih hq.of_escaped hstay _)
  | case4 cs hlast hnext =>
    have hesc : close ≠ '\\' := by cases cs <;> simp_all
    obtain ⟨fires, hfire⟩ := hq.exists_firing_close p name h hesc before cs
    rw [throughUnescaped_of_ne hesc, if_pos rfl]
    exact h.comesOut_close hfire
  | case5 c cs hlast hnext hclose ih =>
    have hesc : c ≠ '\\' := by cases cs <;> simp_all
    have hfire := hq.firing_of_ne p name h hesc hclose before cs
    have hout := ih (hq.of_ne hesc hclose) (h.keep p name before c) (c :: before)
    rw [throughUnescaped_of_ne hesc, if_neg hclose, List.take_succ_cons, append_rewrite_cons]
    exact ComesOut.of_reaches (Progress.reaches_of_none hfire) hout

end Quoted

/-- A scan comes out of a construct other than a line comment where the lexer says that it
ends. -/
theorem Inside.comesOut (hp : ∀ b ∈ p.blockComment, b.2 ≠ "") {before' after : List Char}
    {c : Char} (hopen : opening? p before' c after = some (k, n)) (hk : k ≠ .lineComment)
    (htext : after.drop (n - 1) = text) (h : Inside k out content held q) (before : List Char) :
    ComesOut p name
      (out ++ k.role.mark (content ++ held ++ rewrite escapeChar (text.take (k.extent text))))
      (k.extent text) before text q := by
  subst htext
  cases k with
  | lineComment => exact absurd rfl hk
  | blockComment close =>
    obtain ⟨b, hb, rfl⟩ := opening?_blockComment hopen
    have hend : b.2 = blockEnd p := by rw [blockEnd, hb]
    have hne : (blockEnd p).toList ≠ [] := by simpa [← hend] using hp b hb
    rw [hend] at h ⊢
    exact h.comesOut_blockComment hne before _
  | string quote => exact Quoted.comesOut (.string quote _) h before
  | regex =>
    obtain ⟨rfl, hfollows⟩ := opening?_regex hopen
    exact Quoted.comesOut (.regex hfollows) h before

/-! ## Lines and words -/

variable (p name)

/-- A line comment is held to the end of its line. -/
theorem Inside.reaches_lineEnd (h : Inside .lineComment out content held q)
    (before text : List Char) :
    ∃ q', Inside .lineComment out content
        (held ++ rewrite escapeChar (text.take (Construct.lineComment.extent text))) q' ∧
      q.Reaches (table p name) (Construct.lineComment.extent text) before text q' := by
  induction text generalizing before held q with
  | nil => exact ⟨q, by simpa using h, .refl _ _ _⟩
  | cons c cs ih =>
    by_cases hc : c = '\n'
    · rw [hc, extent_lineComment_newline]
      exact ⟨q, by simpa using h, .refl _ _ _⟩
    · have hfire := h.firing_lineComment p name before cs c
      rw [if_neg hc] at hfire
      obtain ⟨q', hq', hreach⟩ := ih (h.keep p name before c) (c :: before)
      rw [String.append_assoc, ← rewrite_cons] at hq'
      rw [extent_lineComment_cons hc, List.take_succ_cons, Nat.add_comm]
      exact ⟨q', hq', (Progress.reaches_of_none hfire).trans hreach⟩

/-- A word grows for as long as it goes on. -/
theorem Outside.reaches_word (h : Outside out word prev q) (hword : word ≠ "")
    (before text : List Char) :
    ∃ q', Outside out (word ++ String.ofList (wordTail p before text)) prev q' ∧
      q.Reaches (table p name) (wordTail p before text).length before text q' := by
  induction text generalizing before word q with
  | nil => exact ⟨q, by simpa [wordTail] using h, .refl _ _ _⟩
  | cons c cs ih =>
    rw [wordTail]
    by_cases hc : isWordChar c && (opening? p before c cs).isNone
    · obtain ⟨hchar, hnone⟩ := Bool.and_eq_true_iff.1 hc
      have hfire := h.firing_of_none name (Option.isNone_iff_eq_none.1 hnone)
      rw [if_pos hchar] at hfire
      have hkeep := h.keep p name before hchar
      rw [if_neg hword] at hkeep
      obtain ⟨q', hq', hreach⟩ := ih hkeep (by simp) (c :: before)
      rw [String.append_assoc, ← String.ofList_cons] at hq'
      rw [if_pos hc, List.length_cons, Nat.add_comm]
      exact ⟨q', hq', (Progress.reaches_of_none hfire).trans hreach⟩
    · rw [if_neg hc]
      exact ⟨q, by simpa using h, .refl _ _ _⟩

variable {p name}

/-! ## From piece to piece -/

/-- The scan `q` has come to the beginning of a piece, and `out` is what it will have written
before it.  Either a line comment has just `ended`, but not its line, or the scan is outside
constructs with a word that goes on no more. -/
inductive AtLexeme (p : Profile) : (ended : Bool) → (before text : List Char) → (out : String) →
    (q : Progress State) → Prop
  /-- A line comment has ended. -/
  | line {before text : List Char} {out content held : String} {q : Progress State}
    (hnewline : ∀ c ∈ text.head?, c = '\n') (h : Inside .lineComment out content held q) :
    AtLexeme p true before text (out ++ Role.comment.mark (content ++ held)) q
  /-- Anything else may have ended. -/
  | outside {before text : List Char} {out word : String} {prev : Option Char}
    {q : Progress State} (hword : word = "" ∨ wordTail p before text = [])
    (h : Outside out word prev q) :
    AtLexeme p false before text (out ++ classify (keywords p) p.caseInsensitive prev word) q

/-- The scan `q`, which has written `out` before it, takes the piece `l` of `n` characters and
comes to the beginning of the next. -/
def Takes (p : Profile) (name : String) (l : Lexeme) (n : Nat) (ended : Bool)
    (before text : List Char) (out : String) (q : Progress State) : Prop :=
  ∃ q', AtLexeme p ended ((text.take n).reverse ++ before) (text.drop n) (out ++ l.markup p) q' ∧
    q.Reaches (table p name) n before text q'

/-- The markup of a piece comes before the markup of what follows. -/
theorem Takes.rest_eq {l : Lexeme} {ended : Bool} {m : String}
    (h : Takes p name l n ended before text out q)
    (hm : ∀ {out q}, AtLexeme p ended ((text.take n).reverse ++ before) (text.drop n) out q →
      q.rest (table p name) ((text.take n).reverse ++ before) (text.drop n) = out ++ m) :
    q.rest (table p name) before text = out ++ (l.markup p ++ m) := by
  obtain ⟨q', hq', hreach⟩ := h
  rw [hreach.rest_eq, hm hq', String.append_assoc]

namespace AtLexeme

variable {ended : Bool} {c : Char} {cs : List Char}

/-- Without a word under way, any piece may begin. -/
theorem of_outside (h : Outside out "" none q) (before text : List Char) :
    AtLexeme p false before text out q := by
  have hat : AtLexeme p false before text _ q := .outside (.inl rfl) h
  simpa using hat

theorem ended_eq (h : AtLexeme p ended before (c :: cs) out q)
    (hend : (ended && c == '\n') ≠ true) : ended = false := by
  cases h with
  | outside => rfl
  | line hnewline => exact absurd (by simp [hnewline c rfl]) hend

/-- The newline after a line comment. -/
theorem takes_newline (h : AtLexeme p true before ('\n' :: cs) out q) :
    Takes p name (.char '\n') 1 false before ('\n' :: cs) out q := by
  cases h with
  | line _ h =>
    have hfire := h.firing_lineComment p name before cs '\n'
    rw [if_pos rfl] at hfire
    have hout := h.follow_newline p name (fun x => x.ch == '\n') before '\n' ['\n']
    rw [rewrite_singleton] at hout
    exact ⟨_, of_outside hout _ _, Progress.reaches_of_some (n := 0) hfire rfl rfl⟩

/-- A character that begins nothing and is no part of a word. -/
theorem takes_char (h : AtLexeme p false before (c :: cs) out q)
    (hopen : opening? p before c cs = none) (hc : isWordChar c ≠ true) :
    Takes p name (.char c) 1 false before (c :: cs) out q := by
  cases h with
  | outside _ h =>
    have hfire := h.firing_of_none name hopen
    rw [if_neg hc] at hfire
    exact ⟨_, of_outside (h.follow_stay p name before c) _ _,
      Progress.reaches_of_some (n := 0) hfire rfl rfl⟩

/-- A word. -/
theorem takes_word (h : AtLexeme p false before (c :: cs) out q)
    (hopen : opening? p before c cs = none) (hc : isWordChar c = true) :
    Takes p name (.word before.head? (c :: wordTail p (c :: before) cs))
      ((wordTail p (c :: before) cs).length + 1) false before (c :: cs) out q := by
  cases h with
  | @outside _ _ out word _ _ hword h =>
    -- A word under way would go on over `c`.
    have hempty : word = "" := by
      obtain hempty | htail := hword
      · exact hempty
      · simp [wordTail, hopen, hc] at htail
    have hfire := h.firing_of_none name hopen
    rw [if_pos hc] at hfire
    have hkeep := h.keep p name before hc
    rw [if_pos hempty, hempty, String.empty_append] at hkeep
    obtain ⟨q', hq', hreach⟩ := hkeep.reaches_word p name (by simp) (c :: before) cs
    refine ⟨q', ?_, Nat.add_comm 1 _ ▸ (Progress.reaches_of_none hfire).trans hreach⟩
    have hat := outside (.inr (wordTail_drop (c :: before) cs (p := p))) hq'
    simpa [Lexeme.markup, hempty, String.ofList_cons, take_wordTail] using hat

/-- The opening of a construct. -/
theorem exists_inside (h : AtLexeme p false before (c :: cs) out q)
    (hopen : opening? p before c cs = some (k, n)) :
    ∃ q', Inside k out (rewrite escapeChar (c :: cs.take (n - 1))) "" q' ∧
      q.Reaches (table p name) (n - 1 + 1) before (c :: cs) q' := by
  cases h with
  | outside _ h =>
    obtain ⟨fires, pairing, hpair, hfire⟩ := h.exists_firing name hopen
    exact ⟨_, h.follow_enter p name hpair before _, Progress.reaches_of_some hfire rfl rfl⟩

/-- What is left of a construct after its opening. -/
theorem exists_of_inside (hp : ∀ b ∈ p.blockComment, b.2 ≠ "") {before' after : List Char}
    (hopen : opening? p before' c after = some (k, n)) (htext : after.drop (n - 1) = text)
    (h : Inside k out content held q) (before : List Char) :
    ∃ q', AtLexeme p (k = .lineComment) ((text.take (k.extent text)).reverse ++ before)
        (text.drop (k.extent text))
        (out ++ k.role.mark (content ++ held ++ rewrite escapeChar (text.take (k.extent text))))
        q' ∧
      q.Reaches (table p name) (k.extent text) before text q' := by
  by_cases hk : k = .lineComment
  · subst hk
    obtain ⟨q', hq', hreach⟩ := h.reaches_lineEnd p name before text
    refine ⟨q', ?_, hreach⟩
    rw [String.append_assoc]
    exact .line (head?_drop_lineComment text) hq'
  · obtain ⟨q', hq', hreach⟩ := h.comesOut hp hopen hk htext before
    refine ⟨q', ?_, hreach⟩
    rw [decide_eq_false hk]
    exact of_outside hq' _ _

/-- A comment, a string or a regular expression. -/
theorem takes_marked (hp : ∀ b ∈ p.blockComment, b.2 ≠ "")
    (h : AtLexeme p false before (c :: cs) out q)
    (hopen : opening? p before c cs = some (k, n)) :
    Takes p name (.marked k.role (c :: cs.take (k.reach n cs))) (k.reach n cs + 1)
      (k = .lineComment) before (c :: cs) out q := by
  obtain ⟨q₁, hq₁, hreach₁⟩ := h.exists_inside hopen
  obtain ⟨q', hq', hreach'⟩ := exists_of_inside hp hopen rfl hq₁
    ((c :: cs.take (n - 1)).reverse ++ before)
  have hlength : k.reach n cs + 1 = n - 1 + 1 + k.extent (cs.drop (n - 1)) := by
    rw [Construct.reach, Nat.add_right_comm]
  refine ⟨q', ?_, hlength ▸ hreach₁.trans hreach'⟩
  simpa [Lexeme.markup, Construct.reach, List.take_add, List.drop_drop, rewrite_cons,
    rewrite_append, String.append_assoc] using hq'

/-- **The rest of a run is the markup of the pieces to come.** -/
theorem rest_eq (hp : ∀ b ∈ p.blockComment, b.2 ≠ "")
    (h : AtLexeme p ended before text out q) :
    q.rest (table p name) before text = out ++ markup p (lexemes p true ended before text) := by
  induction ended, before, text using lexemes.induct p true generalizing out q with
  | case1 ended before =>
    rw [lexemes, markup_nil, String.append_empty, Progress.rest_nil]
    cases h with
    | line _ h => exact h.complete
    | outside _ h => exact h.complete
  | case2 ended before c cs hend ih =>
    obtain ⟨rfl, hc⟩ := Bool.and_eq_true_iff.1 hend
    obtain rfl := eq_of_beq hc
    rw [lexemes, if_pos hend, markup_cons]
    exact h.takes_newline.rest_eq ih
  | case3 ended before c cs hend k n hopen ih =>
    obtain rfl := h.ended_eq hend
    rw [lexemes, if_neg hend, hopen, markup_cons]
    exact (h.takes_marked hp hopen).rest_eq ih
  | case4 ended before c cs hend hopen hword ih =>
    obtain rfl := h.ended_eq hend
    rw [lexemes, if_neg hend, hopen]
    simp only [if_pos hword, markup_cons]
    refine (h.takes_word hopen hword).rest_eq fun hat => ?_
    rw [List.take_succ_cons, List.drop_succ_cons, take_wordTail] at hat ⊢
    exact ih hat
  | case5 ended before c cs hend hopen hword ih =>
    obtain rfl := h.ended_eq hend
    rw [lexemes, if_neg hend, hopen]
    simp only [if_neg hword, markup_cons]
    exact (h.takes_char hopen hword).rest_eq ih

end AtLexeme

/-! ## The run -/

/-- Every comment marker of a notation has a character. -/
structure MarkersNonempty (p : Profile) : Prop where
  /-- What starts a line comment. -/
  lineComments : ∀ marker ∈ p.lineComments, marker ≠ ""
  /-- What starts and what ends a block comment. -/
  blockComment : ∀ b ∈ p.blockComment, b.1 ≠ "" ∧ b.2 ≠ ""

/-- **Code is taken piece by piece.**  A newline after a line comment is a character like
others, and where nothing begins at a newline this makes no difference. -/
theorem run_eq_lexed (h : MarkersNonempty p) (name code : String) :
    (table p name).run code = lexed p true code ∧
    ((∀ before after, opening? p before '\n' after = none) →
      (table p name).run code = lexed p false code) := by
  have hrun : (table p name).run code = lexed p true code := by
    rw [Table.run_eq_rest, (AtLexeme.of_outside .start [] _).rest_eq fun b hb => (h.2 b hb).2,
      String.empty_append]
    rfl
  refine ⟨hrun, fun hnewline => ?_⟩
  rw [hrun, lexed, lexed, lexemes_eq_of_newline hnewline]

theorem run_eq_lexed_let :
    MarkersNonempty { keywords := ["let"] } ∧
    (∀ before after, opening? { keywords := ["let"] } before '\n' after = none) ∧
    (table { keywords := ["let"] } "").run "let a.b // c\n" =
      "<span class=\"hl-keyword\">let</span> <span class=\"hl-variable\">a</span>." ++
        "<span class=\"hl-property\">b</span> <span class=\"hl-comment\">// c</span>\n" := by
  have hmarked : MarkersNonempty { keywords := ["let"] } := ⟨by simp, by simp⟩
  have hnewline : ∀ before after,
      opening? { keywords := ["let"] } before '\n' after = none := by
    intro before after
    simp [opening?]
  refine ⟨hmarked, hnewline, ((run_eq_lexed hmarked "" "let a.b // c\n").2 hnewline).trans ?_⟩
  decide +kernel

/-- A newline that quotes strings begins none after a line comment. -/
theorem run_ne_lexed_quoted_newline :
    MarkersNonempty { keywords := [], quotes := ['\n'] } ∧
    (table { keywords := [], quotes := ['\n'] } "").run "//a\nb\n" ≠
      lexed { keywords := [], quotes := ['\n'] } false "//a\nb\n" :=
  ⟨⟨by simp, by simp⟩, by decide +kernel⟩

end Expression
end Highlight
end AnswerStream
