import AnswerStream.Proofs.Chat.Refusal

/-!
# Votes and clearings

A vote and a clearing are requests on the side: the answer in flight does not wait for them,
and whoever makes them learns what became of them from what is announced.  Two things are
expected of such a request.  One that fails leaves no trace but a warning, and a vote that
was recorded is not sent again.

## A request that fails

Nothing is changed before the service has agreed, so a failure has nothing to undo.  The
exception is a chat id that had to be fetched first: the history that comes with it stays on
screen, ahead of what was there (`failsQuietly_after`).

## A vote that is repeated

Whether a vote is new is decided by the first entry that has the id, and the vote is noted on
the last one.  With a single such entry the two agree, and repeating a vote does nothing at
all.  With several, which nothing keeps the service from sending, the first entry never shows
the vote, and it is sent each time (`vote_again_iff`).
-/

namespace AnswerStream
namespace Chat

variable {ω κ : Type}

namespace Session

/-! ## A request that fails -/

/-- An id belongs to an entry, and the first such entry does not have the vote. -/
def LacksVote (id : String) (up down : Bool) (s : Session ω κ) : Prop :=
  ∃ m, s.transcript.find? (fun m => m.id = id) = some m ∧ ¬ (m.upvote = up ∧ m.downvote = down)

section Failing

variable (b : Backend ω κ)

/-- A vote fails, with what there is to say about it. -/
inductive VoteFails (id : String) (up down : Bool) (s : Session ω κ) : Warning → Prop
  | unknown (none : ∀ m ∈ s.transcript, m.id ≠ id) : VoteFails id up down s (.noMessage id)
  | refused {e : Failure} (asked : s.LacksVote id up down)
    (answer : (b.vote id up down s.outside).1 = .error e) :
    VoteFails id up down s (.voteFailed e)

/-- Clearing fails: no chat id can be had, or the service refuses. -/
inductive ClearFails (hard : Bool) (s : Session ω κ) : Failure → Prop
  | noChat {t : Session ω κ} {e : Failure}
    (chat : (s.announce (.clearing hard)).ensureChatId b = (.error e, t)) :
    ClearFails hard s e
  | refused {t : Session ω κ} {chatId : String} {e : Failure}
    (chat : (s.announce (.clearing hard)).ensureChatId b = (.ok chatId, t))
    (answer : (b.clear chatId hard t.outside).1 = .error e) : ClearFails hard s e

/-- A change of which only a warning is left. -/
structure OnlyWarns (w : Warning) (s s' : Session ω κ) : Prop where
  transcript : s'.transcript = s.transcript
  exchange : s'.exchange = s.exchange
  phase : s'.phase = s.phase
  line : s'.line = s.line
  chatId : s'.chatId = s.chatId
  events : s'.events = .warning w :: s.events

/-- A change that was announced as a clearing and came to nothing: what is on screen is still
there, behind what was restored with a chat id that had to be fetched. -/
structure OnlyLoads (hard : Bool) (e : Failure) (s s' : Session ω κ) : Prop where
  exchange : s'.exchange = s.exchange
  phase : s'.phase = s.phase
  line : s'.line = s.line
  transcript : ∃ old, Restores b s.config s.drawn (s.since s') old ∧
    s'.transcript = old ++ s.transcript ∧ (s.chatId.isSome → old = [])
  events : ∃ between, s'.events =
    .warning (.clearFailed e) :: (between ++ .clearing hard :: s.events) ∧
      (s.chatId.isSome → between = [])

/-- What a failed request leaves behind, and that whoever types a command is told nothing of
it. -/
structure FailsQuietly (s : Session ω κ) : Prop where
  vote : ∀ id up down w, VoteFails b id up down s w → OnlyWarns w s (s.vote b id up down)
  clear : ∀ hard e, ClearFails b hard s e → OnlyLoads b hard e s (s.clear b hard)
  command : s.unavailable = false → s.phase = .idle → ∀ text images,
    (trimmed text = "/clear" → s.ask b text images = (.ok .cleared, s.clear b false)) ∧
      (trimmed text = "/reset" → s.ask b text images = (.ok .cleared, s.clear b true))

variable {b} {s : Session ω κ}

theorem onlyWarns_vote {id : String} {up down : Bool} {w : Warning}
    (h : VoteFails b id up down s w) : OnlyWarns w s (s.vote b id up down) := by
  have hvoting := voting_vote b id up down s
  generalize s.vote b id up down = s' at hvoting ⊢
  cases h with
  | unknown hnone =>
    cases hvoting with
    | unknown none => exact ⟨rfl, rfl, rfl, rfl, rfl, rfl⟩
    | unchanged first | refused first | noted first =>
      have hmem := List.mem_of_find?_eq_some first
      exact absurd (by simpa using List.find?_some first) (hnone _ hmem)
  | refused asked answer =>
    obtain ⟨m, hfirst, hnew⟩ := asked
    cases hvoting with
    | unknown none => cases none.symm.trans hfirst
    | unchanged first has =>
      cases first.symm.trans hfirst
      exact absurd has hnew
    | refused first new answer' =>
      cases answer'.symm.trans answer
      exact ⟨rfl, rfl, rfl, rfl, rfl, rfl⟩
    | noted first new answer' => cases answer'.symm.trans answer

/-- What is announced is only ever added to. -/
theorem events_of_did {P : Effect → Prop} {s t : Session ω κ} (h : Did P s t) :
    ∃ between, t.events = between ++ s.events := by
  obtain ⟨new, heq, -⟩ := h
  exact ⟨_, by rw [events, events, heq, List.filterMap_append]⟩

/-- If there is no agreement to clear, all there is to see comes from getting a chat id. -/
theorem onlyLoads_of_ensureChatId {hard : Bool} {answer : Except Failure String}
    {t u : Session ω κ} {e : Failure}
    (hchat : (s.announce (.clearing hard)).ensureChatId b = (answer, t))
    (htu : LeavesLine t u) (hadds : Adds t u) (hevents : u.events = t.events) :
    OnlyLoads b hard e s (u.warn (.clearFailed e)) := by
  have hid := (ensureChatId_spec b (s.announce (.clearing hard))).1
  obtain ⟨old, hload⟩ := loads_ensureChatId b (s.announce (.clearing hard))
  obtain ⟨between, hbetween⟩ := events_of_did hload.did_plain
  rw [hchat] at hid hload hbetween
  have hwarned : Adds u (u.warn (.clearFailed e)) :=
    .announce (e := .warning (.clearFailed e)) trivial u
  have hstarted : Adds s (s.announce (.clearing hard)) := .announce (e := .clearing hard) trivial s
  have hall := Loads.adds_trans hstarted (hload.trans_adds (hadds.trans hwarned))
  -- a chat id that is known is not fetched
  have hknown : s.chatId.isSome → t = s.announce (.clearing hard) := by
    intro h
    obtain ⟨chatId, h⟩ := Option.isSome_iff_exists.1 h
    have hsame : (s.announce (.clearing hard)).ensureChatId b =
        (.ok chatId, s.announce (.clearing hard)) := ensureChatId_of_some b h
    exact (congrArg Prod.snd (hchat.symm.trans hsame))
  exact
    { exchange := htu.exchange.trans hid.exchange
      phase := htu.phase.trans hid.phase
      line := htu.line.trans hid.line
      transcript := by
        refine ⟨old, hall.restores, hall.transcript, fun h => ?_⟩
        have hsame := hload.transcript
        rw [hknown h] at hsame
        exact List.self_eq_append_left.1 hsame
      events := by
        refine ⟨between, ?_, fun h => ?_⟩
        · show _ :: u.events = _
          rw [hevents, hbetween]
          rfl
        · rw [hknown h] at hbetween
          exact List.self_eq_append_left.1 hbetween }

theorem onlyLoads_clear {hard : Bool} {e : Failure} (h : ClearFails b hard s e) :
    OnlyLoads b hard e s (s.clear b hard) := by
  have hclearing := clearing_clear b hard s
  generalize s.clear b hard = s' at hclearing ⊢
  cases h with
  | noChat chat =>
    cases hclearing with
    | noChat chat' =>
      cases chat'.symm.trans chat
      exact onlyLoads_of_ensureChatId chat (.refl _) (.refl _) rfl
    | refused chat' | cleared chat' => cases chat'.symm.trans chat
  | refused chat answer =>
    cases hclearing with
    | noChat chat' => cases chat'.symm.trans chat
    | refused chat' answer' =>
      cases chat'.symm.trans chat
      cases answer'.symm.trans answer
      exact onlyLoads_of_ensureChatId chat (leavesLine_request _ _ _)
        (.request (by simp [Effect.Unasked]) _ _) rfl
    | cleared chat' answer' =>
      cases chat'.symm.trans chat
      cases answer'.symm.trans answer

/-- **A request on the side that fails leaves no trace but a warning**, in every state of a
run: whatever the phase, with or without a channel and a chat. -/
theorem failsQuietly_after (config : Config) (outside : ω) (past : List (Op ω)) :
    FailsQuietly b ((start config outside).after b past) where
  vote _ _ _ _ h := onlyWarns_vote h
  clear _ _ h := onlyLoads_clear h
  command hup hidle text images := by
    refine ⟨fun h => ?_, fun h => ?_⟩ <;>
    · rw [ask, if_neg (by simp [hup]), if_neg (by simp [hidle])]
      dsimp only
      rw [← trimmed, h]
      rfl

/-- Both kinds of failure while an answer is in flight. -/
theorem failsQuietly_failSide :
    VoteFails Memory.backend "m" true false
        ((start {} { failSide := true,
                     history := [{ role := .ai, text := "a", id := some "m" }] }).after
          Memory.backend [.ask "q" []]) (.voteFailed (.http 500 "memory://vote")) ∧
      ClearFails Memory.backend true
        ((start {} { failSide := true,
                     history := [{ role := .ai, text := "a", id := some "m" }] }).after
          Memory.backend [.ask "q" []]) (.http 500 "memory://clear") ∧
      FailsQuietly Memory.backend
        ((start {} { failSide := true,
                     history := [{ role := .ai, text := "a", id := some "m" }] }).after
          Memory.backend [.ask "q" []]) := by
  refine ⟨.refused ⟨_, rfl, by decide +kernel⟩ rfl, .refused rfl rfl, failsQuietly_after _ _ _⟩

end Failing

/-! ## A vote that is repeated -/

/-- Whatever the change of an entry does not do to `p`: the first entry that satisfies `p` shows
it if it is the only one, for it is the last one that is changed. -/
theorem find?_updateLast? {α : Type} {p : α → Bool} {f : α → α} (hf : ∀ x, p (f x) = p x)
    {xs : List α} {x : α} (h : xs.find? p = some x) :
    ((updateLast? p f xs).getD xs).find? p = some (if xs.countP p = 1 then f x else x) := by
  induction xs with
  | nil => cases h
  | cons y ys ih =>
    by_cases hy : p y = true
    · rw [List.find?_cons_of_pos hy] at h
      cases h
      by_cases hys : ∃ z ∈ ys, p z = true
      · obtain ⟨before, z, after, rfl, heq⟩ := updateLast?_of_mem f hys
        have hcount : 0 < (before ++ z :: after).countP p := List.countP_pos_iff.2 hys
        rw [updateLast?, heq, Option.getD_some, List.find?_cons_of_pos hy,
          List.countP_cons_of_pos hy, if_neg (by omega)]
      · have hnone : ∀ z ∈ ys, p z = false := fun z hz => by simpa using fun hp => hys ⟨z, hz, hp⟩
        have hcount : ys.countP p = 0 :=
          List.countP_eq_zero.2 fun z hz => by simp [hnone z hz]
        rw [updateLast?, updateLast?_eq_none f hnone, if_pos hy, Option.getD_some,
          List.find?_cons_of_pos ((hf _).trans hy), List.countP_cons_of_pos hy, hcount, if_pos rfl]
    · rw [List.find?_cons_of_neg hy] at h
      obtain ⟨before, z, after, hsplit, heq⟩ :=
        updateLast?_of_mem f ⟨x, List.mem_of_find?_eq_some h, List.find?_some h⟩
      have hrest := ih h
      rw [heq, Option.getD_some] at hrest
      rw [updateLast?, heq, Option.getD_some, List.find?_cons_of_neg hy, hrest,
        List.countP_cons_of_neg hy]

/-- The service is asked to record a vote, and does. -/
structure VotePasses (b : Backend ω κ) (id : String) (up down : Bool) (s : Session ω κ) :
    Prop where
  asked : s.LacksVote id up down
  answer : (b.vote id up down s.outside).1 = .ok ()

variable {b : Backend ω κ} {s : Session ω κ} {id : String} {up down : Bool}

/-- After a vote was recorded, the first entry that has the id shows it if it is the only
one. -/
theorem first_vote {m : Message} (hfirst : s.transcript.find? (fun m => m.id = id) = some m)
    (hnew : ¬ (m.upvote = up ∧ m.downvote = down))
    (answer : (b.vote id up down s.outside).1 = .ok ()) :
    (s.vote b id up down).transcript.find? (fun m => m.id = id) =
      some (if s.transcript.countP (fun m => m.id = id) = 1
        then { m with upvote := up, downvote := down } else m) := by
  have hvoting := voting_vote b id up down s
  generalize s.vote b id up down = s' at hvoting ⊢
  cases hvoting with
  | unknown none => cases none.symm.trans hfirst
  | unchanged first has =>
    cases first.symm.trans hfirst
    exact absurd has hnew
  | refused first new refused => cases refused.symm.trans answer
  | noted first new answer' =>
    exact find?_updateLast? (f := fun m => { m with upvote := up, downvote := down })
      (fun _ => rfl) hfirst

/-- **A vote that was recorded is not sent again, if its entry is the only one with its id**,
and otherwise it is: with a single entry nothing at all is done, whatever has become of the
backend in between. -/
theorem vote_again_iff (h : s.VotePasses b id up down) (outside : ω) :
    s.after b [.vote id up down, .meanwhile outside, .vote id up down] =
        s.after b [.meanwhile outside, .vote id up down] ↔
      s.transcript.countP (fun m => m.id = id) = 1 := by
  obtain ⟨⟨m, hfirst, hnew⟩, answer⟩ := h
  have hvoted := first_vote hfirst hnew answer
  let t : Session ω κ := { s.vote b id up down with outside }
  show t.vote b id up down = t ↔ _
  constructor
  · intro hsame
    refine Decidable.byContradiction fun hmore => ?_
    rw [if_neg hmore] at hvoted
    obtain ⟨new, heq⟩ := effects_vote (b := b) (s := t) hvoted hnew
    -- the log would have to be longer than itself
    have hlength := congrArg List.length ((congrArg effects hsame).symm.trans heq)
    simp only [List.length_append, List.length_cons, List.length_nil] at hlength
    omega
  · intro hone
    rw [if_pos hone] at hvoted
    have hhas : t.transcript.find? (fun m => m.id = id) =
        some { m with upvote := up, downvote := down } := hvoted
    rw [vote, hhas]
    exact if_pos ⟨rfl, rfl⟩

/-- A vote on an answer that was restored, repeated while the service is down. -/
theorem vote_again_restored :
    VotePasses Memory.backend "m" true false
        ((start {} { history := [{ role := .ai, text := "a", id := some "m" }] }).after
          Memory.backend [.bootstrap]) ∧
      ((start {} { history := [{ role := .ai, text := "a", id := some "m" }] }).after
          Memory.backend [.bootstrap]).after Memory.backend
            [.vote "m" true false, .meanwhile { failSide := true },
              .vote "m" true false] =
        ((start {} { history := [{ role := .ai, text := "a", id := some "m" }] }).after
          Memory.backend [.bootstrap]).after Memory.backend
            [.meanwhile { failSide := true }, .vote "m" true false] := by
  have hpasses : VotePasses Memory.backend "m" true false
      ((start {} { history := [{ role := .ai, text := "a", id := some "m" }] }).after
        Memory.backend [.bootstrap]) := ⟨⟨_, rfl, by decide +kernel⟩, rfl⟩
  exact ⟨hpasses, (vote_again_iff hpasses _).2 (by decide +kernel)⟩

/-- Of two entries with one id the second has the vote, and the first is asked about it. -/
theorem not_vote_again_doubled :
    VotePasses Memory.backend "m" true false
        ((start {} { history := [{ role := .ai, text := "a", id := some "m" },
            { role := .ai, text := "b", id := some "m" }] }).after Memory.backend [.bootstrap]) ∧
      ((start {} { history := [{ role := .ai, text := "a", id := some "m" },
            { role := .ai, text := "b", id := some "m" }] }).after Memory.backend
              [.vote "m" true false, .vote "m" true false, .bootstrap]) ≠
        ((start {} { history := [{ role := .ai, text := "a", id := some "m" },
            { role := .ai, text := "b", id := some "m" }] }).after Memory.backend
              [.vote "m" true false, .bootstrap]) := by
  refine ⟨⟨⟨_, rfl, by decide +kernel⟩, rfl⟩, fun hsame => ?_⟩
  exact absurd (congrArg (fun s => s.effects.length) hsame) (by decide +kernel)

end Session
end Chat
end AnswerStream
