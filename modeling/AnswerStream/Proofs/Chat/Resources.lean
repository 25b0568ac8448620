import AnswerStream.Proofs.Chat.Addresses
import AnswerStream.Proofs.Text.Lines

/-!
# The resources of a session

The addresses of a session have its id in the middle of their path, as it stands.  That is
sound if the id is a single segment of the path: then every address leads where it is meant to,
and two sessions have no address in common, whatever else differs between them.

## What makes a segment

An address is read as any reader of addresses does it: a number sign starts a fragment, which is
not sent, a question mark starts a query, and slashes cut the path into segments, of which `.`
and `..` are steps and not names.  So a segment is a text without these three characters that is
neither of the two (`IsSegment`).

A configuration that is built has an id without slashes and white space.  This leaves the ids
with a question mark or a number sign in them, and the two dot segments.  The addresses lead
where they are meant to exactly if the id is none of these (`leads_iff`).
-/

namespace AnswerStream
namespace Chat
namespace Config

open Text

/-! ## Reading an address -/

/-- A text up to the first `sep`, and what follows that, if there is one. -/
def cutAt (sep : Char) (cs : List Char) : List Char × Option (List Char) :=
  (cs.takeWhile (· ≠ sep), (cs.dropWhile (· ≠ sep)).tail?)

/-- The parts of an address. -/
structure AddressParts where
  /-- Its scheme, its host and its path. -/
  place : List Char
  /-- What follows a question mark. -/
  query : Option (List Char)
  /-- What follows a number sign. -/
  fragment : Option (List Char)

/-- The parts of an address as a reader finds them. -/
def AddressParts.read (url : String) : AddressParts :=
  let sent := cutAt '#' url.toList
  let place := cutAt '?' sent.1
  { place := place.1, query := place.2, fragment := sent.2 }

/-- A text that names one segment of a path. -/
structure IsSegment (s : List Char) : Prop where
  ne_nil : s ≠ []
  plain : ∀ c ∈ s, c ≠ '/' ∧ c ≠ '?' ∧ c ≠ '#'
  not_dots : s ≠ ['.'] ∧ s ≠ ['.', '.']

instance (s : List Char) : Decidable (IsSegment s) :=
  decidable_of_iff
    (s ≠ [] ∧ s.all (fun c => c ≠ '/' ∧ c ≠ '?' ∧ c ≠ '#') = true ∧ s ≠ ['.'] ∧ s ≠ ['.', '.'])
    ⟨fun h => ⟨h.1, by simpa using h.2.1, h.2.2⟩,
      fun h => ⟨h.ne_nil, by simpa using h.plain, h.not_dots⟩⟩

/-- An address leads to the place that the segments name below the service with the address
`root`: it has no query and no fragment, these are the segments of its path after the root, and
none of them is a step. -/
structure LeadsTo (root : List Char) (segments : List (List Char)) (url : String) : Prop where
  query : (AddressParts.read url).query = none
  fragment : (AddressParts.read url).fragment = none
  path : ∃ rest, (AddressParts.read url).place = root ++ '/' :: rest ∧ splitOn '/' rest = segments
  not_dots : ∀ s ∈ segments, s ≠ ['.'] ∧ s ≠ ['.', '.']

/-- One segment more on the way along a path; the segments passed so far are held with the
latest first. -/
def takeSegment (passed : List (List Char)) (s : List Char) : List (List Char) :=
  if s = ['.'] then passed else if s = ['.', '.'] then passed.tail else s :: passed

/-- The path that is meant by some segments.  A step at its end leads to a place with an empty
name. -/
def resolve (segments : List (List Char)) : List (List Char) :=
  (segments.foldl takeSegment []).reverse ++
    if segments.getLast? = some ['.'] ∨ segments.getLast? = some ['.', '.'] then [[]] else []

/-- What a server is asked for. -/
structure Resource where
  /-- The scheme and the host. -/
  origin : List (List Char)
  /-- The path, without steps. -/
  path : List (List Char)
  /-- The query. -/
  query : Option (List Char)
  deriving DecidableEq

/-- The resource at an address.  The first slashes of an address are the two before its host. -/
def resourceAt (url : String) : Resource where
  origin := (splitOn '/' (AddressParts.read url).place).take 3
  path := resolve ((splitOn '/' (AddressParts.read url).place).drop 3)
  query := (AddressParts.read url).query

/-! ## The endpoints of a session -/

/-- The addresses that have the session in them. -/
inductive Endpoint where
  /-- That of the id of the chat. -/
  | chatId
  /-- That of the history of a chat. -/
  | history (chat : String)
  /-- That at which a chat is cleared. -/
  | clear (chat : String)
  /-- That of the streaming channel of a chat. -/
  | channel (chat : String)

namespace Endpoint

/-- The address of an endpoint. -/
def url (c : Config) : Endpoint → String
  | chatId => c.chatIdUrl
  | history chat => c.historyUrl chat
  | clear chat => c.clearUrl chat
  | channel chat => c.socketUrl chat

/-- The address of the service that has the endpoint. -/
def root (c : Config) : Endpoint → List Char
  | channel _ => c.socketRoot.toList
  | _ => c.root

/-- The segments below the session. -/
def below : Endpoint → List (List Char)
  | chatId => ["id".toList]
  | history chat => [chat.toList, "history".toList]
  | clear chat => [chat.toList, "clear".toList]
  | channel chat => [chat.toList, "ws".toList]

/-- The segments of the place that is meant. -/
def segments (session : String) (e : Endpoint) : List (List Char) :=
  ["api".toList, "chat".toList, session.toList] ++ e.below

/-- The chat of an endpoint, if it has one, is named by a segment. -/
def Fair (e : Endpoint) : Prop := ∀ s ∈ e.below, IsSegment s

/-- The address of an endpoint leads where it is meant to. -/
def Leads (c : Config) (e : Endpoint) : Prop :=
  LeadsTo (e.root c) (e.segments c.sessionId) (e.url c)

/-- The address is put together from the service and the segments. -/
theorem toList_url (c : Config) (e : Endpoint) :
    (e.url c).toList = e.root c ++ (e.segments c.sessionId).flatMap ('/' :: ·) := by
  cases e <;>
    simp [url, root, segments, below, chatIdUrl, historyUrl, clearUrl, socketUrl, chatPath, address]

theorem isSegment_of_mem_segments {session : String} {e : Endpoint} (he : e.Fair)
    (hs : IsSegment session.toList) : ∀ s ∈ e.segments session, IsSegment s := by
  intro s hmem
  simp only [segments, List.mem_append, List.mem_cons, List.not_mem_nil, or_false] at hmem
  rcases hmem with (rfl | rfl | rfl) | hmem
  · decide
  · decide
  · exact hs
  · exact he s hmem

/-- An address ends with the name of its endpoint. -/
theorem getLast?_append_below (before : List (List Char)) (e : Endpoint) :
    (before ++ e.below).getLast? = e.below.getLast? := by
  cases e <;> simp [below]

/-- The last segment tells how many segments there are below the session. -/
theorem length_below_eq {e e' : Endpoint} (h : e.below.getLast? = e'.below.getLast?) :
    e.below.length = e'.below.length := by
  cases e <;> cases e' <;> first | rfl | exact absurd h (by simp [below])

end Endpoint

/-! ## Query and fragment -/

theorem snd_cutAt_eq_none_iff {sep : Char} {cs : List Char} :
    (cutAt sep cs).2 = none ↔ sep ∉ cs := by
  unfold cutAt
  constructor
  · intro h hmem
    have hkept : sep ∈ cs.dropWhile (· ≠ sep) := mem_dropWhile hmem (by simp)
    cases hdrop : cs.dropWhile (· ≠ sep) with
    | nil =>
      rw [hdrop] at hkept
      cases hkept
    | cons c rest =>
      rw [hdrop] at h
      cases h
  · intro h
    have hall : ∀ c ∈ cs, decide (c ≠ sep) = true := by
      intro c hc
      exact decide_eq_true fun heq => h (heq ▸ hc)
    have hdrop : (cs ++ []).dropWhile (· ≠ sep) = [] := dropWhile_append_eq hall (by simp)
    rw [List.append_nil] at hdrop
    rw [hdrop, List.tail?_nil]

theorem fst_cutAt_of_not_mem {sep : Char} {cs : List Char} (h : sep ∉ cs) :
    (cutAt sep cs).1 = cs := by
  have hall : ∀ c ∈ cs, decide (c ≠ sep) = true := by
    intro c hc
    exact decide_eq_true fun heq => h (heq ▸ hc)
  have htake : (cs ++ []).takeWhile (· ≠ sep) = cs := takeWhile_append_eq hall (by simp)
  rwa [List.append_nil] at htake

namespace AddressParts

/-- An address without query and fragment is all place. -/
theorem read_of_not_mem {url : String} (hquery : '?' ∉ url.toList) (hfragment : '#' ∉ url.toList) :
    read url = { place := url.toList, query := none, fragment := none } := by
  have hsent : (cutAt '#' url.toList).1 = url.toList := fst_cutAt_of_not_mem hfragment
  unfold read
  simp only [hsent, fst_cutAt_of_not_mem hquery, snd_cutAt_eq_none_iff.2 hquery,
    snd_cutAt_eq_none_iff.2 hfragment]

/-- An address in which neither is found has no such character. -/
theorem not_mem_of_read {url : String} (hquery : (read url).query = none)
    (hfragment : (read url).fragment = none) : '?' ∉ url.toList ∧ '#' ∉ url.toList := by
  have hhash : '#' ∉ url.toList := snd_cutAt_eq_none_iff.1 hfragment
  have hsent : (cutAt '#' url.toList).1 = url.toList := fst_cutAt_of_not_mem hhash
  unfold read at hquery
  simp only [hsent] at hquery
  exact ⟨snd_cutAt_eq_none_iff.1 hquery, hhash⟩

end AddressParts

/-! ## Steps in a path -/

/-- Names are taken one after the other. -/
theorem foldl_takeSegment {names : List (List Char)}
    (h : ∀ s ∈ names, s ≠ ['.'] ∧ s ≠ ['.', '.']) (passed : List (List Char)) :
    names.foldl takeSegment passed = names.reverse ++ passed := by
  induction names generalizing passed with
  | nil => rfl
  | cons s names ih =>
    obtain ⟨⟨hdot, hdots⟩, hrest⟩ := List.forall_mem_cons.1 h
    have htake : takeSegment passed s = s :: passed := by
      unfold takeSegment
      rw [if_neg hdot, if_neg hdots]
    rw [List.foldl_cons, htake, ih hrest, List.reverse_cons, List.append_assoc]
    rfl

/-- Names at the end of a path stay as they are. -/
theorem resolve_append (before : List (List Char)) {names : List (List Char)} (hne : names ≠ [])
    (h : ∀ s ∈ names, s ≠ ['.'] ∧ s ≠ ['.', '.']) :
    resolve (before ++ names) = (before.foldl takeSegment []).reverse ++ names := by
  have hlast : (before ++ names).getLast? = some (names.getLast hne) := by
    rw [List.getLast?_append, List.getLast?_eq_some_getLast hne, Option.some_or]
  obtain ⟨hdot, hdots⟩ := h _ (List.getLast_mem hne)
  unfold resolve
  rw [List.foldl_append, foldl_takeSegment h, hlast, if_neg (by simp [hdot, hdots])]
  simp

/-! ## Where addresses lead -/

/-- A base address that has no query and no fragment. -/
def PlainBase (c : Config) : Prop := ∀ a ∈ c.baseUrl.toList, a ≠ '?' ∧ a ≠ '#'

instance : DecidablePred PlainBase := fun c =>
  decidable_of_iff ((c.baseUrl.toList.all fun a => a ≠ '?' ∧ a ≠ '#') = true)
    (by simp [PlainBase])

/-- The configuration was built from one with a plain base address. -/
def Accepted (built : Config) : Prop := ∃ c : Config, c.PlainBase ∧ c.build = .ok built

namespace Accepted

variable {c : Config}

/-- A configuration that is trimmed and passes the check is built as it is. -/
theorem of_validate (hplain : c.PlainBase) (htrim : c.trimmed = c) (hcheck : c.validate = .ok ()) :
    c.Accepted := by
  refine ⟨c, hplain, ?_⟩
  unfold build
  rw [htrim, hcheck]
  rfl

/-- Both addresses of the service start with a scheme, and nothing in them starts a query or a
fragment. -/
theorem exists_root (h : c.Accepted) (e : Endpoint) :
    ∃ scheme ∈ ["https://", "http://", "wss://", "ws://"], ∃ rest,
      e.root c = String.toList scheme ++ rest ∧ ∀ a ∈ rest, a ≠ '?' ∧ a ≠ '#' := by
  obtain ⟨given, hplain, hbuild⟩ := h
  obtain ⟨rfl, hcheck⟩ := of_build hbuild
  have hbase : trim given.trimmed.baseUrl.toList = given.trimmed.baseUrl.toList := by
    simp [trimmed, trim_trim]
  obtain ⟨s, hs, host, htrim, hhost⟩ := exists_scheme hcheck
  rw [hbase] at htrim
  have hroot := root_of_scheme htrim hhost
  have hrest : ∀ a ∈ dropEndWhile (· == '/') host, a ≠ '?' ∧ a ≠ '#' := by
    intro a ha
    obtain ⟨tail, htail, -⟩ := dropEndWhile_append (· == '/') host
    have hmem : a ∈ given.trimmed.baseUrl.toList := by
      rw [htrim, htail]
      exact List.mem_append_right _ (List.mem_append_left _ ha)
    refine hplain a (mem_of_mem_trim ?_)
    simpa [trimmed] using hmem
  simp only [schemes, List.mem_cons, List.not_mem_nil, or_false] at hs
  cases e with
  | channel chat =>
    refine ⟨s.2, ?_, _, ?_, hrest⟩
    · rcases hs with rfl | rfl <;> simp
    · rw [Endpoint.root, socketRoot_of_root (by simpa [schemes] using hs) hroot]
      simp
  | _ =>
    refine ⟨s.1, ?_, _, hroot, hrest⟩
    rcases hs with rfl | rfl <;> simp

/-- The session has a name without slashes. -/
theorem session (h : c.Accepted) : c.sessionId.toList ≠ [] ∧ '/' ∉ c.sessionId.toList := by
  obtain ⟨given, -, hbuild⟩ := h
  obtain ⟨rfl, hcheck⟩ := of_build hbuild
  have hsession : trim given.trimmed.sessionId.toList = given.trimmed.sessionId.toList := by
    simp [trimmed, trim_trim]
  unfold validate at hcheck
  simp only [hsession] at hcheck
  split at hcheck
  · cases hcheck
  · split at hcheck
    · cases hcheck
    · split at hcheck
      · cases hcheck
      · rename_i hempty
        split at hcheck
        · cases hcheck
        · rename_i hdivided
          simp only [Bool.or_eq_true, not_or, List.contains_iff_mem] at hdivided
          exact ⟨fun hnil => hempty (by simp [hnil]), hdivided.1⟩

/-- An address of the service is a place with a scheme and a host. -/
theorem root_spec (h : c.Accepted) (e : Endpoint) :
    '?' ∉ e.root c ∧ '#' ∉ e.root c ∧ 3 ≤ (splitOn '/' (e.root c)).length := by
  obtain ⟨scheme, hscheme, rest, hroot, hrest⟩ := h.exists_root e
  simp only [List.mem_cons, List.not_mem_nil, or_false] at hscheme
  have hquery : '?' ∉ rest := fun hmem => (hrest _ hmem).1 rfl
  have hfragment : '#' ∉ rest := fun hmem => (hrest _ hmem).2 rfl
  rw [hroot, length_splitOn, List.count_append]
  rcases hscheme with rfl | rfl | rfl | rfl <;> simp [hquery, hfragment]

/-- The segments of the address of an endpoint of a session with a sound id. -/
theorem url_spec (h : c.Accepted) (hs : IsSegment c.sessionId.toList) {e : Endpoint} (he : e.Fair) :
    AddressParts.read (e.url c) = { place := (e.url c).toList, query := none, fragment := none } ∧
      splitOn '/' (e.url c).toList = splitOn '/' (e.root c) ++ e.segments c.sessionId := by
  have hplain : ∀ s ∈ e.segments c.sessionId, ∀ a ∈ s, a ≠ '/' ∧ a ≠ '?' ∧ a ≠ '#' :=
    fun s hmem => (Endpoint.isSegment_of_mem_segments he hs s hmem).plain
  obtain ⟨hquery, hfragment, -⟩ := h.root_spec e
  have hmem : ∀ a, a ∉ e.root c → (∀ s ∈ e.segments c.sessionId, a ∉ s) → a ≠ '/' →
      a ∉ (e.url c).toList := by
    intro a hroot hsegments hslash ha
    rw [Endpoint.toList_url, List.mem_append, List.mem_flatMap] at ha
    rcases ha with ha | ⟨s, hs, ha⟩
    · exact hroot ha
    · exact (List.mem_cons.1 ha).elim hslash (hsegments s hs)
  constructor
  · exact AddressParts.read_of_not_mem
      (hmem '?' hquery (fun s hs ha => (hplain s hs _ ha).2.1 rfl) (by decide))
      (hmem '#' hfragment (fun s hs ha => (hplain s hs _ ha).2.2 rfl) (by decide))
  · rw [Endpoint.toList_url]
    exact splitOn_append_flatMap _ fun s hs ha => (hplain s hs _ ha).1 rfl

/-- The path of an address ends with the segments of its endpoint. -/
theorem exists_path (h : c.Accepted) (hs : IsSegment c.sessionId.toList) {e : Endpoint}
    (he : e.Fair) :
    ∃ before, (resourceAt (e.url c)).path = before ++ e.segments c.sessionId := by
  obtain ⟨hread, hsplit⟩ := h.url_spec hs he
  have hne : e.segments c.sessionId ≠ [] := by simp [Endpoint.segments]
  refine ⟨(((splitOn '/' (e.root c)).drop 3).foldl takeSegment []).reverse, ?_⟩
  rw [resourceAt, hread, hsplit, List.drop_append_of_le_length (h.root_spec e).2.2]
  exact resolve_append _ hne fun s hmem => (Endpoint.isSegment_of_mem_segments he hs s hmem).not_dots

/-- The addresses of a session lead where they are meant to if its id is a segment. -/
theorem leads (h : c.Accepted) (hs : IsSegment c.sessionId.toList) {e : Endpoint} (he : e.Fair) :
    e.Leads c := by
  have hsegments := Endpoint.isSegment_of_mem_segments he hs
  obtain ⟨hread, -⟩ := h.url_spec hs he
  refine ⟨by rw [hread], by rw [hread], ?_, fun s hmem => (hsegments s hmem).not_dots⟩
  obtain ⟨name, names, hnames⟩ : ∃ name names, e.segments c.sessionId = name :: names :=
    ⟨_, _, rfl⟩
  rw [hnames] at hsegments ⊢
  have hslash : ∀ s ∈ name :: names, '/' ∉ s := fun s hmem ha => ((hsegments s hmem).plain _ ha).1 rfl
  obtain ⟨hname, hrest⟩ := List.forall_mem_cons.1 hslash
  refine ⟨name ++ names.flatMap ('/' :: ·), ?_, ?_⟩
  · rw [hread, Endpoint.toList_url, hnames, List.flatMap_cons]
    rfl
  · rw [splitOn_append_flatMap _ hrest, splitOn_of_not_mem hname]
    rfl

/-- If they do, the id is a segment. -/
theorem isSegment_of_leads (h : c.Accepted) (hleads : Endpoint.Leads c .chatId) :
    IsSegment c.sessionId.toList := by
  obtain ⟨hquery, hfragment, -, hdots⟩ := hleads
  obtain ⟨hquery, hfragment⟩ := AddressParts.not_mem_of_read hquery hfragment
  have hmem : ∀ a ∈ c.sessionId.toList, a ∈ (Endpoint.url c .chatId).toList := by
    intro a ha
    rw [Endpoint.toList_url, List.mem_append, List.mem_flatMap]
    exact Or.inr ⟨c.sessionId.toList, by simp [Endpoint.segments], List.mem_cons_of_mem _ ha⟩
  refine ⟨h.session.1, fun a ha => ⟨?_, ?_, ?_⟩, hdots _ (by simp [Endpoint.segments])⟩
  · rintro rfl
    exact h.session.2 ha
  · rintro rfl
    exact hquery (hmem _ ha)
  · rintro rfl
    exact hfragment (hmem _ ha)

/-- **The addresses of a session lead where they are meant to exactly if its id is a segment of a
path.**  Two sessions of which this holds share no address, nor even a path. -/
theorem leads_iff {c : Config} (h : c.Accepted) :
    ((∀ e : Endpoint, e.Fair → e.Leads c) ↔ IsSegment c.sessionId.toList) ∧
    (IsSegment c.sessionId.toList → ∀ c' : Config, c'.Accepted → IsSegment c'.sessionId.toList →
      c'.sessionId ≠ c.sessionId → ∀ e e' : Endpoint, e.Fair → e'.Fair →
        (resourceAt (e.url c)).path ≠ (resourceAt (e'.url c')).path) := by
  constructor
  · constructor
    · intro hleads
      exact h.isSegment_of_leads (hleads .chatId (by unfold Endpoint.Fair; decide))
    · intro hs e he
      exact h.leads hs he
  · intro hs c' h' hs' hne e e' he he' heq
    obtain ⟨before, hpath⟩ := h.exists_path hs he
    obtain ⟨before', hpath'⟩ := h'.exists_path hs' he'
    rw [hpath, hpath', Endpoint.segments, Endpoint.segments, ← List.append_assoc,
      ← List.append_assoc] at heq
    have hlast : e.below.getLast? = e'.below.getLast? := by
      have hl := congrArg List.getLast? heq
      rwa [Endpoint.getLast?_append_below, Endpoint.getLast?_append_below] at hl
    obtain ⟨hstart, -⟩ := List.append_inj' heq (Endpoint.length_below_eq hlast)
    have hsession := congrArg List.getLast? hstart
    refine hne (String.toList_inj.1 ?_)
    simpa using hsession.symm

/-- Two sessions of one service. -/
theorem leads_support :
    Accepted { baseUrl := "https://bots.example.com/", sessionId := "support" } ∧
    Accepted { baseUrl := "https://bots.example.com/", sessionId := "sales" } ∧
    (∀ e : Endpoint, e.Fair →
      e.Leads { baseUrl := "https://bots.example.com/", sessionId := "support" }) ∧
    (resourceAt "https://bots.example.com/api/chat/support/c1/history").path ≠
      (resourceAt "https://bots.example.com/api/chat/sales/c1/history").path := by
  have hsupport : Accepted { baseUrl := "https://bots.example.com/", sessionId := "support" } :=
    of_validate (by decide +kernel) (by decide +kernel) rfl
  have hsales : Accepted { baseUrl := "https://bots.example.com/", sessionId := "sales" } :=
    of_validate (by decide +kernel) (by decide +kernel) rfl
  have hs : IsSegment "support".toList := by decide
  have hchat : Endpoint.Fair (.history "c1") := by unfold Endpoint.Fair; decide
  exact ⟨hsupport, hsales, (leads_iff hsupport).1.2 hs,
    (leads_iff hsupport).2 hs _ hsales (by decide) (by decide) (.history "c1") (.history "c1")
      hchat hchat⟩

/-- A number sign is accepted in the id of a session, and cuts the address: two such sessions have
one resource. -/
theorem not_leads_number_sign :
    Accepted { baseUrl := "https://x", sessionId := "team#1" } ∧
    Accepted { baseUrl := "https://x", sessionId := "team#2" } ∧
    ¬ Endpoint.Leads { baseUrl := "https://x", sessionId := "team#1" } .chatId ∧
    resourceAt (Endpoint.url { baseUrl := "https://x", sessionId := "team#1" } .chatId) =
      resourceAt (Endpoint.url { baseUrl := "https://x", sessionId := "team#2" } .chatId) :=
  ⟨of_validate (by decide +kernel) (by decide +kernel) rfl,
    of_validate (by decide +kernel) (by decide +kernel) rfl,
    fun h => absurd h.fragment (by decide +kernel), by decide +kernel⟩

end Accepted

end Config
end Chat
end AnswerStream
