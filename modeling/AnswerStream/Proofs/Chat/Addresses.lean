import AnswerStream.Chat.Config
import AnswerStream.Json.Reader
import AnswerStream.Proofs.Text.Trim

/-!
# The address of the streaming channel

A chat has several addresses, and all of them start with the base address.  The streaming
channel has a scheme of its own, which is put in the place of the service's; apart from that
and the last segment, its address should be that of the chat's history (`SocketFollows`).

## Three readings of one text

A check trims the base address before it looks for a scheme, a configuration that is built has
been trimmed for good, and the addresses are derived from the text as it stands.  So there are
configurations that pass the check although the scheme is not found where the address of the
channel looks for it.  These are the ones whose base address starts with white space
(`socketFollows_iff`); white space at its end does no harm, and what is built has none
(`socketFollows_of_build`).
-/

namespace AnswerStream
namespace Chat
namespace Config

open Text

/-! ## Schemes -/

/-- The schemes of a service, each with that of its streaming channels. -/
def schemes : List (String × String) := [("https://", "wss://"), ("http://", "ws://")]

/-- The base address has a scheme, white space around it aside. -/
def HasScheme (c : Config) (scheme : String) : Prop := scheme.toList <+: trim c.baseUrl.toList

/-- The address of a chat's streaming channel is that of its history, with the scheme of
channels and another last segment. -/
def SocketFollows (c : Config) (chatId : String) : Prop :=
  ∃ s ∈ schemes, c.HasScheme s.1 ∧ ∃ path : String,
    c.historyUrl chatId = s.1 ++ path ++ "history" ∧ c.socketUrl chatId = s.2 ++ path ++ "ws"

theorem after?_append (pre : String) (rest : List Char) :
    after? pre (pre.toList ++ rest) = some rest := by
  unfold after?
  rw [if_pos (List.isPrefixOf_iff_prefix.2 (List.prefix_append ..)), ← String.length_toList,
    List.drop_left]

theorem eq_append_of_after? {pre : String} {text rest : List Char}
    (h : after? pre text = some rest) : text = pre.toList ++ rest := by
  unfold after? at h
  split at h
  · rename_i hprefix
    obtain ⟨rest', rfl⟩ := List.isPrefixOf_iff_prefix.1 hprefix
    rw [← String.length_toList, List.drop_left] at h
    rw [Option.some.inj h]
  · cases h

/-- A text that starts with another character starts with no scheme. -/
theorem after?_of_head {text : List Char} {a : Char} (hhead : text.head? = some a) (ha : a ≠ 'h') :
    after? "https://" text = none ∧ after? "http://" text = none := by
  cases text with
  | nil => cases hhead
  | cons b rest =>
    obtain rfl := Option.some.inj hhead
    simp [after?, Ne.symm ha]

/-- What a check has found out about the base address: it has a scheme and a host. -/
theorem exists_scheme {c : Config} (h : c.validate = .ok ()) :
    ∃ s ∈ schemes, ∃ host, trim c.baseUrl.toList = s.1.toList ++ host ∧ ∃ a ∈ host, a ≠ '/' := by
  unfold validate at h
  dsimp only at h
  split at h
  · cases h
  · rename_i host hscheme
    have hhost : ∃ a ∈ host, a ≠ '/' := by
      split at h
      · cases h
      · rename_i hall
        simpa using hall
    unfold afterScheme? at hscheme
    cases hhttps : after? "https://" (trim c.baseUrl.toList) with
    | some rest =>
      rw [hhttps] at hscheme
      obtain rfl : rest = host := Option.some.inj hscheme
      exact ⟨("https://", "wss://"), by simp [schemes], rest, eq_append_of_after? hhttps, hhost⟩
    | none =>
      rw [hhttps] at hscheme
      exact ⟨("http://", "ws://"), by simp [schemes], host, eq_append_of_after? hscheme, hhost⟩

/-! ## The root -/

/-- The slashes at the end of an address are no part of its scheme. -/
theorem root_of_scheme {c : Config} {scheme : String} {host : List Char}
    (hbase : c.baseUrl.toList = scheme.toList ++ host) (hhost : ∃ a ∈ host, a ≠ '/') :
    c.root = scheme.toList ++ dropEndWhile (· == '/') host := by
  obtain ⟨a, ha, hslash⟩ := hhost
  have hkept : dropEndWhile (· == '/') host ≠ [] := by
    obtain ⟨tail, htail, hslashes⟩ := dropEndWhile_append (· == '/') host
    intro hnil
    rw [hnil, List.nil_append] at htail
    rw [htail] at ha
    exact hslash (by simpa using hslashes a ha)
  rw [root, hbase, dropEndWhile_append_eq, if_neg hkept]

/-- The scheme of channels is put in the place of the service's. -/
theorem socketRoot_of_root {c : Config} {s : String × String} (hs : s ∈ schemes) {rest : List Char}
    (hroot : c.root = s.1.toList ++ rest) : c.socketRoot = s.2 ++ String.ofList rest := by
  simp only [schemes, List.mem_cons, List.not_mem_nil, or_false] at hs
  unfold socketRoot
  rw [hroot]
  rcases hs with rfl | rfl
  · rw [after?_append]
  · rw [after?_append, show after? "https://" ("http://".toList ++ rest) = none from rfl]

/-- An address that starts with white space keeps its scheme. -/
theorem head_socketUrl_of_blank {c : Config} {a : Char} (hhead : c.baseUrl.toList.head? = some a)
    (ha : isBlank a = true) (chatId : String) : (c.socketUrl chatId).toList.head? = some a := by
  have hne : ∀ {b}, isBlank b = false → a ≠ b := by
    rintro b hb rfl
    rw [ha] at hb
    cases hb
  have hroot : c.root.head? = some a := by
    cases hbase : c.baseUrl.toList with
    | nil =>
      rw [hbase] at hhead
      cases hhead
    | cons b base =>
      rw [hbase] at hhead
      obtain rfl := Option.some.inj hhead
      have hslash : ∀ d ∈ [b].getLast?, (d == '/') = false := by
        simpa using hne (b := '/') (by decide)
      rw [root, hbase]
      exact congrArg List.head? (dropEndWhile_append_of_last hslash base)
  obtain ⟨hhttps, hhttp⟩ := after?_of_head hroot (hne (by decide))
  have hsocket : c.socketRoot = String.ofList c.root := by
    unfold socketRoot
    rw [hhttps, hhttp]
  rw [socketUrl, hsocket, String.toList_append, String.toList_ofList,
    head?_append_left (by rintro h; rw [h] at hroot; cases hroot), hroot]

/-! ## The address of the channel -/

/-- The address of the channel of a checked configuration, if white space does not come first. -/
theorem socketFollows_of_head {c : Config} (h : c.validate = .ok ())
    (hhead : ∀ a ∈ c.baseUrl.toList.head?, isBlank a = false) (chatId : String) :
    c.SocketFollows chatId := by
  obtain ⟨s, hs, host, htrim, hhost⟩ := exists_scheme h
  have hstart : trimStart c.baseUrl.toList = c.baseUrl.toList :=
    dropWhile_eq_self hhead
  obtain ⟨tail, htail, -⟩ := dropEndWhile_append isBlank c.baseUrl.toList
  have hbase : c.baseUrl.toList = s.1.toList ++ (host ++ tail) := by
    rw [trim, hstart] at htrim
    rw [← List.append_assoc, ← htrim]
    exact htail
  obtain ⟨a, ha, hslash⟩ := hhost
  have hroot := root_of_scheme hbase ⟨a, List.mem_append_left _ ha, hslash⟩
  refine ⟨s, hs, ⟨host, htrim.symm⟩, String.ofList (dropEndWhile (· == '/') (host ++ tail)) ++
    ("/api/chat/" ++ c.sessionId ++ "/" ++ chatId ++ "/"), ?_, ?_⟩
  · rw [historyUrl, address, hroot, String.ofList_append, String.ofList_toList]
    simp only [chatPath, String.append_assoc]
  · rw [socketUrl, socketRoot_of_root hs hroot]
    simp only [chatPath, String.append_assoc]

/-- An address that starts with white space has no scheme of channels. -/
theorem not_socketFollows_of_head {c : Config} {a : Char} (hhead : c.baseUrl.toList.head? = some a)
    (ha : isBlank a = true) (chatId : String) : ¬ c.SocketFollows chatId := by
  rintro ⟨s, hs, -, path, -, hsocket⟩
  have hw : (c.socketUrl chatId).toList.head? = some 'w' := by
    rw [hsocket]
    simp only [schemes, List.mem_cons, List.not_mem_nil, or_false] at hs
    rcases hs with rfl | rfl <;> simp
  rw [head_socketUrl_of_blank hhead ha chatId] at hw
  obtain rfl := Option.some.inj hw
  cases ha

/-- **The address of the channel follows that of the history exactly if the base address does
not start with white space.** -/
theorem socketFollows_iff {c : Config} (h : c.validate = .ok ()) (chatId : String) :
    c.SocketFollows chatId ↔ ∀ a ∈ c.baseUrl.toList.head?, isBlank a = false := by
  refine ⟨fun hfollows a ha => ?_, fun hhead => socketFollows_of_head h hhead chatId⟩
  rw [Bool.eq_false_iff]
  exact fun hblank => not_socketFollows_of_head ha hblank chatId hfollows

/-- White space at the end of the base address stays inside the address of the channel. -/
theorem socketFollows_blank_end :
    ({ baseUrl := "https://x/ ", sessionId := "s" } : Config).SocketFollows "c1" ↔
      ∀ a ∈ "https://x/ ".toList.head?, isBlank a = false :=
  socketFollows_iff rfl "c1"

/-- A configuration can be read and passes the check, and the address of its channel has no
scheme of channels. -/
theorem not_socketFollows_blank_start :
    (Json.parse? "\x7b\"base_url\":\" https://x\",\"session_id\":\"s\"\x7d").bind ofJson? =
        some { baseUrl := " https://x", sessionId := "s" } ∧
      ({ baseUrl := " https://x", sessionId := "s" } : Config).validate = .ok () ∧
      ({ baseUrl := " https://x", sessionId := "s" } : Config).socketUrl "c1" =
        " https://x/api/chat/s/c1/ws" ∧
      ¬ ({ baseUrl := " https://x", sessionId := "s" } : Config).SocketFollows "c1" :=
  ⟨by decide +kernel, rfl, by decide +kernel,
    not_socketFollows_of_head (a := ' ') rfl (by decide) "c1"⟩

/-! ## Configurations that are built -/

/-- What is built is trimmed and passes the check. -/
theorem of_build {c built : Config} (h : c.build = .ok built) :
    c.trimmed = built ∧ built.validate = .ok () := by
  unfold build at h
  cases hcheck : c.trimmed.validate with
  | error e =>
    rw [hcheck] at h
    cases h
  | ok _ =>
    rw [hcheck] at h
    obtain rfl : c.trimmed = built := Except.ok.inj h
    exact ⟨rfl, hcheck⟩

/-- **The address of the channel of a configuration that is built follows that of the history.** -/
theorem socketFollows_of_build {c built : Config} (h : c.build = .ok built) (chatId : String) :
    built.SocketFollows chatId := by
  obtain ⟨rfl, hcheck⟩ := of_build h
  refine socketFollows_of_head hcheck ?_ chatId
  simpa [trimmed] using head_trim c.baseUrl.toList

end Config
end Chat
end AnswerStream
