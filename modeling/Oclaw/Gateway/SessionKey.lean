import Mathlib.Data.List.Basic
import Mathlib.Data.Nat.Notation
import Oclaw.Lib.Delimited

/-!
# Session ids and session keys

`crates/gateway-core/src/session_key.rs`. `build_session_id` says under which id a
chat is queued and locked; identity links are listed in the order in which the
source's hash map iterates. `SessionKey` is the composite key
`channel:chatType:chatId[:userId]` with its parser and its printer, and the
chat types are those of `crates/channel-core/src/types.rs`.
-/

namespace Oclaw.ChannelCore

inductive ChatType : Type where
  | direct
  | group
  | channel
  | thread
deriving DecidableEq

/-- `Display for ChatType` -/
def ChatType.display : ChatType → String
  | .direct => "direct"
  | .group => "group"
  | .channel => "channel"
  | .thread => "thread"

end Oclaw.ChannelCore

namespace Oclaw.Gateway

/-- How direct messages share sessions; `main` is the default. -/
inductive DmScope : Type where
  | main
  | perPeer
  | perChannelPeer
  | perAccountChannelPeer

/-- Canonical peer ids with their `channel:peer` entries. -/
structure IdentityLinks : Type where
  links : List (String × List String)

def IdentityLinks.resolve (l : IdentityLinks) (channel peerId : String) : Option String :=
  let needle := channel ++ ":" ++ peerId
  (l.links.find? (fun entry => entry.2.any (· == needle))).map Prod.fst

def buildSessionId (channel chatId : String) (isGroup : Bool) (scope : DmScope)
    (identityLinks : Option IdentityLinks) (accountId : Option String) : String :=
  if isGroup then channel ++ "_" ++ chatId
  else
    let resolvedPeer :=
      (identityLinks.bind (fun links => links.resolve channel chatId)).getD chatId
    match scope with
    | .main => "main"
    | .perPeer => resolvedPeer
    | .perChannelPeer => channel ++ "_" ++ resolvedPeer
    | .perAccountChannelPeer =>
        channel ++ "_" ++ accountId.getD "default" ++ "_" ++ resolvedPeer

/-! ## Composite session keys -/

open Oclaw.ChannelCore (ChatType)
open Oclaw.Lib

structure SessionKey : Type where
  channel : String
  chatType : ChatType
  chatId : String
  userId : Option String
deriving DecidableEq

/-- `str::splitn` for a character. -/
def splitn (n : ℕ) (sep : Char) (raw : String) : List String :=
  (splitN sep n raw.toList).map String.ofList

/-- Parse `"channel:chatType:chatId[:userId]"`. -/
def SessionKey.parse (raw : String) : Option SessionKey :=
  match splitn 4 ':' raw with
  | channel :: kind :: chatId :: rest =>
      let key (chatType : ChatType) : SessionKey :=
        { channel, chatType, chatId, userId := rest.head? }
      match kind with
      | "direct" => some (key .direct)
      | "group" => some (key .group)
      | "channel" => some (key .channel)
      | "thread" => some (key .thread)
      | _ => none
  | _ => none

/-- `Display for SessionKey` -/
def SessionKey.display (k : SessionKey) : String :=
  k.channel ++ ":" ++ k.chatType.display ++ ":" ++ k.chatId ++
    match k.userId with
    | some uid => ":" ++ uid
    | none => ""

theorem colon_not_mem_display (c : ChatType) : ':' ∉ c.display.toList := by
  cases c <;> decide

/-- The printed key as characters: three or four fields with a colon between. -/
theorem SessionKey.toList_display (k : SessionKey) :
    k.display.toList = k.channel.toList ++ ':' :: (k.chatType.display.toList ++ ':' ::
      (k.chatId.toList ++ (k.userId.elim [] (fun uid => ':' :: uid.toList)))) := by
  unfold SessionKey.display
  cases k.userId <;> simp

/-- The pieces of a printed key whose channel and chat id have no colon. -/
theorem SessionKey.splitn_display {k : SessionKey} (hchannel : ':' ∉ k.channel.toList)
    (hchat : ':' ∉ k.chatId.toList) :
    splitn 4 ':' k.display = k.channel :: k.chatType.display :: k.chatId :: k.userId.toList := by
  unfold splitn
  rw [k.toList_display, splitN_joined hchannel, splitN_joined (colon_not_mem_display _)]
  cases k.userId with
  | none => simp [splitN_of_not_mem hchat]
  | some uid =>
      -- the last piece keeps whatever colons the user id has
      rw [Option.elim_some, splitN_joined hchat]
      simp [splitN]

theorem SessionKey.parse_display {k : SessionKey} (hchannel : ':' ∉ k.channel.toList)
    (hchat : ':' ∉ k.chatId.toList) : SessionKey.parse k.display = some k := by
  unfold SessionKey.parse
  rw [SessionKey.splitn_display hchannel hchat]
  obtain ⟨channel, chatType, chatId, userId⟩ := k
  cases chatType <;> cases userId <;> rfl

/-- The text that three or four pieces were cut from. -/
theorem toList_of_splitn {s a b c : String} {rest : List String}
    (h : splitn 4 ':' s = a :: b :: c :: rest) :
    ':' ∉ a.toList ∧ ':' ∉ c.toList ∧ s.toList = a.toList ++ ':' :: (b.toList ++ ':' ::
      (c.toList ++ rest.head?.elim [] (fun d => ':' :: d.toList))) := by
  unfold splitn at h
  obtain ⟨la, l, hl, rfl, h₁⟩ := List.map_eq_cons_iff.mp h
  obtain ⟨lb, l, rfl, rfl, h₂⟩ := List.map_eq_cons_iff.mp h₁
  obtain ⟨lc, l, rfl, rfl, rfl⟩ := List.map_eq_cons_iff.mp h₂
  obtain ⟨_, hla, hs, hl₁⟩ := splitN_eq_cons_cons hl
  obtain ⟨_, -, rfl, hl₂⟩ := splitN_eq_cons_cons hl₁
  cases l with
  | nil =>
      obtain ⟨hlc, rfl⟩ := splitN_eq_singleton hl₂
      simp [hla, hlc, hs]
  | cons ld l =>
      obtain ⟨_, hlc, rfl, hl₃⟩ := splitN_eq_cons_cons hl₂
      obtain ⟨rfl, rfl⟩ := List.cons.inj hl₃
      simp [hla, hlc, hs]

/-- What an accepted text looks like: it is the printed form of the key read from
it, and the cuts leave no colon in the channel or the chat id. -/
theorem SessionKey.of_parse {s : String} {k : SessionKey} (h : SessionKey.parse s = some k) :
    ':' ∉ k.channel.toList ∧ ':' ∉ k.chatId.toList ∧ k.display = s := by
  unfold SessionKey.parse at h
  split at h
  · rename_i channel kind chatId rest hsplit
    obtain ⟨hchannel, hchat, hs⟩ := toList_of_splitn hsplit
    -- only the names of the four chat types get past the inner match
    have hkey : k.chatType.display = kind ∧
        k = ⟨channel, k.chatType, chatId, rest.head?⟩ := by
      split at h <;> cases h <;> exact ⟨rfl, rfl⟩
    obtain ⟨hkind, hk⟩ := hkey
    refine ⟨by rw [hk]; exact hchannel, by rw [hk]; exact hchat, ?_⟩
    rw [← String.toList_inj, SessionKey.toList_display, hs, hkind, hk]
  · cases h

/-- **Session keys round trip exactly when no colon stands in the wrong field.** The
user id is the last piece of the cut and may hold colons; a colon in the channel
or in the chat id moves a field boundary. The other direction has no exception:
an accepted text is always the printed form of its key. -/
theorem sessionKey_round_trip (k : SessionKey) (s : String) :
    (SessionKey.parse k.display = some k ↔ ':' ∉ k.channel.toList ∧ ':' ∉ k.chatId.toList) ∧
      ∀ k', SessionKey.parse s = some k' → k'.display = s := by
  constructor
  · constructor
    · intro h
      obtain ⟨hchannel, hchat, -⟩ := SessionKey.of_parse h
      exact ⟨hchannel, hchat⟩
    · rintro ⟨hchannel, hchat⟩
      exact SessionKey.parse_display hchannel hchat
  · intro k' h
    exact (SessionKey.of_parse h).2.2

/-- A Matrix room id: the server name behind its colon is read as a user id. -/
theorem matrix_room_key_lost :
    SessionKey.parse (SessionKey.display ⟨"matrix", .group, "!room:example.org", none⟩) =
      some ⟨"matrix", .group, "!room", some "example.org"⟩ ∧
    SessionKey.parse (SessionKey.display ⟨"matrix", .group, "!room:example.org", none⟩) ≠
      some ⟨"matrix", .group, "!room:example.org", none⟩ := by
  decide

end Oclaw.Gateway
