import Oclaw.Gateway.SessionKey

/-!
# Which chats share a session

`build_session_id` joins platform identifiers with an underscore. This module
states what the scopes promise for a pair of chats and says exactly which pairs
keep the promise: those that are not one text cut at two different underscores,
and, for a direct chat beside a group, those that do not carry the same names.
-/

namespace Oclaw.Gateway

open Oclaw.Lib

/-! ## What isolation asks of two chats -/

/-- The arguments `build_session_id` takes from one message, identity links aside. -/
structure Chat : Type where
  channel : String
  chatId : String
  isGroup : Bool
  accountId : Option String

namespace Chat

variable (scope : DmScope) (x y : Chat)

def sessionId : String :=
  buildSessionId x.channel x.chatId x.isGroup scope none x.accountId

def account : String := x.accountId.getD "default"

/-- What stands behind the channel in the id of the finest scope. -/
def accountPeer : String := x.account ++ "_" ++ x.chatId

end Chat

/-- **Isolation of a pair.** Two groups share an id only when they are the same
chat of the same channel, a direct chat and a group never do, and two direct
chats only as far as the scope merges them. -/
def Isolated (scope : DmScope) (x y : Chat) : Prop :=
  match x.isGroup, y.isGroup with
  | true, true =>
      x.sessionId scope = y.sessionId scope → x.channel = y.channel ∧ x.chatId = y.chatId
  | false, false =>
      x.sessionId scope = y.sessionId scope →
        match scope with
        | .perAccountChannelPeer =>
            x.channel = y.channel ∧ x.account = y.account ∧ x.chatId = y.chatId
        | .perChannelPeer => x.channel = y.channel ∧ x.chatId = y.chatId
        | .perPeer | .main => True
  | _, _ => x.sessionId scope ≠ y.sessionId scope

/-! ## When the joined names clash -/

/-- The two pairs of names are one text cut at two different underscores. -/
def RecutNames (a b a' b' : String) : Prop :=
  Recut '_' a.toList b.toList a'.toList b'.toList

/-- Nothing in the names of a direct chat imitates the names of a group. -/
def DirectApart (scope : DmScope) (direct group : Chat) : Prop :=
  match scope with
  | .main => True
  | .perPeer => direct.chatId ≠ group.channel ++ "_" ++ group.chatId
  | .perChannelPeer =>
      ¬ (direct.channel = group.channel ∧ direct.chatId = group.chatId) ∧
      ¬ RecutNames direct.channel direct.chatId group.channel group.chatId
  | .perAccountChannelPeer =>
      ¬ (direct.channel = group.channel ∧ direct.accountPeer = group.chatId) ∧
      ¬ RecutNames direct.channel direct.accountPeer group.channel group.chatId

/-- The names of two chats do not clash under a scope. -/
def NamesApart (scope : DmScope) (x y : Chat) : Prop :=
  match x.isGroup, y.isGroup with
  | true, true => ¬ RecutNames x.channel x.chatId y.channel y.chatId
  | false, false =>
      match scope with
      | .perAccountChannelPeer =>
          ¬ RecutNames x.channel x.accountPeer y.channel y.accountPeer ∧
          (x.channel = y.channel → ¬ RecutNames x.account x.chatId y.account y.chatId)
      | .perChannelPeer => ¬ RecutNames x.channel x.chatId y.channel y.chatId
      | .perPeer | .main => True
  | false, true => DirectApart scope x y
  | true, false => DirectApart scope y x

theorem joinedNames_eq_iff {a b a' b' : String} :
    a ++ "_" ++ b = a' ++ "_" ++ b' ↔ (a = a' ∧ b = b') ∨ RecutNames a b a' b' := by
  have hjoin : ∀ c d : String, (c ++ "_" ++ d).toList = c.toList ++ '_' :: d.toList := by
    intro c d
    simp
  rw [← String.toList_inj, hjoin, hjoin, joined_eq_iff, String.toList_inj, String.toList_inj]
  rfl

theorem RecutNames.ne {a b a' b' : String} (h : RecutNames a b a' b') : a ≠ a' := by
  rintro rfl
  exact Recut.ne h rfl

/-- The equation of two joined texts forces their parts exactly when no recut is
possible. -/
theorem joinedNames_injective_iff {a b a' b' : String} :
    (a ++ "_" ++ b = a' ++ "_" ++ b' → a = a' ∧ b = b') ↔ ¬ RecutNames a b a' b' := by
  rw [joinedNames_eq_iff]
  constructor
  · intro h hrecut
    exact hrecut.ne (h (.inr hrecut)).1
  · rintro hno (heq | hrecut)
    · exact heq
    · exact absurd hrecut hno

theorem joinedNames_ne_iff {a b a' b' : String} :
    a ++ "_" ++ b ≠ a' ++ "_" ++ b' ↔ ¬ (a = a' ∧ b = b') ∧ ¬ RecutNames a b a' b' := by
  rw [Ne, joinedNames_eq_iff, not_or]

/-! ## The ids, form by form -/

section Ids

variable {scope : DmScope} {x y : Chat}

theorem sessionId_group (hx : x.isGroup = true) :
    x.sessionId scope = x.channel ++ "_" ++ x.chatId := by
  simp [Chat.sessionId, buildSessionId, hx]

theorem sessionId_main (hx : x.isGroup = false) : x.sessionId .main = "main" := by
  simp [Chat.sessionId, buildSessionId, hx]

theorem sessionId_perPeer (hx : x.isGroup = false) : x.sessionId .perPeer = x.chatId := by
  simp [Chat.sessionId, buildSessionId, hx]

theorem sessionId_perChannelPeer (hx : x.isGroup = false) :
    x.sessionId .perChannelPeer = x.channel ++ "_" ++ x.chatId := by
  simp [Chat.sessionId, buildSessionId, hx]

theorem sessionId_perAccountChannelPeer (hx : x.isGroup = false) :
    x.sessionId .perAccountChannelPeer = x.channel ++ "_" ++ x.accountPeer := by
  simp [Chat.sessionId, buildSessionId, hx, Chat.accountPeer, Chat.account, String.append_assoc]

/-- The shared session of the coarsest scope has no underscore in its name, so no
group has it. -/
theorem main_ne_joinedNames (a b : String) : "main" ≠ a ++ "_" ++ b := by
  intro h
  have hmem : '_' ∈ "main".toList := by
    rw [h]
    simp
  exact absurd hmem (by decide)

theorem direct_ne_group_iff (hx : x.isGroup = false) (hy : y.isGroup = true) :
    x.sessionId scope ≠ y.sessionId scope ↔ DirectApart scope x y := by
  rw [sessionId_group hy]
  cases scope with
  | main =>
      rw [sessionId_main hx]
      exact iff_of_true (main_ne_joinedNames _ _) trivial
  | perPeer =>
      rw [sessionId_perPeer hx]
      rfl
  | perChannelPeer =>
      rw [sessionId_perChannelPeer hx]
      exact joinedNames_ne_iff
  | perAccountChannelPeer =>
      rw [sessionId_perAccountChannelPeer hx]
      exact joinedNames_ne_iff

/-- The finest scope joins twice: first the account and the peer, then the
channel and what they were joined to. -/
theorem accountPeers_apart_iff :
    (x.channel ++ "_" ++ x.accountPeer = y.channel ++ "_" ++ y.accountPeer →
      x.channel = y.channel ∧ x.account = y.account ∧ x.chatId = y.chatId) ↔
    ¬ RecutNames x.channel x.accountPeer y.channel y.accountPeer ∧
      (x.channel = y.channel → ¬ RecutNames x.account x.chatId y.account y.chatId) := by
  rw [joinedNames_eq_iff]
  constructor
  · intro h
    refine ⟨fun hrecut => hrecut.ne (h (.inr hrecut)).1, fun hchannel hrecut => ?_⟩
    have hpeer : x.accountPeer = y.accountPeer := joinedNames_eq_iff.mpr (.inr hrecut)
    exact hrecut.ne (h (.inl ⟨hchannel, hpeer⟩)).2.1
  · rintro ⟨houter, hinner⟩ (⟨hchannel, hpeer⟩ | hrecut)
    · exact ⟨hchannel, joinedNames_injective_iff.mpr (hinner hchannel) hpeer⟩
    · exact absurd hrecut houter

end Ids

/-- Names without underscores in every field but the last are always cut where
they were joined. -/
theorem namesApart_of_plain {scope : DmScope} {x y : Chat}
    (hx : '_' ∉ x.channel.toList ∧ '_' ∉ x.account.toList)
    (hy : '_' ∉ y.channel.toList ∧ '_' ∉ y.account.toList)
    (hkind : x.isGroup = y.isGroup) : NamesApart scope x y := by
  unfold NamesApart
  have hchannel : ∀ b b' : String, ¬ RecutNames x.channel b y.channel b' :=
    fun b b' => not_recut_of_not_mem hx.1 hy.1 b.toList b'.toList
  have haccount : ¬ RecutNames x.account x.chatId y.account y.chatId :=
    not_recut_of_not_mem hx.2 hy.2 _ _
  rw [← hkind]
  cases x.isGroup with
  | true => exact hchannel _ _
  | false =>
      cases scope with
      | main => trivial
      | perPeer => trivial
      | perChannelPeer => exact hchannel _ _
      | perAccountChannelPeer => exact ⟨hchannel _ _, fun _ => haccount⟩

/-- **Sessions are isolated exactly where the names do not clash.** -/
theorem isolated_iff_namesApart (scope : DmScope) (x y : Chat) :
    Isolated scope x y ↔ NamesApart scope x y := by
  unfold Isolated NamesApart
  cases hx : x.isGroup <;> cases hy : y.isGroup
  · -- two direct chats
    cases scope with
    | main => simp
    | perPeer => simp
    | perChannelPeer =>
        simp only [sessionId_perChannelPeer hx, sessionId_perChannelPeer hy]
        exact joinedNames_injective_iff
    | perAccountChannelPeer =>
        simp only [sessionId_perAccountChannelPeer hx, sessionId_perAccountChannelPeer hy]
        exact accountPeers_apart_iff
  · exact direct_ne_group_iff hx hy
  · rw [ne_comm]
    exact direct_ne_group_iff hy hx
  · simp only [sessionId_group hx, sessionId_group hy]
    exact joinedNames_injective_iff

/-- Two direct chats of different accounts and peers of one channel share a
session: the underscore of the second account is read as the separator. -/
theorem accounts_share_session :
    ¬ Isolated .perAccountChannelPeer ⟨"feishu", "ou_7f3a", false, some "work"⟩
      ⟨"feishu", "7f3a", false, some "work_ou"⟩ := by
  intro h
  have heq : Chat.sessionId .perAccountChannelPeer ⟨"feishu", "ou_7f3a", false, some "work"⟩ =
      Chat.sessionId .perAccountChannelPeer ⟨"feishu", "7f3a", false, some "work_ou"⟩ := by
    decide
  exact absurd (h heq).2.1 (by decide)

end Oclaw.Gateway
