import Mathlib.Data.List.Induction
import Mathlib.Data.List.TakeWhile
import Oclaw.AgentCore.Agent
import Oclaw.AgentCore.Pruning

/-!
# What the turn limit leaves

`limit_history_turns` of `crates/agent-core/src/history.rs`. The cut is at the end of the
list until the counter reaches the limit, so a history with fewer turns than the limit
loses all of them.
-/

namespace Oclaw.AgentCore

open Oclaw.Lib

/-! ## §1  Turns -/

def leadingSystem (ms : List ChatMessage) : List ChatMessage :=
  ms.takeWhile (fun m => m.role == .system)

/-- The messages behind the leading system messages. -/
def remaining (ms : List ChatMessage) : List ChatMessage :=
  ms.dropWhile (fun m => m.role == .system)

def userCount (ms : List ChatMessage) : ℕ := ms.countP (fun m => m.role == .user)

def StartsWithUser (ms : List ChatMessage) : Prop := ∃ u rest, ms = u :: rest ∧ u.role = .user

/-- The messages from the `k`-th last user message on. -/
structure IsLastTurns (k : ℕ) (ms turns : List ChatMessage) : Prop where
  suffix : turns <:+ ms
  starts : StartsWithUser turns
  count : userCount turns = k

/-- Tool results follow their calls within the same turn. -/
def ResultsInTurn (ms : List ChatMessage) : Prop :=
  ∀ pre m post id, ms = pre ++ m :: post → m.isTool = true → m.toolCallId = some id →
    ∃ older a mid, pre = older ++ a :: mid ∧ id ∈ a.callIds ∧ ∀ x ∈ mid, x.role ≠ .user

/-- What the limit is to leave: everything if there are not more turns than that, else the
last ones behind the leading system messages. The newest user message is sent. -/
structure LimitsTurns (ms : List ChatMessage) (maxTurns : ℕ) : Prop where
  all : userCount ms ≤ maxTurns →
    limitHistoryTurns ms maxTurns = leadingSystem ms ++ remaining ms
  last : maxTurns < userCount ms →
    ∃ turns, IsLastTurns maxTurns (remaining ms) turns ∧
      limitHistoryTurns ms maxTurns = leadingSystem ms ++ turns
  newest : ∀ A : AgentSetup, A.historyLimit = some maxTurns →
    ∀ older u newer, ms = older ++ u :: newer → u.role = .user → userCount newer = 0 →
      u ∈ prepareMessages A ms

variable {ms pre suf turns older newer : List ChatMessage} {m u : ChatMessage} {maxTurns : ℕ}

@[simp] theorem userCount_append : userCount (pre ++ suf) = userCount pre + userCount suf :=
  List.countP_append ..

theorem userCount_cons (m : ChatMessage) (ms : List ChatMessage) : userCount (m :: ms) =
    userCount ms + (if m.role = .user then 1 else 0) := by
  simp [userCount, List.countP_cons]

theorem leadingSystem_append_remaining (ms : List ChatMessage) :
    leadingSystem ms ++ remaining ms = ms := List.takeWhile_append_dropWhile ..

theorem system_of_mem_leading (h : m ∈ leadingSystem ms) : m.role = .system := by
  simpa using List.mem_takeWhile_imp h

theorem userCount_leadingSystem (ms : List ChatMessage) : userCount (leadingSystem ms) = 0 := by
  apply List.countP_eq_zero.mpr
  intro m hm
  rw [system_of_mem_leading hm]
  decide

theorem userCount_remaining (ms : List ChatMessage) : userCount (remaining ms) = userCount ms := by
  conv_rhs => rw [← leadingSystem_append_remaining ms, userCount_append,
    userCount_leadingSystem, Nat.zero_add]

theorem StartsWithUser.userCount_pos (h : StartsWithUser ms) : 0 < userCount ms := by
  obtain ⟨u, rest, rfl, hu⟩ := h
  rw [userCount_cons, if_pos hu]
  exact Nat.succ_pos _

/-- Of a list that starts with a user message, only the whole list has all of its turns. -/
theorem IsLastTurns.eq_of_starts (h : IsLastTurns (userCount ms) ms turns)
    (hstarts : StartsWithUser ms) : turns = ms := by
  obtain ⟨pre, rfl⟩ := h.suffix
  have hpre : userCount pre = 0 := by
    have := h.count
    rw [userCount_append] at this
    omega
  cases pre with
  | nil => rfl
  | cons u pre =>
      obtain ⟨u', rest, heq, hu'⟩ := hstarts
      obtain ⟨rfl, -⟩ := List.cons.inj heq
      rw [userCount_cons, if_pos hu'] at hpre
      omega

/-! ## §2  The cut -/

/-- The scan with the messages `suf` behind it, which hold too few turns. -/
theorem cutScan_spec (pre suf : List ChatMessage) (hsuf : userCount suf < maxTurns) :
    (cutScan maxTurns (userCount suf) pre.reverse = none ∧
      userCount (pre ++ suf) < maxTurns) ∨
    ∃ older u newer, pre = older ++ u :: newer ∧ u.role = .user ∧
      userCount (u :: newer ++ suf) = maxTurns ∧
      cutScan maxTurns (userCount suf) pre.reverse = some older.length := by
  induction pre using List.reverseRecOn generalizing suf with
  | nil => exact Or.inl ⟨rfl, hsuf⟩
  | append_singleton pre m ih =>
      rw [List.reverse_concat, cutScan, List.append_assoc]
      have hcount := userCount_cons m suf
      by_cases huser : m.role = .user
      · rw [if_pos huser] at hcount ⊢
        by_cases hreached : maxTurns ≤ userCount suf + 1
        · refine Or.inr ⟨pre, m, [], rfl, huser, ?_, by simp [hreached]⟩
          rw [List.singleton_append, hcount]
          omega
        · rw [if_neg hreached, ← hcount]
          rcases ih (m :: suf) (by omega) with hnone | ⟨older, u, newer, rfl, hu, hturns, hcut⟩
          · exact Or.inl hnone
          · exact Or.inr ⟨older, u, newer ++ [m], by simp, hu, by simpa using hturns, hcut⟩
      · rw [if_neg huser, Nat.add_zero] at hcount
        rw [if_neg huser, ← hcount]
        rcases ih (m :: suf) (by omega) with hnone | ⟨older, u, newer, rfl, hu, hturns, hcut⟩
        · exact Or.inl hnone
        · exact Or.inr ⟨older, u, newer ++ [m], by simp, hu, by simpa using hturns, hcut⟩

/-- What the cut leaves of the remaining messages. -/
def cutTurns (maxTurns : ℕ) (rest : List ChatMessage) : List ChatMessage :=
  rest.drop ((cutScan maxTurns 0 rest.reverse).getD rest.length)

theorem cutTurns_of_lt (h : userCount ms < maxTurns) : cutTurns maxTurns ms = [] := by
  have hpos : userCount [] < maxTurns := Nat.lt_of_le_of_lt (Nat.zero_le _) h
  rcases cutScan_spec ms [] hpos with ⟨hnone, -⟩ | ⟨older, u, newer, rfl, -, hturns, -⟩
  · rw [cutTurns, show cutScan maxTurns 0 ms.reverse = none from hnone]
    exact List.drop_length
  · rw [List.append_nil] at hturns
    rw [userCount_append, hturns] at h
    omega

theorem cutTurns_of_le (hpos : 0 < maxTurns) (ms : List ChatMessage)
    (h : maxTurns ≤ userCount ms) :
    IsLastTurns maxTurns ms (cutTurns maxTurns ms) := by
  rcases cutScan_spec ms [] hpos with ⟨-, hfew⟩ | ⟨older, u, newer, heq, hu, hturns, hcut⟩
  · rw [List.append_nil] at hfew
    omega
  · rw [List.append_nil] at hturns
    have hcut : cutTurns maxTurns ms = u :: newer := by
      rw [cutTurns, show cutScan maxTurns 0 ms.reverse = some older.length from hcut,
        Option.getD_some, heq, List.drop_left]
    rw [hcut]
    exact ⟨⟨older, heq.symm⟩, ⟨u, newer, rfl, hu⟩, hturns⟩

/-! ## §3  Orphaned results -/

def callsKept (result : List ChatMessage) : List String :=
  result.flatMap (fun m => (m.toolCalls.getD []).map ToolCall.id)

/-- Remove the results whose call is not in the list. -/
def dropOrphans (result : List ChatMessage) : List ChatMessage :=
  result.filter (fun m =>
    if m.role = .tool then m.toolCallId.all (fun id => decide (id ∈ callsKept result)) else true)

theorem limitHistoryTurns_eq (hpos : 0 < maxTurns) : limitHistoryTurns ms maxTurns =
    dropOrphans (leadingSystem ms ++ cutTurns maxTurns (remaining ms)) := by
  unfold limitHistoryTurns
  by_cases hms : ms = []
  · subst hms
    rw [if_pos (Or.inr rfl)]
    rfl
  · rw [if_neg (by rintro (h | h) <;> [omega; exact hms h])]
    rfl

theorem mem_dropOrphans (h : m ∈ ms) (hrole : m.role ≠ .tool) : m ∈ dropOrphans ms := by
  rw [dropOrphans, List.mem_filter, if_neg hrole]
  exact ⟨h, rfl⟩

theorem dropOrphans_eq_self
    (h : ∀ m ∈ ms, m.isTool = true → ∀ id, m.toolCallId = some id → ∃ a ∈ ms, id ∈ a.callIds) :
    dropOrphans ms = ms := by
  apply List.filter_eq_self.mpr
  intro m hm
  split
  · rename_i hrole
    cases hid : m.toolCallId with
    | none => rfl
    | some id =>
        obtain ⟨a, ha, hcall⟩ := h m hm (ChatMessage.isTool_iff.mpr hrole) id hid
        have hkept : id ∈ callsKept ms := by
          refine List.mem_flatMap.mpr ⟨a, ha, ?_⟩
          rw [ChatMessage.callIds_of_assistant (ChatMessage.assistant_of_mem_callIds hcall)]
            at hcall
          exact hcall
        simpa using hkept
  · rfl

theorem dropOrphans_leadingSystem (ms : List ChatMessage) :
    dropOrphans (leadingSystem ms) = leadingSystem ms := by
  apply dropOrphans_eq_self
  intro m hm htool
  rw [ChatMessage.isTool, system_of_mem_leading hm] at htool
  cases htool

/-- A message with no user message behind it is not in front of the user message `u`. -/
theorem mem_of_no_user_between {a : ChatMessage} {mid : List ChatMessage}
    (heq : pre ++ u :: newer = older ++ a :: mid) (hu : u.role = .user)
    (hmid : ∀ x ∈ mid, x.role ≠ .user) : a ∈ u :: newer := by
  rcases List.append_eq_append_iff.mp heq with ⟨c, -, hrest⟩ | ⟨c, -, hrest⟩
  · rw [hrest]
    exact List.mem_append_right _ List.mem_cons_self
  · cases c with
    | nil =>
        rw [List.nil_append] at hrest
        rw [← hrest]
        exact List.mem_cons_self
    | cons w c =>
        obtain ⟨-, hmem⟩ := List.cons.inj hrest
        have hin : u ∈ mid := by
          rw [hmem]
          exact List.mem_append_right _ List.mem_cons_self
        exact absurd hu (hmid u hin)

/-- A result behind the first message of a turn has its call behind it as well. -/
theorem dropOrphans_lastTurns (hresults : ResultsInTurn ms)
    (hturns : IsLastTurns maxTurns (remaining ms) turns) :
    dropOrphans (leadingSystem ms ++ turns) = leadingSystem ms ++ turns := by
  apply dropOrphans_eq_self
  intro m hm htool id hid
  rcases List.mem_append.mp hm with hm | hm
  · rw [ChatMessage.isTool, system_of_mem_leading hm] at htool
    cases htool
  · obtain ⟨newer, post, hsplit⟩ := List.append_of_mem hm
    obtain ⟨cut, hcut⟩ := hturns.suffix
    obtain ⟨u, rest, hu, huser⟩ := hturns.starts
    have heq : ms = (leadingSystem ms ++ cut ++ newer) ++ m :: post := by
      conv_lhs => rw [← leadingSystem_append_remaining ms, ← hcut, hsplit]
      simp
    obtain ⟨older, a, mid, hpre, hcall, hmid⟩ := hresults _ m post id heq htool hid
    cases newer with
    | nil =>
        -- the turns would start with the result
        rw [hsplit, List.nil_append] at hu
        obtain ⟨rfl, -⟩ := List.cons.inj hu
        rw [ChatMessage.isTool, huser] at htool
        cases htool
    | cons v newer =>
        rw [hsplit, List.cons_append] at hu
        obtain ⟨rfl, -⟩ := List.cons.inj hu
        refine ⟨a, List.mem_append_right _ ?_, hcall⟩
        rw [hsplit]
        exact List.mem_append_left _ (mem_of_no_user_between hpre huser hmid)

/-! ## §4  What is left -/

/-- With too few turns for the limit all of them are cut off. -/
theorem limitHistoryTurns_of_lt (h : userCount ms < maxTurns) :
    limitHistoryTurns ms maxTurns = leadingSystem ms := by
  rw [limitHistoryTurns_eq (by omega), cutTurns_of_lt (by rw [userCount_remaining]; exact h),
    List.append_nil, dropOrphans_leadingSystem]

theorem limitHistoryTurns_of_le (hresults : ResultsInTurn ms) (hpos : 0 < maxTurns)
    (h : maxTurns ≤ userCount ms) : ∃ turns, IsLastTurns maxTurns (remaining ms) turns ∧
      limitHistoryTurns ms maxTurns = leadingSystem ms ++ turns := by
  have hturns := cutTurns_of_le hpos (remaining ms) (by rw [userCount_remaining]; exact h)
  refine ⟨_, hturns, ?_⟩
  rw [limitHistoryTurns_eq hpos, dropOrphans_lastTurns hresults hturns]

/-- The newest user message is behind the cut. -/
theorem newest_mem_limitHistoryTurns (hpos : 0 < maxTurns)
    (h : maxTurns ≤ userCount (older ++ u :: newer)) (hu : u.role = .user)
    (hnewer : userCount newer = 0) :
    u ∈ limitHistoryTurns (older ++ u :: newer) maxTurns := by
  have hturns := cutTurns_of_le hpos (remaining (older ++ u :: newer))
    (by rw [userCount_remaining]; exact h)
  rw [limitHistoryTurns_eq hpos]
  refine mem_dropOrphans (List.mem_append_right _ ?_) (by rw [hu]; decide)
  generalize cutTurns maxTurns (remaining (older ++ u :: newer)) = turns at hturns
  have hsuffix : turns <:+ older ++ u :: newer := by
    conv_rhs => rw [← leadingSystem_append_remaining (older ++ u :: newer)]
    exact hturns.suffix.trans (List.suffix_append _ _)
  have hnewest : u :: newer <:+ older ++ u :: newer := List.suffix_append _ _
  rcases List.suffix_or_suffix_of_suffix hsuffix hnewest with hshort | hlong
  · -- the turns start with a user message, which is behind `u` only if it is `u`
    rcases List.suffix_cons_iff.mp hshort with rfl | htail
    · exact List.mem_cons_self
    · obtain ⟨cut, rfl⟩ := htail
      have hstarts := hturns.starts.userCount_pos
      rw [userCount_append] at hnewer
      omega
  · exact hlong.subset List.mem_cons_self

theorem userCount_pruneToolResults (config : PruningConfig) (ids : List String)
    (ms : List ChatMessage) : userCount (ms.map (pruneMessage config ids)) = userCount ms := by
  induction ms with
  | nil => rfl
  | cons m ms ih => rw [List.map_cons, userCount_cons, userCount_cons, ih, role_pruneMessage]

/-- Pruning leaves the user messages alone. -/
theorem newest_mem_prepareMessages {A : AgentSetup} (hA : A.historyLimit = some maxTurns)
    (hpos : 0 < maxTurns) (h : maxTurns ≤ userCount (older ++ u :: newer)) (hu : u.role = .user)
    (hnewer : userCount newer = 0) : u ∈ prepareMessages A (older ++ u :: newer) := by
  unfold prepareMessages
  rw [hA]
  cases A.pruningConfig with
  | none => exact newest_mem_limitHistoryTurns hpos h hu hnewer
  | some config =>
      simp only [pruneToolResults_eq]
      generalize protectedTcIds config (older ++ u :: newer) = ids
      have hcount := userCount_pruneToolResults config ids
      rw [← hcount, List.map_append, List.map_cons] at h
      rw [List.map_append, List.map_cons]
      rw [pruneMessage_of_not_tool (by rw [hu]; decide)] at h ⊢
      exact newest_mem_limitHistoryTurns hpos h hu (by rw [hcount, hnewer])

/-- The limit does what it is to do just when there are more turns than that, or as many
with nothing in front of the first one, or nothing but system messages. -/
theorem limitsTurns_iff (ms : List ChatMessage) (maxTurns : ℕ) (hresults : ResultsInTurn ms)
    (hpos : 1 ≤ maxTurns) :
    LimitsTurns ms maxTurns ↔
      maxTurns < userCount ms ∨ (userCount ms = maxTurns ∧ StartsWithUser (remaining ms)) ∨
        remaining ms = [] := by
  constructor
  · rintro ⟨hall, -, -⟩
    rcases Nat.lt_trichotomy (userCount ms) maxTurns with hfew | heq | hmany
    · have h := hall (Nat.le_of_lt hfew)
      rw [limitHistoryTurns_of_lt hfew, List.self_eq_append_right] at h
      exact Or.inr (Or.inr h)
    · obtain ⟨turns, hturns, h⟩ := limitHistoryTurns_of_le hresults hpos (Nat.le_of_eq heq.symm)
      rw [hall (Nat.le_of_eq heq)] at h
      rw [List.append_cancel_left h]
      exact Or.inr (Or.inl ⟨heq, hturns.starts⟩)
    · exact Or.inl hmany
  · intro hcond
    have hnone : userCount ms < maxTurns → remaining ms = [] := by
      rintro hfew
      rcases hcond with h | ⟨h, -⟩ | h
      · omega
      · omega
      · exact h
    refine ⟨?_, fun hmany => limitHistoryTurns_of_le hresults hpos (Nat.le_of_lt hmany), ?_⟩
    · intro hle
      rcases Nat.lt_or_ge (userCount ms) maxTurns with hfew | hge
      · rw [limitHistoryTurns_of_lt hfew, hnone hfew, List.append_nil]
      · obtain ⟨turns, hturns, h⟩ := limitHistoryTurns_of_le hresults hpos hge
        rw [h]
        rcases hcond with hmany | ⟨heq, hstarts⟩ | hnil
        · omega
        · rw [← heq, ← userCount_remaining] at hturns
          rw [hturns.eq_of_starts hstarts]
        · rw [hnil] at hturns ⊢
          rw [List.suffix_nil.mp hturns.suffix]
    · rintro A hA older u newer rfl hu hnewer
      refine newest_mem_prepareMessages hA hpos ?_ hu hnewer
      by_contra hfew
      -- behind the system messages there would be nothing, not even `u`
      have hcount := userCount_remaining (older ++ u :: newer)
      rw [hnone (by omega), userCount_append, userCount_cons, if_pos hu] at hcount
      have : userCount [] = 0 := rfl
      omega

/-- A system prompt and the first question of a conversation. -/
def firstQuestion : List ChatMessage :=
  [plainMessage .system "You are helpful.", plainMessage .user "What is the weather?"]

theorem firstQuestion_results : ResultsInTurn firstQuestion := by
  intro pre m post id heq htool hid
  have hm : m ∈ firstQuestion := by
    rw [heq]
    exact List.mem_append_right _ List.mem_cons_self
  have hnone : ∀ x ∈ firstQuestion, x.isTool = false := by decide
  rw [hnone m hm] at htool
  cases htool

/-- With a limit of two turns the first question is not sent. -/
theorem firstQuestion_cut_off : ResultsInTurn firstQuestion ∧ 1 ≤ 2 ∧
    ¬ LimitsTurns firstQuestion 2 := by
  refine ⟨firstQuestion_results, by decide, fun h => ?_⟩
  have hall := h.all (by decide)
  rw [limitHistoryTurns_of_lt (by decide)] at hall
  exact absurd hall (by decide)

/-- With a limit of one turn it is. -/
theorem firstQuestion_sent : LimitsTurns firstQuestion 1 :=
  (limitsTurns_iff firstQuestion 1 firstQuestion_results (by decide)).mpr
    (Or.inr (Or.inl ⟨by decide, _, _, rfl, rfl⟩))

end Oclaw.AgentCore
