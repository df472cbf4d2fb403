import Mathlib.Data.List.Forall2
import Oclaw.AgentCore.ContextBudget
import Oclaw.Lib.CharBoundary

/-!
# Pruning old tool results

`floor_char_boundary` of `crates/agent-core/src/str_util.rs` and `prune_tool_results` of
`pruning.rs`, with the slices that would panic inside a character. A trimmed result is
short enough not to be trimmed again.
-/

namespace Oclaw.AgentCore

open Oclaw.Lib

variable {s p q : List Char} {i j n : ℕ} {ms pre post : List ChatMessage} {m a : ChatMessage}
  {config : PruningConfig}

/-! ## §1  Boundaries -/

/-- The loop of `floor_char_boundary`. -/
def floorLoop (s : List Char) : ℕ → ℕ
  | 0 => 0
  | i + 1 => if isCharBoundary s (i + 1) then i + 1 else floorLoop s i

def floorCharBoundary (s : List Char) (index : ℕ) : ℕ :=
  if byteLen s ≤ index then byteLen s else floorLoop s index

/-- The loop stops at the last boundary that is not behind its start. -/
theorem floorLoop_spec (s : List Char) (i : ℕ) : floorLoop s i ≤ i ∧
    isCharBoundary s (floorLoop s i) = true ∧
      ∀ j, j ≤ i → isCharBoundary s j = true → j ≤ floorLoop s i := by
  induction i with
  | zero => exact ⟨Nat.le_refl 0, rfl, fun j hj _ => hj⟩
  | succ i ih =>
      obtain ⟨hle, hboundary, hlast⟩ := ih
      rw [floorLoop]
      split
      · rename_i hstop
        exact ⟨Nat.le_refl _, hstop, fun j hj _ => hj⟩
      · rename_i hgo
        refine ⟨Nat.le_succ_of_le hle, hboundary, ?_⟩
        intro j hj hb
        rcases Nat.lt_or_ge i j with hlt | hge
        · obtain rfl : j = i + 1 := by omega
          exact absurd hb hgo
        · exact hlast j hge hb

theorem floorCharBoundary_eq (s : List Char) (n : ℕ) :
    floorCharBoundary s n = byteLen (floorStart n s) := by
  unfold floorCharBoundary
  split
  · rename_i hle
    rw [floorStart_of_le hle]
  · obtain ⟨hle, hboundary, hlast⟩ := floorLoop_spec s n
    apply Nat.le_antisymm
    · obtain ⟨p, q, hcut⟩ := isCharBoundary_iff.mp hboundary
      obtain ⟨hs, hp⟩ := cutAt_eq_some_iff.mp hcut
      have hstart : p <+: floorStart n s := isPrefix_floorStart ⟨q, hs.symm⟩ (hp ▸ hle)
      rw [← hp]
      exact byteLen_le_of_isPrefix hstart
    · obtain ⟨q, hs⟩ := floorStart_isPrefix n s
      apply hlast _ (byteLen_floorStart_le n s)
      exact isCharBoundary_iff.mpr ⟨_, q, cutAt_eq_some_iff.mpr ⟨hs.symm, rfl⟩⟩

/-- The start and the end of a text at a floored position. -/
theorem cut_floorCharBoundary (s : List Char) (n : ℕ) :
    strTo s (floorCharBoundary s n) = some (floorStart n s) ∧
      strFrom s (floorCharBoundary s n) = some (s.drop (floorStart n s).length) := by
  rw [floorCharBoundary_eq]
  have hto := strTo_append (floorStart n s) (s.drop (floorStart n s).length)
  have hfrom := strFrom_append (floorStart n s) (s.drop (floorStart n s).length)
  rw [floorStart_append_drop] at hto hfrom
  exact ⟨hto, hfrom⟩

/-! ## §2  One result -/

/-- One result with its slices; `none` is a slice inside a character. -/
def pruneSlices (config : PruningConfig) (content : String) : Option String :=
  let s := content.toList
  let len := byteLen s
  if config.hardClearMaxChars < len then
    some ("[Tool result cleared — " ++ toString len ++ " chars]")
  else if config.softTrimMaxChars < len then do
    let headEnd := floorCharBoundary s (min config.headChars len)
    let tailStart := floorCharBoundary s (len - config.tailChars)
    let head ← strTo s headEnd
    let tail ← strFrom s tailStart
    return String.ofList head ++ "...\n[trimmed — " ++ toString len ++ " chars total]\n..." ++
      String.ofList tail
  else some content

theorem pruneSlices_eq (config : PruningConfig) (content : String) :
    pruneSlices config content = some (pruneContent config content) := by
  simp only [pruneSlices, pruneContent, (cut_floorCharBoundary _ _).1,
    (cut_floorCharBoundary _ _).2]
  split
  · rfl
  · split <;> rfl

/-- A length has at most 20 digits. -/
theorem byteLen_toString_le (h : n ≤ usizeMax) : byteLen (toString n).toList ≤ 20 := by
  rw [byteLen_toString]
  exact (Nat.length_toDigits_le_iff (by decide) (by decide)).mpr
    (Nat.lt_of_le_of_lt h (by decide))

theorem byteLen_drop_floorStart (s : List Char) (i : ℕ) :
    byteLen (s.drop (floorStart (byteLen s - i) s).length) ≤ i + 3 := by
  have hlost := le_byteLen_floorStart (n := byteLen s - i) (s := s) (Nat.sub_le _ _)
  have hlen := congrArg byteLen (floorStart_append_drop (byteLen s - i) s)
  rw [byteLen_append] at hlen
  omega

/-- A trimmed result is within the soft limit: both ends, the marker with a length of 20
digits and three bytes by which the end may start early. -/
structure PruningConfig.Roomy (config : PruningConfig) : Prop where
  trimmed : config.headChars + config.tailChars + 57 ≤ config.softTrimMaxChars
  ordered : config.softTrimMaxChars ≤ config.hardClearMaxChars

theorem roomy_default : PruningConfig.default.Roomy := ⟨by decide, by decide⟩

theorem PruningConfig.Roomy.byteLen_pruneContent (hroomy : config.Roomy) (content : String)
    (h : byteLen content.toList ≤ usizeMax) :
    byteLen (pruneContent config content).toList ≤ config.softTrimMaxChars := by
  have htrimmed := hroomy.trimmed
  have hdigits := byteLen_toString_le h
  unfold pruneContent
  simp only
  by_cases hhard : config.hardClearMaxChars < byteLen content.toList
  · have hopen : byteLen "[Tool result cleared — ".toList = 25 := by decide
    have hclose : byteLen " chars]".toList = 7 := by decide
    rw [if_pos hhard]
    simp only [String.toList_append, byteLen_append]
    omega
  · rw [if_neg hhard]
    by_cases hsoft : config.softTrimMaxChars < byteLen content.toList
    · have hhead := byteLen_floorStart_le (min config.headChars (byteLen content.toList))
        content.toList
      have htail := byteLen_drop_floorStart content.toList config.tailChars
      have hopen : byteLen "...\n[trimmed — ".toList = 17 := by decide
      have hclose : byteLen " chars total]\n...".toList = 17 := by decide
      rw [if_pos hsoft]
      simp only [String.toList_append, String.toList_ofList, byteLen_append]
      omega
    · rw [if_neg hsoft]
      omega

/-- A result within the soft limit is not touched. -/
theorem PruningConfig.Roomy.pruneContent_of_le (hroomy : config.Roomy) (content : String)
    (h : byteLen content.toList ≤ config.softTrimMaxChars) :
    pruneContent config content = content := by
  have hordered := hroomy.ordered
  unfold pruneContent
  simp only
  rw [if_neg (by omega), if_neg (by omega)]

/-! ## §3  All results -/

/-- The ids that the last assistant messages call. -/
def protectedTcIds (config : PruningConfig) (messages : List ChatMessage) : List String :=
  ((messages.reverse.filter (fun m => m.role == .assistant)).take
    config.keepLastAssistants).flatMap (fun m => (m.toolCalls.getD []).map ToolCall.id)

def pruneMessage (config : PruningConfig) (ids : List String) (m : ChatMessage) : ChatMessage :=
  if m.role ≠ .tool then m
  else if m.toolCallId.any (fun id => decide (id ∈ ids)) then m
  else { m with content := pruneContent config m.content }

theorem pruneToolResults_eq (config : PruningConfig) (ms : List ChatMessage) :
    pruneToolResults config ms = ms.map (pruneMessage config (protectedTcIds config ms)) := rfl

/-- The same with the slices. -/
def pruneToolResultsSlices (config : PruningConfig) (messages : List ChatMessage) :
    Option (List ChatMessage) :=
  messages.mapM (fun m =>
    if m.role ≠ .tool then some m
    else if m.toolCallId.any (fun id => decide (id ∈ protectedTcIds config messages)) then some m
    else (pruneSlices config m.content).map (fun content => { m with content := content }))

theorem pruneToolResultsSlices_eq (config : PruningConfig) (ms : List ChatMessage) :
    pruneToolResultsSlices config ms = some (pruneToolResults config ms) := by
  unfold pruneToolResultsSlices
  rw [pruneToolResults_eq]
  generalize protectedTcIds config ms = ids
  induction ms with
  | nil => rfl
  | cons m ms ih =>
      rw [List.mapM_cons, ih, pruneSlices_eq, List.map_cons, pruneMessage]
      split
      · rfl
      · split <;> rfl

/-- One of the last assistant messages has a call with the id. -/
def IssuedLately (config : PruningConfig) (ms : List ChatMessage) (id : String) : Prop :=
  ∃ older a newer, ms = older ++ a :: newer ∧ id ∈ a.callIds ∧
    newer.countP (fun m => m.role == .assistant) < config.keepLastAssistants

/-- A tool message whose id is not one of those. -/
def Unprotected (config : PruningConfig) (ms : List ChatMessage) (m : ChatMessage) : Prop :=
  m.isTool = true ∧ ∀ id, m.toolCallId = some id → ¬ IssuedLately config ms id

theorem mem_take_filter {α : Type} {f : α → Bool} {x : α} {l : List α} {k : ℕ} :
    x ∈ (l.filter f).take k ↔
      ∃ newer older, l = newer ++ x :: older ∧ f x = true ∧ newer.countP f < k := by
  constructor
  · intro h
    induction l generalizing k with
    | nil => simp at h
    | cons y l ih =>
        by_cases hy : f y = true
        · rw [List.filter_cons_of_pos hy] at h
          cases k with
          | zero => simp at h
          | succ k =>
              rw [List.take_succ_cons] at h
              rcases List.mem_cons.mp h with rfl | h
              · exact ⟨[], l, rfl, hy, Nat.succ_pos _⟩
              · obtain ⟨newer, older, rfl, hx, hcount⟩ := ih h
                refine ⟨y :: newer, older, rfl, hx, ?_⟩
                rw [List.countP_cons_of_pos hy]
                omega
        · rw [List.filter_cons_of_neg hy] at h
          obtain ⟨newer, older, rfl, hx, hcount⟩ := ih h
          refine ⟨y :: newer, older, rfl, hx, ?_⟩
          rw [List.countP_cons_of_neg hy]
          exact hcount
  · rintro ⟨newer, older, rfl, hx, hcount⟩
    rw [List.filter_append, List.filter_cons_of_pos hx, List.take_append,
      ← List.countP_eq_length_filter]
    apply List.mem_append_right _
    rw [show k - newer.countP f = (k - newer.countP f - 1) + 1 by omega, List.take_succ_cons]
    exact List.mem_cons_self

theorem mem_protectedTcIds {id : String} :
    id ∈ protectedTcIds config ms ↔ IssuedLately config ms id := by
  unfold protectedTcIds
  rw [List.mem_flatMap]
  constructor
  · rintro ⟨a, ha, hid⟩
    obtain ⟨newer, older, hrev, hrole, hcount⟩ := mem_take_filter.mp ha
    refine ⟨older.reverse, a, newer.reverse, ?_, ?_, ?_⟩
    · rw [← List.reverse_reverse ms, hrev]
      simp
    · rw [ChatMessage.callIds_of_assistant (beq_iff_eq.mp hrole)]
      exact hid
    · rw [List.countP_reverse]
      exact hcount
  · rintro ⟨older, a, newer, rfl, hid, hcount⟩
    have hrole := ChatMessage.assistant_of_mem_callIds hid
    rw [ChatMessage.callIds_of_assistant hrole] at hid
    refine ⟨a, mem_take_filter.mpr ⟨newer.reverse, older.reverse, by simp, by simp [hrole], ?_⟩,
      hid⟩
    rw [List.countP_reverse]
    exact hcount

theorem pruneMessage_of_unprotected (h : Unprotected config ms m) :
    pruneMessage config (protectedTcIds config ms) m =
      { m with content := pruneContent config m.content } := by
  obtain ⟨htool, hfree⟩ := h
  have hrole : m.role = .tool := ChatMessage.isTool_iff.mp htool
  rw [pruneMessage, if_neg (by simp [hrole]), if_neg]
  cases hid : m.toolCallId with
  | none => exact Bool.false_ne_true
  | some id =>
      rw [Option.any_some, decide_eq_true_eq, mem_protectedTcIds]
      exact hfree id hid

theorem pruneMessage_of_protected (h : ¬ Unprotected config ms m) :
    pruneMessage config (protectedTcIds config ms) m = m := by
  rw [pruneMessage]
  split
  · rfl
  · rename_i hrole
    have htool : m.isTool = true := ChatMessage.isTool_iff.mpr (not_not.mp hrole)
    rw [if_pos]
    by_contra hfree
    refine h ⟨htool, fun id hid hlate => hfree ?_⟩
    rw [hid, Option.any_some, decide_eq_true_eq]
    exact mem_protectedTcIds.mpr hlate

/-- Nothing but the text changes. -/
theorem pruneMessage_eq (config : PruningConfig) (ids : List String) (m : ChatMessage) :
    ∃ content, pruneMessage config ids m = { m with content := content } := by
  unfold pruneMessage
  split
  · exact ⟨m.content, rfl⟩
  · split
    · exact ⟨m.content, rfl⟩
    · exact ⟨_, rfl⟩

theorem role_pruneMessage (config : PruningConfig) (ids : List String) (m : ChatMessage) :
    (pruneMessage config ids m).role = m.role := by
  obtain ⟨content, h⟩ := pruneMessage_eq config ids m
  rw [h]

theorem pruneMessage_of_not_tool {ids : List String} (h : m.role ≠ .tool) :
    pruneMessage config ids m = m := if_pos h

/-- The assistant messages are as before, so the same results are protected. -/
theorem protectedTcIds_pruneToolResults (config : PruningConfig) (ms : List ChatMessage) :
    protectedTcIds config (pruneToolResults config ms) = protectedTcIds config ms := by
  have hassistants : ∀ (ids : List String) (l : List ChatMessage),
      (l.map (pruneMessage config ids)).filter (fun m => m.role == .assistant) =
        l.filter (fun m => m.role == .assistant) := by
    intro ids l
    induction l with
    | nil => rfl
    | cons m l ih =>
        rw [List.map_cons, List.filter_cons, List.filter_cons, role_pruneMessage, ih]
        split
        · rename_i hrole
          rw [pruneMessage_of_not_tool (by rw [beq_iff_eq.mp hrole]; decide)]
        · rfl
  rw [pruneToolResults_eq]
  conv_lhs => rw [protectedTcIds, ← List.map_reverse, hassistants]
  rfl

/-- What pruning promises: it changes only the texts of unprotected tool messages, its
slices are between characters, the texts it may change come out short, and a second time it
changes nothing. -/
structure PrunesSafely (config : PruningConfig) (ms : List ChatMessage) : Prop where
  slices : pruneToolResultsSlices config ms = some (pruneToolResults config ms)
  frame : List.Forall₂ (fun m m' => (∃ content, m' = { m with content := content }) ∧
    (¬ Unprotected config ms m → m' = m)) ms (pruneToolResults config ms)
  short : List.Forall₂ (fun m m' => Unprotected config ms m →
    byteLen m'.content.toList ≤ config.softTrimMaxChars) ms (pruneToolResults config ms)
  idempotent : pruneToolResults config (pruneToolResults config ms) = pruneToolResults config ms

theorem PruningConfig.Roomy.prunesSafely (hroomy : config.Roomy)
    (hsize : ∀ m ∈ ms, byteLen m.content.toList ≤ usizeMax) : PrunesSafely config ms where
  slices := pruneToolResultsSlices_eq config ms
  frame := by
    rw [pruneToolResults_eq, List.forall₂_map_right_iff, List.forall₂_same]
    exact fun m _ => ⟨pruneMessage_eq _ _ m, pruneMessage_of_protected⟩
  short := by
    rw [pruneToolResults_eq, List.forall₂_map_right_iff, List.forall₂_same]
    intro m hm hfree
    rw [pruneMessage_of_unprotected hfree]
    exact hroomy.byteLen_pruneContent m.content (hsize m hm)
  idempotent := by
    rw [pruneToolResults_eq config (pruneToolResults config ms), protectedTcIds_pruneToolResults,
      pruneToolResults_eq, List.map_map]
    apply List.map_congr_left
    intro m hm
    rw [Function.comp_apply]
    by_cases hfree : Unprotected config ms m
    · -- a pruned message is unprotected as before, and short
      have hagain : Unprotected config ms { m with content := pruneContent config m.content } :=
        hfree
      rw [pruneMessage_of_unprotected hfree, pruneMessage_of_unprotected hagain]
      rw [hroomy.pruneContent_of_le _ (hroomy.byteLen_pruneContent m.content (hsize m hm))]
    · rw [pruneMessage_of_protected hfree, pruneMessage_of_protected hfree]

/-- With the default settings pruning is safe. A text has no more bytes than fit a `usize`. -/
theorem prune_safe (ms : List ChatMessage)
    (hsize : ∀ m ∈ ms, byteLen m.content.toList ≤ usizeMax) :
    PrunesSafely .default ms :=
  roomy_default.prunesSafely hsize

/-- A result of 8002 bytes without an id. -/
def longResult : ChatMessage :=
  plainMessage .tool (String.ofList (List.replicate 4001 'é'))

theorem longResult_pruned_safely : PrunesSafely .default [longResult] :=
  prune_safe [longResult] (by
    intro m hm
    rw [List.mem_singleton.mp hm, longResult, plainMessage, String.toList_ofList,
      byteLen_replicate]
    decide)

end Oclaw.AgentCore
