import Oclaw.AgentCore.Chat

/-!
# Transcript repair

`repair_tool_use_result_pairing` of `crates/agent-core/src/transcript_repair.rs`.
One pool of results and one set of answered ids serve the whole conversation, so
a call whose id was answered before gets no result of its own. The output is
paired exactly when no id is called twice.
-/

namespace Oclaw.AgentCore

open Oclaw.Lib

/-! ## §1  The repair pass -/

structure RepairReport : Type where
  addedSynthetic : ℕ
  droppedDuplicates : ℕ
  droppedOrphans : ℕ
  movedResults : Bool
deriving DecidableEq

def syntheticError : String :=
  "[oclaw] missing tool result in session history; " ++
    "inserted synthetic error result for transcript repair."

def makeSyntheticResult (toolCallId toolName : String) : ChatMessage where
  role := .tool
  content := syntheticError
  name := some toolName
  toolCalls := none
  toolCallId := some toolCallId

/-- `result_pool`: the tool results of the conversation by id, in order. -/
def resultPool (messages : List ChatMessage) (id : String) : Option (List ChatMessage) :=
  match messages.filter (fun m => m.isTool && m.toolCallId == some id) with
  | [] => none
  | results => some results

/-- The mutable variables of the pass. -/
structure Repair : Type where
  result : List ChatMessage
  addedSynthetic : ℕ
  droppedDuplicates : ℕ
  seenResultIds : List String

def Repair.start : Repair := ⟨[], 0, 0, []⟩

def Repair.pushSynthetic (st : Repair) (tc : ToolCall) : Repair :=
  { st with
    result := st.result ++ [makeSyntheticResult tc.id tc.function.name]
    addedSynthetic := st.addedSynthetic + 1
    seenResultIds := tc.id :: st.seenResultIds }

/-- The loop over the pooled results of one call; the flag says whether one of
them was placed. -/
def Repair.place (tc : ToolCall) (st : Repair) : List ChatMessage → Repair × Bool
  | [] => (st, false)
  | tr :: rest =>
      if tc.id ∈ st.seenResultIds then
        Repair.place tc { st with droppedDuplicates := st.droppedDuplicates + 1 } rest
      else
        ({ st with seenResultIds := tc.id :: st.seenResultIds, result := st.result ++ [tr] }, true)

def Repair.pairCall (pool : String → Option (List ChatMessage)) (st : Repair) (tc : ToolCall) :
    Repair :=
  match pool tc.id with
  | some results =>
      let (st, placed) := st.place tc results
      if !placed && decide (tc.id ∉ st.seenResultIds) then st.pushSynthetic tc else st
  | none => if tc.id ∉ st.seenResultIds then st.pushSynthetic tc else st

def Repair.visit (pool : String → Option (List ChatMessage)) (st : Repair) (msg : ChatMessage) :
    Repair :=
  if msg.role = .tool then st
  else
    let st := { st with result := st.result ++ [msg] }
    match msg.role, msg.toolCalls with
    | .assistant, some toolCalls => toolCalls.foldl (Repair.pairCall pool) st
    | _, _ => st

/-- The ids of the tool messages, in order. -/
def toolOrder (ms : List ChatMessage) : List String :=
  ms.filterMap (fun m => if m.role = .tool then m.toolCallId else none)

def checkResultsMoved (original repaired : List ChatMessage) : Bool :=
  toolOrder original != toolOrder repaired

def repairToolUseResultPairing (messages : List ChatMessage) :
    List ChatMessage × RepairReport :=
  let st := messages.foldl (Repair.visit (resultPool messages)) Repair.start
  let orphans := messages.countP (fun m =>
    m.role == .tool && m.toolCallId.any (fun id => decide (id ∉ st.seenResultIds)))
  (st.result,
    { addedSynthetic := st.addedSynthetic
      droppedDuplicates := st.droppedDuplicates
      droppedOrphans := orphans
      movedResults := checkResultsMoved messages st.result })

/-! ## §2  What the pass writes

`repaired` is the output as a recursion over the conversation: each kept message is
followed by the answers to those of its calls whose id has not been seen. -/

variable {pool pool' : String → Option (List ChatMessage)}

/-- The result placed for a call that has not been answered. -/
def answerFor (pool : String → Option (List ChatMessage)) (tc : ToolCall) : ChatMessage :=
  match pool tc.id with
  | some (r :: _) => r
  | _ => makeSyntheticResult tc.id tc.function.name

def answers (pool : String → Option (List ChatMessage)) :
    List String → List ToolCall → List ChatMessage
  | _, [] => []
  | seen, tc :: tcs =>
      if tc.id ∈ seen then answers pool seen tcs
      else answerFor pool tc :: answers pool (tc.id :: seen) tcs

def seenAfter : List String → List String → List String
  | seen, [] => seen
  | seen, id :: ids => if id ∈ seen then seenAfter seen ids else seenAfter (id :: seen) ids

def repaired (pool : String → Option (List ChatMessage)) :
    List String → List ChatMessage → List ChatMessage
  | _, [] => []
  | seen, m :: ms =>
      if m.isTool then repaired pool seen ms
      else m :: (answers pool seen m.calls ++ repaired pool (seenAfter seen m.callIds) ms)

theorem place_seen {tc : ToolCall} : ∀ (results : List ChatMessage) (st : Repair),
    tc.id ∈ st.seenResultIds →
      (st.place tc results).2 = false ∧ (st.place tc results).1.result = st.result ∧
        (st.place tc results).1.seenResultIds = st.seenResultIds
  | [], st, _ => ⟨rfl, rfl, rfl⟩
  | tr :: rest, st, h => by
      simp only [Repair.place, h, if_true]
      exact place_seen rest { st with droppedDuplicates := st.droppedDuplicates + 1 } h

/-- A call whose id was answered before leaves the output alone. -/
theorem pairCall_seen {st : Repair} {tc : ToolCall} (h : tc.id ∈ st.seenResultIds) :
    (st.pairCall pool tc).result = st.result ∧
      (st.pairCall pool tc).seenResultIds = st.seenResultIds := by
  unfold Repair.pairCall
  cases pool tc.id with
  | none => simp [h]
  | some results =>
      obtain ⟨hplaced, hresult, hseen⟩ := place_seen results st h
      have hmem : tc.id ∈ (st.place tc results).1.seenResultIds := by
        rw [hseen]
        exact h
      simp only [hplaced, hmem, not_true_eq_false, decide_false, Bool.and_false]
      exact ⟨hresult, hseen⟩

/-- A call with a new id gets exactly one result. -/
theorem pairCall_fresh {st : Repair} {tc : ToolCall} (h : tc.id ∉ st.seenResultIds) :
    (st.pairCall pool tc).result = st.result ++ [answerFor pool tc] ∧
      (st.pairCall pool tc).seenResultIds = tc.id :: st.seenResultIds := by
  unfold Repair.pairCall answerFor
  cases pool tc.id with
  | none => simp [h, Repair.pushSynthetic]
  | some results =>
      cases results with
      | nil => simp [Repair.place, h, Repair.pushSynthetic]
      | cons r rest => simp [Repair.place, h]

theorem foldl_pairCall : ∀ (tcs : List ToolCall) (st : Repair),
    (tcs.foldl (Repair.pairCall pool) st).result =
        st.result ++ answers pool st.seenResultIds tcs ∧
      (tcs.foldl (Repair.pairCall pool) st).seenResultIds =
        seenAfter st.seenResultIds (tcs.map ToolCall.id)
  | [], st => ⟨by simp [answers], rfl⟩
  | tc :: tcs, st => by
      obtain ⟨hresult, hseen⟩ := foldl_pairCall tcs (st.pairCall pool tc)
      rw [List.foldl_cons, hresult, hseen]
      by_cases h : tc.id ∈ st.seenResultIds
      · obtain ⟨hr, hs⟩ := @pairCall_seen pool _ _ h
        rw [hr, hs]
        simp [answers, seenAfter, h]
      · obtain ⟨hr, hs⟩ := @pairCall_fresh pool _ _ h
        rw [hr, hs]
        simp [answers, seenAfter, h]

/-- A message that is kept is followed by the answers to its unanswered calls. -/
theorem visit_entry {st : Repair} {m : ChatMessage} (h : m.isTool = false) :
    (st.visit pool m).result = st.result ++ m :: answers pool st.seenResultIds m.calls ∧
      (st.visit pool m).seenResultIds = seenAfter st.seenResultIds m.callIds := by
  have hrole : m.role ≠ .tool := ChatMessage.isTool_eq_false_iff.mp h
  have hvisit : st.visit pool m =
      m.calls.foldl (Repair.pairCall pool) { st with result := st.result ++ [m] } := by
    unfold Repair.visit ChatMessage.calls
    cases hr : m.role <;> cases hc : m.toolCalls <;> simp_all
  obtain ⟨hresult, hseen⟩ :=
    @foldl_pairCall pool m.calls { st with result := st.result ++ [m] }
  rw [hvisit, hresult, hseen]
  exact ⟨by simp, rfl⟩

theorem foldl_visit : ∀ (ms : List ChatMessage) (st : Repair),
    (ms.foldl (Repair.visit pool) st).result =
      st.result ++ repaired pool st.seenResultIds ms
  | [], st => by simp [repaired]
  | m :: ms, st => by
      rw [List.foldl_cons, foldl_visit ms]
      cases htool : m.isTool with
      | true =>
          have hrole : m.role = .tool := ChatMessage.isTool_iff.mp htool
          simp [Repair.visit, hrole, repaired, htool]
      | false =>
          obtain ⟨hresult, hseen⟩ := @visit_entry pool st m htool
          rw [hresult, hseen]
          simp [repaired, htool]

theorem repair_eq_repaired (ms : List ChatMessage) :
    (repairToolUseResultPairing ms).1 = repaired (resultPool ms) [] ms := by
  show (ms.foldl (Repair.visit (resultPool ms)) Repair.start).result = _
  rw [foldl_visit]
  rfl

/-! ## §3  Pairing of the output -/

/-- A pool that holds, under each id, tool results with that id. -/
def PoolByIds (pool : String → Option (List ChatMessage)) : Prop :=
  ∀ id results, pool id = some results →
    ∀ r ∈ results, r.isTool = true ∧ r.toolCallId = some id

theorem resultPool_byIds (ms : List ChatMessage) : PoolByIds (resultPool ms) := by
  intro id results hpool r hr
  unfold resultPool at hpool
  split at hpool
  · cases hpool
  · cases hpool
    have hcond := List.of_mem_filter hr
    simpa using hcond

theorem answerFor_isTool (hpool : PoolByIds pool) (tc : ToolCall) :
    (answerFor pool tc).isTool = true ∧ (answerFor pool tc).toolCallId = some tc.id := by
  unfold answerFor
  split
  · rename_i r rest heq
    exact hpool tc.id _ heq r List.mem_cons_self
  · exact ⟨rfl, rfl⟩

theorem answers_isTool (hpool : PoolByIds pool) : ∀ (tcs : List ToolCall) (seen : List String),
    ∀ r ∈ answers pool seen tcs, r.isTool = true
  | [], _, r, hr => by cases hr
  | tc :: tcs, seen, r, hr => by
      rw [answers] at hr
      split at hr
      · exact answers_isTool hpool tcs seen r hr
      · rcases List.mem_cons.mp hr with rfl | hr
        · exact (answerFor_isTool hpool tc).1
        · exact answers_isTool hpool tcs _ r hr

theorem nonTool_repaired (hpool : PoolByIds pool) : ∀ (ms : List ChatMessage)
    (seen : List String), nonTool (repaired pool seen ms) = nonTool ms
  | [], _ => rfl
  | m :: ms, seen => by
      rw [repaired]
      cases htool : m.isTool with
      | true =>
          rw [if_pos rfl, nonTool_repaired hpool ms]
          simp [nonTool, Pairing.entries, toolPairing, htool]
      | false =>
          have hnone := Pairing.entries_of_answers (P := toolPairing)
            (answers_isTool hpool m.calls seen)
          have hrest := nonTool_repaired hpool ms (seenAfter seen m.callIds)
          rw [if_neg (by simp), ← List.singleton_append]
          simp only [nonTool, Pairing.entries_append] at hrest ⊢
          rw [hnone, hrest]
          simp [Pairing.entries, toolPairing, htool]

/-- The ids among `ids` that are met for the first time. -/
def firstIds : List String → List String → List String
  | _, [] => []
  | seen, id :: ids =>
      if id ∈ seen then firstIds seen ids else id :: firstIds (id :: seen) ids

theorem firstIds_append : ∀ (ids ids' seen : List String),
    firstIds seen (ids ++ ids') = firstIds seen ids ++ firstIds (seenAfter seen ids) ids'
  | [], ids', seen => rfl
  | id :: ids, ids', seen => by
      by_cases h : id ∈ seen <;>
        simp [firstIds, seenAfter, h, firstIds_append ids ids']

theorem firstIds_nodup : ∀ (ids seen : List String),
    (firstIds seen ids).Nodup ∧ ∀ id ∈ firstIds seen ids, id ∉ seen
  | [], _ => ⟨List.nodup_nil, by simp [firstIds]⟩
  | id :: ids, seen => by
      by_cases h : id ∈ seen
      · simpa [firstIds, h] using firstIds_nodup ids seen
      · obtain ⟨hnodup, hout⟩ := firstIds_nodup ids (id :: seen)
        simp only [firstIds, h, if_false]
        refine ⟨List.nodup_cons.mpr ⟨?_, hnodup⟩, ?_⟩
        · intro hmem
          exact hout id hmem List.mem_cons_self
        · intro id' hid'
          rcases List.mem_cons.mp hid' with rfl | hid'
          · exact h
          · exact fun hseen => hout id' hid' (List.mem_cons_of_mem _ hseen)

theorem mem_of_mem_firstIds : ∀ {ids seen : List String} {id : String},
    id ∈ firstIds seen ids → id ∈ ids
  | id' :: ids, seen, id, h => by
      rw [firstIds] at h
      split at h
      · exact List.mem_cons_of_mem _ (mem_of_mem_firstIds h)
      · rcases List.mem_cons.mp h with rfl | h
        · exact List.mem_cons_self
        · exact List.mem_cons_of_mem _ (mem_of_mem_firstIds h)

theorem answerKeys_answers (hpool : PoolByIds pool) : ∀ (tcs : List ToolCall)
    (seen : List String), toolPairing.answerKeys (answers pool seen tcs) =
      (firstIds seen (tcs.map ToolCall.id)).map some
  | [], _ => rfl
  | tc :: tcs, seen => by
      by_cases h : tc.id ∈ seen
      · simpa [answers, firstIds, h] using answerKeys_answers hpool tcs seen
      · obtain ⟨htool, hid⟩ := answerFor_isTool hpool tc
        have hrest := answerKeys_answers hpool tcs (tc.id :: seen)
        simp only [Pairing.answerKeys, toolPairing] at hrest
        simp [answers, firstIds, h, Pairing.answerKeys, toolPairing, htool, hid, hrest]

/-- The output answers each id once, where it is called first. -/
theorem answerKeys_repaired (hpool : PoolByIds pool) : ∀ (ms : List ChatMessage)
    (seen : List String), toolPairing.answerKeys (repaired pool seen ms) =
      (firstIds seen (allCallIds ms)).map some
  | [], _ => rfl
  | m :: ms, seen => by
      rw [repaired, allCallIds_cons, firstIds_append]
      cases htool : m.isTool with
      | true =>
          have hcalls : m.callIds = [] := ChatMessage.callIds_of_tool htool
          rw [if_pos rfl, answerKeys_repaired hpool ms, hcalls]
          rfl
      | false =>
          rw [if_neg (by simp), ← List.singleton_append, Pairing.answerKeys_append,
            Pairing.answerKeys_append, answerKeys_answers hpool, answerKeys_repaired hpool ms,
            List.map_append]
          simp [Pairing.answerKeys, toolPairing, htool, ChatMessage.callIds]

/-- Unanswered calls with different ids all get their answer. -/
theorem answers_fresh : ∀ {tcs : List ToolCall} {seen : List String},
    (tcs.map ToolCall.id).Nodup → (∀ tc ∈ tcs, tc.id ∉ seen) →
      answers pool seen tcs = tcs.map (answerFor pool)
  | [], _, _, _ => rfl
  | tc :: tcs, seen, hnodup, hfresh => by
      rw [List.map_cons, List.nodup_cons] at hnodup
      have hout : tc.id ∉ seen := hfresh tc List.mem_cons_self
      rw [answers, if_neg hout, List.map_cons, answers_fresh hnodup.2]
      intro tc' htc' hmem
      rcases List.mem_cons.mp hmem with heq | hmem
      · exact hnodup.1 (List.mem_map.mpr ⟨tc', htc', heq⟩)
      · exact hfresh tc' (List.mem_cons_of_mem _ htc') hmem

theorem mem_seenAfter : ∀ {ids seen : List String} {id : String},
    id ∈ seenAfter seen ids ↔ id ∈ seen ∨ id ∈ ids
  | [], seen, id => by simp [seenAfter]
  | id' :: ids, seen, id => by
      by_cases h : id' ∈ seen
      · rw [seenAfter, if_pos h, mem_seenAfter, List.mem_cons]
        constructor
        · rintro (hseen | hids)
          · exact Or.inl hseen
          · exact Or.inr (Or.inr hids)
        · rintro (hseen | rfl | hids)
          · exact Or.inl hseen
          · exact Or.inl h
          · exact Or.inr hids
      · rw [seenAfter, if_neg h, mem_seenAfter, List.mem_cons, List.mem_cons]
        tauto

/-- Ids that are new to `seen` and not among `ids` are still new after `ids`. -/
theorem not_mem_seenAfter {ids ids' seen : List String}
    (hdisj : ∀ id ∈ ids, ∀ id' ∈ ids', id ≠ id') (hfresh : ∀ id ∈ ids ++ ids', id ∉ seen) :
    ∀ id ∈ ids', id ∉ seenAfter seen ids := by
  intro id hid hmem
  rcases mem_seenAfter.mp hmem with hseen | hids
  · exact hfresh id (List.mem_append_right _ hid) hseen
  · exact hdisj id hids id hid rfl

theorem paired_repaired (hpool : PoolByIds pool) : ∀ {ms : List ChatMessage}
    {seen : List String}, (allCallIds ms).Nodup → (∀ id ∈ allCallIds ms, id ∉ seen) →
      Paired (repaired pool seen ms)
  | [], _, _, _ => .nil
  | m :: ms, seen, hnodup, hfresh => by
      rw [allCallIds_cons, List.nodup_append] at hnodup
      obtain ⟨hcalls, hrest, hdisj⟩ := hnodup
      rw [allCallIds_cons] at hfresh
      rw [repaired]
      cases htool : m.isTool with
      | true =>
          rw [if_pos rfl]
          exact paired_repaired hpool hrest
            (fun id hid => hfresh id (List.mem_append_right _ hid))
      | false =>
          have hans : answers pool seen m.calls = m.calls.map (answerFor pool) := by
            apply answers_fresh hcalls
            intro tc htc
            exact hfresh tc.id (List.mem_append_left _ (List.mem_map_of_mem htc))
          rw [if_neg (by simp), hans]
          refine .block m _ _ htool ?_ ?_
            (paired_repaired hpool hrest (not_mem_seenAfter hdisj hfresh))
          · intro r hr
            obtain ⟨tc, -, rfl⟩ := List.mem_map.mp hr
            exact (answerFor_isTool hpool tc).1
          · show (m.calls.map (answerFor pool)).map ChatMessage.toolCallId = m.callIds.map some
            rw [ChatMessage.callIds, List.map_map, List.map_map]
            apply List.map_congr_left
            intro tc _
            exact (answerFor_isTool hpool tc).2

theorem paired_repair {ms : List ChatMessage} (h : (allCallIds ms).Nodup) :
    Paired (repairToolUseResultPairing ms).1 := by
  rw [repair_eq_repaired]
  exact paired_repaired (resultPool_byIds ms) h (by simp)

theorem nonTool_repair (ms : List ChatMessage) :
    nonTool (repairToolUseResultPairing ms).1 = nonTool ms := by
  rw [repair_eq_repaired]
  exact nonTool_repaired (resultPool_byIds ms) ms []

/-- **Repair and pairing.** The repaired conversation keeps the messages that are
not tool results, and is paired, if and only if no two calls of the conversation
share an id. -/
theorem repair_paired_iff_distinct_ids (ms : List ChatMessage) :
    nonTool (repairToolUseResultPairing ms).1 = nonTool ms ∧
        Paired (repairToolUseResultPairing ms).1 ↔
      (allCallIds ms).Nodup := by
  constructor
  · rintro ⟨hkept, hpaired⟩
    have hkeys := hpaired.answerKeys_eq
    rw [show toolPairing.entries _ = _ from hkept, repair_eq_repaired,
      answerKeys_repaired (resultPool_byIds ms)] at hkeys
    -- the answers are the first calls, and pairing makes them all calls
    have hids : firstIds [] (allCallIds ms) = allCallIds ms := by
      apply List.map_injective_iff.mpr (fun _ _ => Option.some.inj)
      rw [hkeys, ← allCallIds_nonTool ms]
      rfl
    rw [← hids]
    exact (firstIds_nodup _ _).1
  · intro hnodup
    exact ⟨nonTool_repair ms, paired_repair hnodup⟩

/-- Two turns whose calls carry the synthesized id `call_0_0`. -/
def repeatedIdConversation : List ChatMessage :=
  let turn (arguments output : String) : List ChatMessage :=
    let tc : ToolCall := ⟨"call_0_0", "function", ⟨"read_file", arguments⟩⟩
    [{ plainMessage .assistant "" with toolCalls := some [tc] }, toolResult tc output]
  turn "a" "text of a" ++ turn "b" "text of b"

/-- The second call loses its result: the repair breaks a paired conversation. -/
theorem repeated_id_breaks_pairing :
    Paired repeatedIdConversation ∧
      ¬ (nonTool (repairToolUseResultPairing repeatedIdConversation).1 =
          nonTool repeatedIdConversation ∧
        Paired (repairToolUseResultPairing repeatedIdConversation).1) := by
  decide

/-! ## §4  Repairing what is already paired -/

theorem seenAfter_append : ∀ (ids ids' seen : List String),
    seenAfter seen (ids ++ ids') = seenAfter (seenAfter seen ids) ids'
  | [], _, _ => rfl
  | id :: ids, ids', seen => by
      by_cases h : id ∈ seen <;> simp [seenAfter, h, seenAfter_append ids ids']

theorem repaired_append (pool : String → Option (List ChatMessage)) :
    ∀ (xs ys : List ChatMessage) (seen : List String),
      repaired pool seen (xs ++ ys) =
        repaired pool seen xs ++ repaired pool (seenAfter seen (allCallIds xs)) ys
  | [], ys, seen => rfl
  | x :: xs, ys, seen => by
      rw [List.cons_append, repaired, repaired, allCallIds_cons, seenAfter_append]
      cases htool : x.isTool with
      | true =>
          have hcalls : x.callIds = [] := ChatMessage.callIds_of_tool htool
          rw [if_pos rfl, if_pos rfl, repaired_append pool xs, hcalls]
          rfl
      | false =>
          rw [if_neg (by simp), if_neg (by simp), repaired_append pool xs]
          simp

theorem answers_congr : ∀ {tcs : List ToolCall} {seen : List String},
    (∀ tc ∈ tcs, pool tc.id = pool' tc.id) → answers pool seen tcs = answers pool' seen tcs
  | [], _, _ => rfl
  | tc :: tcs, seen, h => by
      have hrest := fun seen => @answers_congr tcs seen
        (fun tc' htc' => h tc' (List.mem_cons_of_mem _ htc'))
      have hfirst : answerFor pool tc = answerFor pool' tc := by
        unfold answerFor
        rw [h tc List.mem_cons_self]
      by_cases hmem : tc.id ∈ seen <;> simp [answers, hmem, hrest, hfirst]

/-- Only the ids that are called are looked up in the pool. -/
theorem repaired_congr : ∀ {ms : List ChatMessage} {seen : List String},
    (∀ id ∈ allCallIds ms, pool id = pool' id) → repaired pool seen ms = repaired pool' seen ms
  | [], _, _ => rfl
  | m :: ms, seen, h => by
      rw [allCallIds_cons] at h
      have hrest : ∀ seen, repaired pool seen ms = repaired pool' seen ms := fun seen =>
        repaired_congr (fun id hid => h id (List.mem_append_right _ hid))
      rw [repaired, repaired, hrest, hrest, answers_congr]
      intro tc htc
      exact h tc.id (List.mem_append_left _ (List.mem_map_of_mem htc))

/-- The results that answer a list of calls, when the pool has them. -/
theorem map_answerFor : ∀ {tcs : List ToolCall} {rs : List ChatMessage},
    rs.map ChatMessage.toolCallId = (tcs.map ToolCall.id).map some →
    (∀ r ∈ rs, ∀ id, r.toolCallId = some id → pool id = some [r]) →
      tcs.map (answerFor pool) = rs
  | [], [], _, _ => rfl
  | [], _ :: _, h, _ => by cases h
  | _ :: _, [], h, _ => by cases h
  | tc :: tcs, r :: rs, h, hpool => by
      rw [List.map_cons, List.map_cons, List.map_cons, List.cons.injEq] at h
      have hr : answerFor pool tc = r := by
        unfold answerFor
        rw [hpool r List.mem_cons_self tc.id h.1]
      rw [List.map_cons, hr,
        map_answerFor h.2 (fun r' hr' => hpool r' (List.mem_cons_of_mem _ hr'))]

theorem repaired_answers {rs : List ChatMessage} (h : ∀ r ∈ rs, r.isTool = true)
    (seen : List String) : repaired pool seen rs = [] := by
  induction rs with
  | nil => rfl
  | cons r rs ih =>
      rw [repaired, if_pos (h r List.mem_cons_self)]
      exact ih (fun r' hr' => h r' (List.mem_cons_of_mem _ hr'))

theorem allCallIds_answers {rs : List ChatMessage} (h : ∀ r ∈ rs, r.isTool = true) :
    allCallIds rs = [] := by
  rw [allCallIds, List.flatMap_eq_nil_iff]
  intro r hr
  exact ChatMessage.callIds_of_tool (h r hr)

/-- A paired conversation with different ids, none of them seen before, is left as it
is when the pool has exactly its results. -/
theorem repaired_of_paired {ms : List ChatMessage} (hpaired : Paired ms) :
    ∀ {seen : List String}, (allCallIds ms).Nodup → (∀ id ∈ allCallIds ms, id ∉ seen) →
      (∀ r ∈ ms, r.isTool = true → ∀ id, r.toolCallId = some id → pool id = some [r]) →
        repaired pool seen ms = ms := by
  induction hpaired with
  | nil => exact fun _ _ _ => rfl
  | block m rs rest hm hrs hkeys _ ih =>
      intro seen hnodup hfresh hpool
      have hids : allCallIds (m :: (rs ++ rest)) = m.callIds ++ allCallIds rest := by
        rw [allCallIds_cons, allCallIds_append, allCallIds_answers hrs, List.nil_append]
      rw [hids, List.nodup_append] at hnodup
      obtain ⟨hcalls, hrest, hdisj⟩ := hnodup
      rw [hids] at hfresh
      have htool : m.isTool = false := hm
      have hans : answers pool seen m.calls = rs := by
        rw [answers_fresh hcalls]
        · apply map_answerFor hkeys
          intro r hr
          exact hpool r (List.mem_cons_of_mem _ (List.mem_append_left _ hr)) (hrs r hr)
        · intro tc htc
          exact hfresh tc.id (List.mem_append_left _ (List.mem_map_of_mem htc))
      rw [repaired, htool, if_neg (by simp), hans, repaired_append, repaired_answers hrs,
        allCallIds_answers hrs, List.nil_append]
      -- the answers of the block open nothing, so only `m` adds to the seen ids
      rw [show seenAfter (seenAfter seen m.callIds) [] = seenAfter seen m.callIds from rfl,
        ih hrest (not_mem_seenAfter hdisj hfresh)]
      intro r hr
      exact hpool r (List.mem_cons_of_mem _ (List.mem_append_right _ hr))

theorem filter_results_eq_nil {ms : List ChatMessage} {id : String}
    (h : ∀ r ∈ ms, r.isTool = true → r.toolCallId ≠ some id) :
    ms.filter (fun m => m.isTool && m.toolCallId == some id) = [] := by
  rw [List.filter_eq_nil_iff]
  intro r hr hcond
  simp only [Bool.and_eq_true, beq_iff_eq] at hcond
  exact h r hr hcond.1 hcond.2

theorem mem_answerKeys_of_id {ms : List ChatMessage} {r : ChatMessage} {id : String}
    (hr : r ∈ ms) (htool : r.isTool = true) (hid : r.toolCallId = some id) :
    some id ∈ toolPairing.answerKeys ms := by
  rw [← hid]
  exact Pairing.mem_answerKeys (P := toolPairing) hr htool

/-- In a conversation that answers no id twice, an answer is the only one for its id. -/
theorem filter_answer_eq {r : ChatMessage} {id : String} : ∀ {ms : List ChatMessage},
    (toolPairing.answerKeys ms).Nodup → r ∈ ms → r.isTool = true → r.toolCallId = some id →
      ms.filter (fun m => m.isTool && m.toolCallId == some id) = [r]
  | x :: xs, hnodup, hr, htool, hid => by
      have hcons : toolPairing.answerKeys (x :: xs) =
          toolPairing.answerKeys [x] ++ toolPairing.answerKeys xs :=
        Pairing.answerKeys_append [x] xs
      rw [hcons, List.nodup_append] at hnodup
      obtain ⟨-, hxs, hdisj⟩ := hnodup
      cases hx : x.isTool && x.toolCallId == some id with
      | true =>
          simp only [Bool.and_eq_true, beq_iff_eq] at hx
          -- `x` answers the id, so nothing in `xs` does
          have hin : some id ∈ toolPairing.answerKeys [x] :=
            mem_answerKeys_of_id List.mem_cons_self hx.1 hx.2
          have hrest : xs.filter (fun m => m.isTool && m.toolCallId == some id) = [] :=
            filter_results_eq_nil fun y hy hytool hyid =>
              hdisj _ hin _ (mem_answerKeys_of_id hy hytool hyid) rfl
          rcases List.mem_cons.mp hr with rfl | hr
          · rw [List.filter_cons_of_pos (by simp [hx]), hrest]
          · exact absurd rfl (hdisj _ hin _ (mem_answerKeys_of_id hr htool hid))
      | false =>
          rcases List.mem_cons.mp hr with rfl | hr
          · simp [htool, hid] at hx
          · rw [List.filter_cons_of_neg (by simpa using hx)]
            exact filter_answer_eq hxs hr htool hid

/-- A result of a paired conversation has the id of one of its calls. -/
theorem mem_allCallIds_of_answer {ms : List ChatMessage} (hpaired : Paired ms)
    {r : ChatMessage} {id : String} (hr : r ∈ ms) (htool : r.isTool = true)
    (hid : r.toolCallId = some id) : id ∈ allCallIds ms := by
  have hkey := mem_answerKeys_of_id hr htool hid
  rw [hpaired.answerKeys_eq] at hkey
  obtain ⟨id', hmem, heq⟩ := List.mem_map.mp hkey
  rw [← allCallIds_nonTool ms, ← Option.some.inj heq]
  exact hmem

/-- Appending a paired conversation to a transcript appends it to what the repair
gives, if its calls have new ids. -/
theorem repair_append_paired {xs ys : List ChatMessage} (hpaired : Paired ys)
    (hids : (allCallIds (xs ++ ys)).Nodup)
    (hfresh : ∀ m ∈ xs, m.isTool = true → ∀ id, m.toolCallId = some id → id ∉ allCallIds ys) :
    (repairToolUseResultPairing (xs ++ ys)).1 = (repairToolUseResultPairing xs).1 ++ ys := by
  rw [allCallIds_append, List.nodup_append] at hids
  obtain ⟨-, hys, hdisj⟩ := hids
  rw [repair_eq_repaired, repair_eq_repaired, repaired_append]
  congr 1
  · -- the new results answer none of the calls of `xs`
    apply repaired_congr
    intro id hid
    have hnone : ys.filter (fun m => m.isTool && m.toolCallId == some id) = [] :=
      filter_results_eq_nil fun r hr htool hrid =>
        hdisj id hid id (mem_allCallIds_of_answer hpaired hr htool hrid) rfl
    unfold resultPool
    rw [List.filter_append, hnone, List.append_nil]
  · -- and the results of `xs` answer none of the calls of `ys`
    apply repaired_of_paired hpaired hys
    · exact not_mem_seenAfter hdisj (by simp)
    · intro r hr htool id hid
      have hcall := mem_allCallIds_of_answer hpaired hr htool hid
      have hnone : xs.filter (fun m => m.isTool && m.toolCallId == some id) = [] :=
        filter_results_eq_nil fun r' hr' htool' hid' => hfresh r' hr' htool' id hid' hcall
      have hkeys : (toolPairing.answerKeys ys).Nodup := by
        rw [hpaired.answerKeys_eq]
        apply List.Nodup.map (fun _ _ => Option.some.inj)
        rw [show (toolPairing.entries ys).flatMap toolPairing.opens = allCallIds (nonTool ys) from
          rfl, allCallIds_nonTool]
        exact hys
      unfold resultPool
      rw [List.filter_append, hnone, filter_answer_eq hkeys hr htool hid]
      rfl

/-- A call whose id is called once gets its answer. -/
theorem answerFor_mem_repaired {tc : ToolCall} : ∀ {ms : List ChatMessage} {seen : List String},
    tc ∈ ms.flatMap ChatMessage.calls → (allCallIds ms).Nodup →
      (∀ id ∈ allCallIds ms, id ∉ seen) → answerFor pool tc ∈ repaired pool seen ms
  | m :: ms, seen, htc, hnodup, hfresh => by
      rw [allCallIds_cons, List.nodup_append] at hnodup
      obtain ⟨hcalls, hrest, hdisj⟩ := hnodup
      rw [allCallIds_cons] at hfresh
      rw [List.flatMap_cons, List.mem_append] at htc
      have hnext : tc ∈ ms.flatMap ChatMessage.calls →
          answerFor pool tc ∈ repaired pool (seenAfter seen m.callIds) ms := fun htc =>
        answerFor_mem_repaired htc hrest (not_mem_seenAfter hdisj hfresh)
      rw [repaired]
      cases htool : m.isTool with
      | true =>
          have hnone := ChatMessage.calls_of_tool htool
          rw [if_pos rfl]
          rcases htc with htc | htc
          · rw [hnone] at htc
            cases htc
          · have h := hnext htc
            rwa [show m.callIds = [] by simp [ChatMessage.callIds, hnone]] at h
      | false =>
          rw [if_neg (by simp)]
          rcases htc with htc | htc
          · have hans : answers pool seen m.calls = m.calls.map (answerFor pool) := by
              apply answers_fresh hcalls
              intro tc' htc'
              exact hfresh tc'.id (List.mem_append_left _ (List.mem_map_of_mem htc'))
            rw [hans]
            exact List.mem_cons_of_mem _ (List.mem_append_left _ (List.mem_map_of_mem htc))
          · exact List.mem_cons_of_mem _ (List.mem_append_right _ (hnext htc))

/-- The output has results only for ids that are called. -/
theorem mem_allCallIds_of_repaired {ms : List ChatMessage} {r : ChatMessage} {id : String}
    (hr : r ∈ (repairToolUseResultPairing ms).1) (htool : r.isTool = true)
    (hid : r.toolCallId = some id) : id ∈ allCallIds ms := by
  rw [repair_eq_repaired] at hr
  have hkey := mem_answerKeys_of_id hr htool hid
  rw [answerKeys_repaired (resultPool_byIds ms)] at hkey
  obtain ⟨id', hmem, heq⟩ := List.mem_map.mp hkey
  rw [← Option.some.inj heq]
  exact mem_of_mem_firstIds hmem

/-- A call that is made once and has no result gets the synthetic one. -/
theorem synthetic_mem_repair {ms : List ChatMessage} {tc : ToolCall}
    (htc : tc ∈ ms.flatMap ChatMessage.calls) (hids : (allCallIds ms).Nodup)
    (hnone : ∀ r ∈ ms, r.isTool = true → r.toolCallId ≠ some tc.id) :
    makeSyntheticResult tc.id tc.function.name ∈ (repairToolUseResultPairing ms).1 := by
  have hpool : resultPool ms tc.id = none := by
    unfold resultPool
    rw [filter_results_eq_nil hnone]
  have hmem := @answerFor_mem_repaired (resultPool ms) tc ms [] htc hids (by simp)
  rw [repair_eq_repaired]
  unfold answerFor at hmem
  rw [hpool] at hmem
  exact hmem

end Oclaw.AgentCore
