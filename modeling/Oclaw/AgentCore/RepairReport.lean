import Mathlib.Algebra.BigOperators.Group.Finset.Piecewise
import Mathlib.Algebra.GroupWithZero.Nat
import Oclaw.AgentCore.TranscriptRepair

/-!
# What the repair reports

The counters of `repair_tool_use_result_pairing`. A call with a new id gets a synthetic
result if the pool has none for it; a call whose id was met before adds all the results of
the pool for it to the duplicates. The results that the pool has beside the first for a
new id, and tool messages without an id, are counted nowhere.
-/

namespace Oclaw.AgentCore

open Oclaw.Lib

/-! ## §1  The counters -/

/-- The tool messages with an id, in order. -/
def resultsFor (ms : List ChatMessage) (id : String) : List ChatMessage :=
  ms.filter (fun m => m.isTool && m.toolCallId == some id)

/-- How many results a pool has for an id. -/
def found (pool : String → Option (List ChatMessage)) (id : String) : ℕ :=
  ((pool id).getD []).length

/-- The ids of the calls at which the counter of synthetic results goes up. -/
def emittedBy (pool : String → Option (List ChatMessage)) : Repair → List ToolCall → List String
  | _, [] => []
  | st, tc :: tcs =>
      (if st.addedSynthetic < (st.pairCall pool tc).addedSynthetic then [tc.id] else []) ++
        emittedBy pool (st.pairCall pool tc) tcs

def emitted (pool : String → Option (List ChatMessage)) : Repair → List ChatMessage → List String
  | _, [] => []
  | st, m :: ms => emittedBy pool st m.calls ++ emitted pool (st.visit pool m) ms

/-- The ids for which the repair of a conversation makes up a result. -/
def syntheticIds (ms : List ChatMessage) : List String :=
  emitted (resultPool ms) Repair.start ms

variable {pool pool' : String → Option (List ChatMessage)} {st : Repair} {tc : ToolCall}
variable {ms : List ChatMessage} {id : String} {r : ChatMessage}

theorem place_counts : ∀ (results : List ChatMessage) (st : Repair), tc.id ∈ st.seenResultIds →
    (st.place tc results).1.addedSynthetic = st.addedSynthetic ∧
      (st.place tc results).1.droppedDuplicates = st.droppedDuplicates + results.length
  | [], _, _ => ⟨rfl, rfl⟩
  | tr :: rest, st, h => by
      obtain ⟨hadded, hdropped⟩ :=
        place_counts rest { st with droppedDuplicates := st.droppedDuplicates + 1 } h
      simp only [Repair.place, h, if_true]
      refine ⟨hadded, hdropped.trans ?_⟩
      show st.droppedDuplicates + 1 + rest.length = st.droppedDuplicates + (rest.length + 1)
      omega

/-- A call whose id was met before: all results for it are duplicates. -/
theorem pairCall_seen_counts (pool : String → Option (List ChatMessage))
    (h : tc.id ∈ st.seenResultIds) :
    (st.pairCall pool tc).addedSynthetic = st.addedSynthetic ∧
      (st.pairCall pool tc).droppedDuplicates = st.droppedDuplicates + found pool tc.id := by
  unfold Repair.pairCall found
  cases pool tc.id with
  | none => simp [h]
  | some results =>
      obtain ⟨hplaced, -, hseen⟩ := place_seen results st h
      have hmem : tc.id ∈ (st.place tc results).1.seenResultIds := by
        rw [hseen]
        exact h
      simp only [hplaced, hmem, not_true_eq_false, decide_false, Bool.and_false]
      exact place_counts results st h

/-- A call with a new id: a result is made up if there is none, and no others are counted. -/
theorem pairCall_fresh_counts (pool : String → Option (List ChatMessage))
    (h : tc.id ∉ st.seenResultIds) :
    (st.pairCall pool tc).addedSynthetic =
        st.addedSynthetic + (if found pool tc.id = 0 then 1 else 0) ∧
      (st.pairCall pool tc).droppedDuplicates = st.droppedDuplicates := by
  unfold Repair.pairCall found
  cases pool tc.id with
  | none => simp [h, Repair.pushSynthetic]
  | some results =>
      cases results with
      | nil => simp [Repair.place, h, Repair.pushSynthetic]
      | cons r rest => simp [Repair.place, h]

/-- What a list of calls adds to the counters. -/
structure Counted (pool : String → Option (List ChatMessage)) (st st' : Repair)
    (ids made : List String) : Prop where
  seen : st'.seenResultIds = seenAfter st.seenResultIds ids
  emitted : made = (firstIds st.seenResultIds ids).filter (fun id => found pool id = 0)
  added : st'.addedSynthetic = st.addedSynthetic + made.length
  dropped : st'.droppedDuplicates + ((firstIds st.seenResultIds ids).map (found pool)).sum =
    st.droppedDuplicates + (ids.map (found pool)).sum

theorem Counted.refl (pool : String → Option (List ChatMessage)) (st : Repair) :
    Counted pool st st [] [] :=
  ⟨rfl, rfl, rfl, rfl⟩

theorem Counted.trans {st₁ st₂ st₃ : Repair} {ids₁ ids₂ em₁ em₂ : List String}
    (h₁ : Counted pool st₁ st₂ ids₁ em₁) (h₂ : Counted pool st₂ st₃ ids₂ em₂) :
    Counted pool st₁ st₃ (ids₁ ++ ids₂) (em₁ ++ em₂) := by
  obtain ⟨hseen₁, hem₁, hadd₁, hdrop₁⟩ := h₁
  obtain ⟨hseen₂, hem₂, hadd₂, hdrop₂⟩ := h₂
  rw [hseen₁] at hseen₂ hem₂ hdrop₂
  refine ⟨?_, ?_, ?_, ?_⟩
  · rw [seenAfter_append, hseen₂]
  · rw [firstIds_append, List.filter_append, hem₁, hem₂]
  · rw [hadd₂, hadd₁, List.length_append, Nat.add_assoc]
  · rw [firstIds_append, List.map_append, List.sum_append, List.map_append, List.sum_append]
    omega

theorem counted_pairCall (pool : String → Option (List ChatMessage)) (st : Repair)
    (tc : ToolCall) : Counted pool st (st.pairCall pool tc) [tc.id]
      (if st.addedSynthetic < (st.pairCall pool tc).addedSynthetic then [tc.id] else []) := by
  by_cases h : tc.id ∈ st.seenResultIds
  · obtain ⟨hadded, hdropped⟩ := pairCall_seen_counts pool h
    have hseen := (@pairCall_seen pool _ _ h).2
    constructor <;> simp [hadded, hdropped, hseen, seenAfter, firstIds, h]
  · obtain ⟨hadded, hdropped⟩ := pairCall_fresh_counts pool h
    have hseen := (@pairCall_fresh pool _ _ h).2
    by_cases hfound : found pool tc.id = 0
    · constructor <;> simp [hadded, hdropped, hseen, seenAfter, firstIds, h, hfound]
    · constructor <;> simp [hadded, hdropped, hseen, seenAfter, firstIds, h, hfound]

theorem counted_calls (pool : String → Option (List ChatMessage)) (tcs : List ToolCall)
    (st : Repair) :
    Counted pool st (tcs.foldl (Repair.pairCall pool) st) (tcs.map ToolCall.id)
      (emittedBy pool st tcs) := by
  induction tcs generalizing st with
  | nil => exact Counted.refl pool st
  | cons tc tcs ih => exact (counted_pairCall pool st tc).trans (ih (st.pairCall pool tc))

/-- Adding to the output does not change what is counted. -/
theorem emittedBy_result (tcs : List ToolCall) (st : Repair) (result : List ChatMessage) :
    emittedBy pool { st with result := result } tcs = emittedBy pool st tcs := by
  rw [(counted_calls pool tcs { st with result := result }).emitted,
    (counted_calls pool tcs st).emitted]

theorem counted_visit (st : Repair) (m : ChatMessage) :
    Counted pool st (st.visit pool m) m.callIds (emittedBy pool st m.calls) := by
  cases htool : m.isTool with
  | true =>
      have hrole : m.role = .tool := ChatMessage.isTool_iff.mp htool
      have hvisit : st.visit pool m = st := by simp [Repair.visit, hrole]
      rw [ChatMessage.callIds, ChatMessage.calls_of_tool htool, hvisit]
      exact Counted.refl pool st
  | false =>
      have hrole : m.role ≠ .tool := ChatMessage.isTool_eq_false_iff.mp htool
      have hvisit : st.visit pool m =
          m.calls.foldl (Repair.pairCall pool) { st with result := st.result ++ [m] } := by
        unfold Repair.visit ChatMessage.calls
        cases hr : m.role <;> cases hc : m.toolCalls <;> simp_all
      rw [hvisit, ← emittedBy_result m.calls st (st.result ++ [m])]
      obtain ⟨hseen, hemitted, hadded, hdropped⟩ :=
        counted_calls pool m.calls { st with result := st.result ++ [m] }
      exact ⟨hseen, hemitted, hadded, hdropped⟩

theorem counted_visits (pool : String → Option (List ChatMessage))
    (ms : List ChatMessage) (st : Repair) :
    Counted pool st (ms.foldl (Repair.visit pool) st) (allCallIds ms) (emitted pool st ms) := by
  induction ms generalizing st with
  | nil => exact Counted.refl pool st
  | cons m ms ih =>
      rw [allCallIds_cons]
      exact (counted_visit st m).trans (ih (st.visit pool m))

/-- The ids that are called, each once. -/
def calledIds (ms : List ChatMessage) : List String := firstIds [] (allCallIds ms)

theorem mem_calledIds : id ∈ calledIds ms ↔ id ∈ allCallIds ms := by
  refine ⟨mem_of_mem_firstIds, ?_⟩
  have hgen : ∀ (ids seen : List String), id ∈ ids → id ∉ seen → id ∈ firstIds seen ids := by
    intro ids
    induction ids with
    | nil =>
        intro seen h
        cases h
    | cons id' ids ih =>
        intro seen h hseen
        rw [firstIds]
        split
        · rename_i hmem
          rcases List.mem_cons.mp h with rfl | h
          · exact absurd hmem hseen
          · exact ih seen h hseen
        · rcases List.mem_cons.mp h with rfl | h
          · exact List.mem_cons_self
          · by_cases heq : id = id'
            · rw [heq]
              exact List.mem_cons_self
            · exact List.mem_cons_of_mem _ (ih _ h (by simp [heq, hseen]))
  exact fun h => hgen _ [] h (by simp)

theorem calledIds_nodup (ms : List ChatMessage) : (calledIds ms).Nodup :=
  (firstIds_nodup _ _).1

theorem found_resultPool : found (resultPool ms) id = (resultsFor ms id).length := by
  unfold found resultPool resultsFor
  split
  · rename_i hnil
    rw [hnil]
    rfl
  · rfl

/-- The report of the repair in terms of the conversation. -/
theorem report_eq (ms : List ChatMessage) :
    syntheticIds ms = (calledIds ms).filter (fun id => (resultsFor ms id).length = 0) ∧
      (repairToolUseResultPairing ms).2.addedSynthetic = (syntheticIds ms).length ∧
      (repairToolUseResultPairing ms).2.droppedDuplicates +
          ((calledIds ms).map (fun id => (resultsFor ms id).length)).sum =
        ((allCallIds ms).map (fun id => (resultsFor ms id).length)).sum ∧
      (repairToolUseResultPairing ms).2.droppedOrphans =
        ms.countP (fun m => m.isTool && m.toolCallId.any (fun id => id ∉ allCallIds ms)) := by
  obtain ⟨hseen, hemitted, hadded, hdropped⟩ :=
    counted_visits (resultPool ms) ms Repair.start
  have hfound : found (resultPool ms) = fun id => (resultsFor ms id).length :=
    funext fun id => found_resultPool
  rw [hfound] at hemitted hdropped
  refine ⟨hemitted, hadded.trans (Nat.zero_add _), ?_, ?_⟩
  · have h := hdropped
    rw [show Repair.start.droppedDuplicates = 0 from rfl, Nat.zero_add] at h
    exact h
  · show ms.countP _ = _
    rw [hseen]
    apply List.countP_congr
    intro m _
    cases m.toolCallId with
    | none => rfl
    | some id => simp [ChatMessage.isTool, mem_seenAfter, Repair.start]

/-! ## §2  Repairing twice

The second pass meets the calls in the same order, and its pool has exactly the result
that the first pass placed for each of them. -/

theorem answers_stable (hpool : PoolByIds pool) : ∀ (tcs : List ToolCall) (seen : List String),
    (∀ r ∈ answers pool seen tcs, ∀ id, r.toolCallId = some id → pool' id = some [r]) →
      answers pool' seen tcs = answers pool seen tcs
  | [], _, _ => rfl
  | tc :: tcs, seen, h => by
      by_cases hmem : tc.id ∈ seen
      · simp only [answers, if_pos hmem] at h ⊢
        exact answers_stable hpool tcs seen h
      · simp only [answers, if_neg hmem] at h ⊢
        have hplaced := h _ List.mem_cons_self tc.id (answerFor_isTool hpool tc).2
        have hfirst : answerFor pool' tc = answerFor pool tc := by
          conv_lhs => unfold answerFor
          rw [hplaced]
        rw [hfirst, answers_stable hpool tcs _ (fun r hr => h r (List.mem_cons_of_mem _ hr))]

theorem repaired_stable (hpool : PoolByIds pool) : ∀ (ms : List ChatMessage)
    (seen : List String),
    (∀ r ∈ repaired pool seen ms, r.isTool = true → ∀ id, r.toolCallId = some id →
      pool' id = some [r]) →
        repaired pool' seen (repaired pool seen ms) = repaired pool seen ms
  | [], _, _ => rfl
  | m :: ms, seen, h => by
      cases htool : m.isTool with
      | true =>
          simp only [repaired, htool, if_true] at h ⊢
          exact repaired_stable hpool ms seen h
      | false =>
          simp only [repaired, htool, Bool.false_eq_true, if_false] at h ⊢
          have hresults := answers_isTool hpool m.calls seen
          have hans : answers pool' seen m.calls = answers pool seen m.calls := by
            apply answers_stable hpool
            intro r hr
            exact h r (List.mem_cons_of_mem _ (List.mem_append_left _ hr)) (hresults r hr)
          have hrest := repaired_stable hpool ms (seenAfter seen m.callIds) (fun r hr =>
            h r (List.mem_cons_of_mem _ (List.mem_append_right _ hr)))
          -- the results placed for `m` are skipped and call nothing
          rw [hans, repaired_append, repaired_answers hresults, allCallIds_answers hresults,
            List.nil_append, show seenAfter (seenAfter seen m.callIds) [] =
              seenAfter seen m.callIds from rfl, hrest]

theorem answerKeys_repair (ms : List ChatMessage) :
    toolPairing.answerKeys (repairToolUseResultPairing ms).1 = (calledIds ms).map some := by
  rw [repair_eq_repaired, answerKeys_repaired (resultPool_byIds ms)]
  rfl

theorem answerKeys_repair_nodup (ms : List ChatMessage) :
    (toolPairing.answerKeys (repairToolUseResultPairing ms).1).Nodup := by
  rw [answerKeys_repair]
  exact (calledIds_nodup ms).map fun _ _ => Option.some.inj

/-- A result of the output is the only one with its id. -/
theorem resultsFor_repair (hr : r ∈ (repairToolUseResultPairing ms).1) (htool : r.isTool = true)
    (hid : r.toolCallId = some id) : resultsFor (repairToolUseResultPairing ms).1 id = [r] :=
  filter_answer_eq (answerKeys_repair_nodup ms) hr htool hid

theorem repair_repair (ms : List ChatMessage) :
    (repairToolUseResultPairing (repairToolUseResultPairing ms).1).1 =
      (repairToolUseResultPairing ms).1 := by
  rw [repair_eq_repaired (repairToolUseResultPairing ms).1]
  conv_lhs => rw [show (repairToolUseResultPairing ms).1 = repaired (resultPool ms) [] ms from
    repair_eq_repaired ms]
  rw [repaired_stable (resultPool_byIds ms), repair_eq_repaired]
  intro r hr htool id hid
  rw [← repair_eq_repaired] at hr ⊢
  have honly := resultsFor_repair hr htool hid
  unfold resultsFor at honly
  unfold resultPool
  rw [honly]

theorem allCallIds_repair (ms : List ChatMessage) :
    allCallIds (repairToolUseResultPairing ms).1 = allCallIds ms := by
  rw [← allCallIds_nonTool, nonTool_repair, allCallIds_nonTool]

/-- Every id that is called has a result in the output. -/
theorem exists_result (h : id ∈ allCallIds ms) :
    ∃ r ∈ (repairToolUseResultPairing ms).1, r.isTool = true ∧ r.toolCallId = some id := by
  have hkey : some id ∈ toolPairing.answerKeys (repairToolUseResultPairing ms).1 := by
    rw [answerKeys_repair]
    exact List.mem_map_of_mem (mem_calledIds.mpr h)
  obtain ⟨r, hr, hid⟩ := List.mem_map.mp hkey
  exact ⟨r, List.mem_of_mem_filter hr, List.of_mem_filter hr, hid⟩

theorem report_repair (ms : List ChatMessage) :
    let report := (repairToolUseResultPairing (repairToolUseResultPairing ms).1).2
    report.addedSynthetic = 0 ∧ report.droppedOrphans = 0 ∧ report.movedResults = false := by
  obtain ⟨hemitted, hadded, -, horphans⟩ := report_eq (repairToolUseResultPairing ms).1
  refine ⟨?_, ?_, ?_⟩
  · rw [hadded, hemitted, List.length_eq_zero_iff, List.filter_eq_nil_iff]
    intro id hid
    rw [mem_calledIds, allCallIds_repair] at hid
    obtain ⟨r, hr, htool, hrid⟩ := exists_result hid
    simp [resultsFor_repair hr htool hrid]
  · rw [horphans, List.countP_eq_zero]
    intro r hr hcond
    rw [Bool.and_eq_true, Option.any_eq_true] at hcond
    obtain ⟨htool, id, hid, hout⟩ := hcond
    rw [allCallIds_repair] at hout
    exact of_decide_eq_true hout (mem_allCallIds_of_repaired hr htool hid)
  · show checkResultsMoved _ (repairToolUseResultPairing (repairToolUseResultPairing ms).1).1 = _
    rw [repair_repair, checkResultsMoved, bne_self_eq_false]

/-! ## §3  Where the results come from -/

theorem exists_answers : ∀ {tcs : List ToolCall} {seen : List String},
    id ∈ firstIds seen (tcs.map ToolCall.id) →
      ∃ tc, tc.id = id ∧ answerFor pool tc ∈ answers pool seen tcs
  | tc :: tcs, seen, h => by
      rw [List.map_cons, firstIds] at h
      rw [answers]
      split at h
      · rename_i hmem
        rw [if_pos hmem]
        exact exists_answers h
      · rename_i hmem
        rw [if_neg hmem]
        rcases List.mem_cons.mp h with rfl | h
        · exact ⟨tc, rfl, List.mem_cons_self⟩
        · obtain ⟨tc', hid, hin⟩ := exists_answers h
          exact ⟨tc', hid, List.mem_cons_of_mem _ hin⟩

theorem exists_repaired : ∀ {ms : List ChatMessage} {seen : List String},
    id ∈ firstIds seen (allCallIds ms) →
      ∃ tc, tc.id = id ∧ answerFor pool tc ∈ repaired pool seen ms
  | m :: ms, seen, h => by
      rw [allCallIds_cons, firstIds_append, List.mem_append] at h
      rw [repaired]
      cases htool : m.isTool with
      | true =>
          have hnone : m.callIds = [] := ChatMessage.callIds_of_tool htool
          rw [hnone] at h
          rcases h with h | h
          · cases h
          · exact exists_repaired h
      | false =>
          rcases h with h | h
          · obtain ⟨tc, hid, hin⟩ : ∃ tc, tc.id = id ∧
                answerFor pool tc ∈ answers pool seen m.calls := exists_answers h
            exact ⟨tc, hid, List.mem_cons_of_mem _ (List.mem_append_left _ hin)⟩
          · obtain ⟨tc, hid, hin⟩ := exists_repaired h
            exact ⟨tc, hid, List.mem_cons_of_mem _ (List.mem_append_right _ hin)⟩

/-- The one result of an id that is called: the first of the input, or a synthetic one. -/
theorem resultsFor_called (h : id ∈ allCallIds ms) :
    ∃ name, resultsFor (repairToolUseResultPairing ms).1 id =
      [((resultsFor ms id).head?).getD (makeSyntheticResult id name)] := by
  obtain ⟨tc, rfl, hin⟩ : ∃ tc, tc.id = id ∧
      answerFor (resultPool ms) tc ∈ repaired (resultPool ms) [] ms :=
    exists_repaired (mem_calledIds.mpr h)
  obtain ⟨htool, hid⟩ := answerFor_isTool (resultPool_byIds ms) tc
  rw [← repair_eq_repaired] at hin
  refine ⟨tc.function.name, (resultsFor_repair hin htool hid).trans ?_⟩
  unfold answerFor resultPool resultsFor
  cases hresults : ms.filter (fun m => m.isTool && m.toolCallId == some tc.id) with
  | nil => rfl
  | cons r rest => rfl

/-- A second pass changes nothing and repairs nothing, an id has at most one result, and a
result is made up just for the ids that are called and have none. The first result of the
others is kept. -/
theorem repair_stable_and_prefers_results (ms : List ChatMessage) :
    ((repairToolUseResultPairing (repairToolUseResultPairing ms).1).1 =
        (repairToolUseResultPairing ms).1 ∧
      (repairToolUseResultPairing (repairToolUseResultPairing ms).1).2.addedSynthetic = 0 ∧
      (repairToolUseResultPairing (repairToolUseResultPairing ms).1).2.droppedOrphans = 0 ∧
      (repairToolUseResultPairing (repairToolUseResultPairing ms).1).2.movedResults = false) ∧
    (∀ id, (resultsFor (repairToolUseResultPairing ms).1 id).length ≤ 1) ∧
    (∀ id, id ∈ syntheticIds ms ↔ id ∈ allCallIds ms ∧ resultsFor ms id = []) ∧
    (∀ id ∈ syntheticIds ms, ∃ name,
      resultsFor (repairToolUseResultPairing ms).1 id = [makeSyntheticResult id name]) ∧
    ∀ id ∈ allCallIds ms, ∀ r, (resultsFor ms id).head? = some r →
      resultsFor (repairToolUseResultPairing ms).1 id = [r] := by
  have hsynthetic : ∀ id, id ∈ syntheticIds ms ↔ id ∈ allCallIds ms ∧ resultsFor ms id = [] := by
    intro id
    rw [(report_eq ms).1, List.mem_filter, mem_calledIds, decide_eq_true_eq,
      List.length_eq_zero_iff]
  refine ⟨⟨repair_repair ms, report_repair ms⟩, ?_, hsynthetic, ?_, ?_⟩
  · intro id
    cases hresults : resultsFor (repairToolUseResultPairing ms).1 id with
    | nil => exact Nat.zero_le _
    | cons r rest =>
        have hmem : r ∈ resultsFor (repairToolUseResultPairing ms).1 id := by
          rw [hresults]
          exact List.mem_cons_self
        have hcond := List.of_mem_filter hmem
        rw [Bool.and_eq_true, beq_iff_eq] at hcond
        rw [← hresults, resultsFor_repair (List.mem_of_mem_filter hmem) hcond.1 hcond.2]
        rfl
  · intro id hid
    obtain ⟨hcalled, hnone⟩ := (hsynthetic id).mp hid
    obtain ⟨name, hresult⟩ := resultsFor_called hcalled
    exact ⟨name, by rw [hresult, hnone]; rfl⟩
  · intro id hcalled r hfirst
    obtain ⟨name, hresult⟩ := resultsFor_called hcalled
    rw [hresult, hfirst]
    rfl

/-! ## §4  The balance of the report -/

def toolCount (ms : List ChatMessage) : ℕ := ms.countP ChatMessage.isTool

/-- Tool messages that went in or were made up are those that came out or were reported
as dropped. -/
def ReportConserves (ms : List ChatMessage) : Prop :=
  toolCount ms + (repairToolUseResultPairing ms).2.addedSynthetic =
    toolCount (repairToolUseResultPairing ms).1 +
      (repairToolUseResultPairing ms).2.droppedDuplicates +
      (repairToolUseResultPairing ms).2.droppedOrphans

instance (ms : List ChatMessage) : Decidable (ReportConserves ms) :=
  inferInstanceAs (Decidable (_ = _))

/-- Tool messages without an id, and the results after the first for ids called once. -/
def uncounted (ms : List ChatMessage) : ℕ :=
  ms.countP (fun m => m.isTool && m.toolCallId.isNone) +
    ∑ id ∈ (allCallIds ms).toFinset,
      if (allCallIds ms).count id = 1 then (resultsFor ms id).length - 1 else 0

/-- For an id with results that is called more than once: each call after the first counts
all of its results, also the one that was placed and those that were counted before. -/
def overcounted (ms : List ChatMessage) : ℕ :=
  ∑ id ∈ (allCallIds ms).toFinset,
    if 2 ≤ (allCallIds ms).count id ∧ resultsFor ms id ≠ [] then
      ((allCallIds ms).count id - 2) * (resultsFor ms id).length + 1
    else 0

theorem length_resultsFor_cons (m : ChatMessage) (ms : List ChatMessage) (id : String) :
    (resultsFor (m :: ms) id).length =
      (if m.isTool = true ∧ m.toolCallId = some id then 1 else 0) + (resultsFor ms id).length := by
  unfold resultsFor
  by_cases h : m.isTool = true ∧ m.toolCallId = some id
  · rw [List.filter_cons_of_pos (by simp [h]), if_pos h, List.length_cons, Nat.add_comm]
  · rw [List.filter_cons_of_neg (by simpa using h), if_neg h, Nat.zero_add]

/-- Tool messages whose id is among `C`, counted by their id. -/
theorem countP_eq_sum (C : Finset String) (ms : List ChatMessage) :
    ms.countP (fun m => m.isTool && m.toolCallId.any (fun id => id ∈ C)) =
      ∑ id ∈ C, (resultsFor ms id).length := by
  induction ms with
  | nil => simp [resultsFor]
  | cons m ms ih =>
      have hone : (∑ id ∈ C, if m.isTool = true ∧ m.toolCallId = some id then 1 else 0) =
          if (m.isTool && m.toolCallId.any (fun id => id ∈ C)) = true then 1 else 0 := by
        cases m.isTool with
        | false => simp
        | true =>
            cases m.toolCallId with
            | none => simp
            | some id => simp [Finset.sum_ite_eq]
      simp only [length_resultsFor_cons, Finset.sum_add_distrib, hone, List.countP_cons, ih]
      omega

theorem calledIds_toFinset (ms : List ChatMessage) :
    (calledIds ms).toFinset = (allCallIds ms).toFinset := by
  ext id
  rw [List.mem_toFinset, List.mem_toFinset, mem_calledIds]

theorem sum_calledIds (f : String → ℕ) :
    ((calledIds ms).map f).sum = ∑ id ∈ (allCallIds ms).toFinset, f id := by
  rw [← calledIds_toFinset, List.sum_toFinset f (calledIds_nodup ms)]

/-- A tool message has no id, or one that passes a test, or one that does not. -/
theorem countP_isTool_split (p : String → Bool) (ms : List ChatMessage) :
    ms.countP ChatMessage.isTool =
      ms.countP (fun m => m.isTool && m.toolCallId.isNone) +
        ms.countP (fun m => m.isTool && m.toolCallId.any p) +
        ms.countP (fun m => m.isTool && m.toolCallId.any (fun id => !p id)) := by
  induction ms with
  | nil => rfl
  | cons m ms ih =>
      simp only [List.countP_cons, ih]
      cases m.isTool with
      | false => simp
      | true =>
          cases m.toolCallId with
          | none =>
              simp
              omega
          | some id =>
              cases hp : p id <;> simp [hp] <;> omega

theorem toolCount_eq (ms : List ChatMessage) :
    toolCount ms = ms.countP (fun m => m.isTool && m.toolCallId.isNone) +
      ∑ id ∈ (allCallIds ms).toFinset, (resultsFor ms id).length +
      (repairToolUseResultPairing ms).2.droppedOrphans := by
  have hsplit := countP_isTool_split (fun id => decide (id ∈ (allCallIds ms).toFinset)) ms
  rw [countP_eq_sum] at hsplit
  rw [(report_eq ms).2.2.2, toolCount, hsplit]
  simp

theorem toolCount_repair (ms : List ChatMessage) :
    toolCount (repairToolUseResultPairing ms).1 = ∑ _id ∈ (allCallIds ms).toFinset, 1 := by
  have hlength := congrArg List.length (answerKeys_repair ms)
  rw [Pairing.answerKeys, List.length_map, List.length_map, ← List.countP_eq_length_filter]
    at hlength
  rw [← Finset.card_eq_sum_ones, ← calledIds_toFinset,
    List.toFinset_card_of_nodup (calledIds_nodup ms)]
  exact hlength

theorem addedSynthetic_eq (ms : List ChatMessage) :
    (repairToolUseResultPairing ms).2.addedSynthetic =
      ∑ id ∈ (allCallIds ms).toFinset, if (resultsFor ms id).length = 0 then 1 else 0 := by
  rw [(report_eq ms).2.1, (report_eq ms).1, ← sum_calledIds, ← List.countP_eq_length_filter]
  induction calledIds ms with
  | nil => rfl
  | cons id ids ih =>
      rw [List.countP_cons, List.map_cons, List.sum_cons, ih, Nat.add_comm]
      simp only [decide_eq_true_eq]

theorem droppedDuplicates_eq (ms : List ChatMessage) :
    (repairToolUseResultPairing ms).2.droppedDuplicates +
        ∑ id ∈ (allCallIds ms).toFinset, (resultsFor ms id).length =
      ∑ id ∈ (allCallIds ms).toFinset, (allCallIds ms).count id * (resultsFor ms id).length := by
  have h := (report_eq ms).2.2.1
  rw [sum_calledIds, Finset.sum_list_map_count] at h
  exact h

/-- For an id that is called `k` times and has `n` results. -/
theorem balance_of_id {k n : ℕ} (hk : 0 < k) :
    n + n + (if n = 0 then 1 else 0) + (if 2 ≤ k ∧ 0 < n then (k - 2) * n + 1 else 0) =
      1 + k * n + (if k = 1 then n - 1 else 0) := by
  rcases Nat.eq_zero_or_pos n with rfl | hn
  · simp
  · rcases Nat.lt_or_ge k 2 with hlt | hge
    · obtain rfl : k = 1 := by omega
      simp [hn.ne']
      omega
    · obtain ⟨j, rfl⟩ := Nat.exists_eq_add_of_le hge
      have hmul : (2 + j) * n = n + n + j * n := by rw [Nat.add_mul, Nat.two_mul]
      have hne : 2 + j ≠ 1 := by omega
      rw [if_neg hn.ne', if_pos ⟨hge, hn⟩, if_neg hne, hmul, Nat.add_sub_cancel_left]
      omega

theorem balance (ms : List ChatMessage) :
    ∑ id ∈ (allCallIds ms).toFinset, (resultsFor ms id).length +
        ∑ id ∈ (allCallIds ms).toFinset, (resultsFor ms id).length +
        (repairToolUseResultPairing ms).2.addedSynthetic + overcounted ms +
        ms.countP (fun m => m.isTool && m.toolCallId.isNone) =
      toolCount (repairToolUseResultPairing ms).1 +
        ∑ id ∈ (allCallIds ms).toFinset, (allCallIds ms).count id * (resultsFor ms id).length +
        uncounted ms := by
  have hsum := Finset.sum_congr (rfl : (allCallIds ms).toFinset = _) (fun id hid =>
    balance_of_id (n := (resultsFor ms id).length)
      (List.count_pos_iff.mpr (List.mem_toFinset.mp hid)))
  simp only [Finset.sum_add_distrib] at hsum
  have hover : overcounted ms = ∑ id ∈ (allCallIds ms).toFinset,
      if 2 ≤ (allCallIds ms).count id ∧ 0 < (resultsFor ms id).length then
        ((allCallIds ms).count id - 2) * (resultsFor ms id).length + 1
      else 0 := by
    simp only [overcounted, List.length_pos_iff]
  rw [addedSynthetic_eq, toolCount_repair, hover, uncounted]
  omega

/-- The report balances just when what it leaves out is as much as what it counts twice. -/
theorem report_conserves_iff (ms : List ChatMessage) :
    ReportConserves ms ↔ uncounted ms = overcounted ms := by
  have hin := toolCount_eq ms
  have hdup := droppedDuplicates_eq ms
  have hbalance := balance ms
  unfold ReportConserves
  omega

/-- A call with two results. -/
def resultTwice : List ChatMessage :=
  let tc : ToolCall := ⟨"call_1", "function", ⟨"read_file", "a"⟩⟩
  [{ plainMessage .assistant "" with toolCalls := some [tc] }, toolResult tc "text of a",
    toolResult tc "text of a, once more"]

/-- The second result is dropped, and all counters are zero. -/
theorem second_result_not_reported :
    ¬ ReportConserves resultTwice ∧
      (repairToolUseResultPairing resultTwice).2 = ⟨0, 0, 0, true⟩ := by
  decide


end Oclaw.AgentCore
