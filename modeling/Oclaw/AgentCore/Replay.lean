import Oclaw.AgentCore.TranscriptMirror
import Mathlib.Logic.Encodable.Basic
import Mathlib.Logic.Equiv.List

/-!
# Restoring a conversation from its transcript

A fresh agent reads the transcript, repairs it and puts the system prompt in front.
The repair leaves a mirrored session as it is and answers every skipped call with a
synthetic error. So the restored conversation agrees with the live one exactly when
no call was skipped.
-/

namespace Oclaw.AgentCore

open Oclaw.Lib Oclaw.ToolsCore

variable {W : Type} {O : Outside W} {A : AgentSetup} {t : Tape} {loaded : List ChatMessage}

/-! ## §1  The restored conversation -/

/-- The texts of the results for a call id. -/
def resultsOf (ms : List ChatMessage) (id : String) : List String :=
  (ms.filter (fun m => m.isTool && m.toolCallId == some id)).map ChatMessage.content

/-- User inputs and assistant messages. -/
def dialogue (ms : List ChatMessage) : List ChatMessage :=
  ms.filter (fun m => m.role == .assistant || m.isInput)

/-- `restored` has the inputs and assistant messages of `live`, and for each of its
calls the results that `live` has. -/
structure Replays (restored live : List ChatMessage) : Prop where
  results : ∀ tc ∈ allCalls restored, resultsOf restored tc.id = resultsOf live tc.id
  dialogue : dialogue restored = dialogue live

/-- An agent at the start of its session, with the messages it found in its
transcript. -/
inductive Opened (O : Outside W) (A : AgentSetup) (loaded : List ChatMessage) :
    Live W → Prop where
  | fresh (gate : Option ApprovalGate) (w : W) : loaded = [] →
      Opened O A loaded (Live.new gate w none)
  | initialized (gate : Option ApprovalGate) (w : W) :
      Opened O A loaded
        ((Live.new gate w (Transcript.written O.codec loaded)).initializeAgent O A)

/-- The calls of a session have ids of their own: different from each other and from
every id in the transcript it started with. -/
structure FreshIds (loaded session : List ChatMessage) : Prop where
  nodup : (allCallIds (loaded ++ session)).Nodup
  results : ∀ m ∈ loaded, m.isTool = true → ∀ id, m.toolCallId = some id →
    id ∉ allCallIds session

section Selections

variable {p : ChatMessage → Bool} (hsystem : ∀ m, m.role = .system → p m = false)
include hsystem

/-- Selections that drop system messages do not see the system prompt. -/
theorem filter_withSystemPrompt (prompt : Option String) (history : List ChatMessage) :
    (Live.withSystemPrompt prompt history).filter p = history.filter p := by
  unfold Live.withSystemPrompt
  split
  · rfl
  · rename_i text
    have hfresh : p (plainMessage .system text) = false := hsystem _ rfl
    simp only
    split
    · split
      · rename_i hfirst
        simp [hfresh, hsystem _ hfirst]
      · simp [hfresh]
    · simp [hfresh]

theorem filter_initialized (hcodec : O.codec.Lawful) (hA : A.hasTranscript = true)
    (gate : Option ApprovalGate) (w : W) (ms : List ChatMessage) :
    ((Live.new gate w (Transcript.written O.codec ms)).initializeAgent O A).tape.history.filter
        p = (repairToolUseResultPairing ms).1.filter p := by
  have hload : (if A.hasTranscript then Transcript.load O.codec
      (Live.new gate w (Transcript.written O.codec ms)).tape.file else []) = ms := by
    rw [if_pos hA]
    exact Transcript.load_written hcodec ms
  unfold Live.initializeAgent
  rw [hload]
  by_cases hempty : ms = []
  · subst hempty
    simp only [if_true]
    cases A.config.systemPrompt with
    | none => rfl
    | some text => simp [Live.new, hsystem, plainMessage, repairToolUseResultPairing, Repair.start]
  · simp only [hempty, if_false]
    exact filter_withSystemPrompt hsystem _ _

theorem Opened.filter_history (hcodec : O.codec.Lawful) (hA : A.hasTranscript = true)
    {s : Live W} (h : Opened O A loaded s) :
    s.tape.history.filter p = (repairToolUseResultPairing loaded).1.filter p := by
  cases h with
  | fresh gate w hempty =>
      rw [hempty]
      rfl
  | initialized gate w => exact filter_initialized hsystem hcodec hA gate w loaded

end Selections

theorem Opened.mirrored {s : Live W} (h : Opened O A loaded s) :
    Mirrored O.codec loaded (.idle, s.tape) := by
  cases h with
  | fresh gate w hempty =>
      rw [hempty]
      exact ⟨rfl, fun _ => rfl, fun _ => rfl⟩
  | initialized gate w =>
      refine ⟨?_, fun _ => rfl, fun _ => rfl⟩
      show Transcript.written O.codec loaded = Transcript.written O.codec (loaded ++ [])
      rw [List.append_nil]

theorem Opened.accounted {s : Live W} (h : Opened O A loaded s) :
    CallsAccounted (.idle, s.tape) := by
  intro _
  cases h with
  | fresh gate w hempty => exact ⟨[], rfl, by simp [Live.new, pushed, persisted],
      by simp [Live.new, skippedCalls]⟩
  | initialized gate w => exact ⟨[], rfl, by
      simp [Live.initializeAgent, Live.new, pushed, persisted], by
      simp [Live.initializeAgent, Live.new, skippedCalls]⟩

theorem Opened.history_eq {s : Live W} (h : Opened O A loaded s) :
    truncatedTexts s.tape.log = false → s.tape.history = s.tape.history ++ pushed s.tape.log := by
  intro _
  cases h <;> simp [Live.initializeAgent, Live.new, pushed]

/-- Without skipped calls every selection of inputs, assistant messages and results
is restored. -/
theorem filter_restored {p : ChatMessage → Bool} {restored start : List ChatMessage}
    (hkept : ∀ m, p m = true → m.isKept = true)
    (hmirror : Mirrored O.codec loaded (.idle, t)) (hskip : skippedCalls t.log = [])
    (hids : FreshIds loaded (persisted t.log))
    (hrestored : restored.filter p =
      (repairToolUseResultPairing (loaded ++ persisted t.log)).1.filter p)
    (hstart : start.filter p = (repairToolUseResultPairing loaded).1.filter p) :
    restored.filter p = (start ++ pushed t.log).filter p := by
  have hpaired : Paired (persisted t.log) :=
    Pairing.paired_iff_owedAfter.mpr (hmirror.owes hskip)
  have hsame : (persisted t.log).filter p = (pushed t.log).filter p := by
    rw [show persisted t.log = _ from hmirror.kept hskip, List.filter_filter]
    apply List.filter_congr
    intro m _
    cases hp : p m with
    | false => simp
    | true => simp [hkept m hp]
  rw [hrestored, repair_append_paired hpaired hids.nodup hids.results, List.filter_append,
    List.filter_append, hstart, hsame]

/-- A skipped call is restored with the synthetic error, which the live agent never
had for it. -/
theorem not_replays_of_skipped {restored start : List ChatMessage} {tc : ToolCall}
    (hacc : CallsAccounted (.idle, t)) (htc : tc ∈ skippedCalls t.log)
    (hids : FreshIds loaded (persisted t.log))
    (hrestored : ∀ p : ChatMessage → Bool, (∀ m, m.role = .system → p m = false) →
      restored.filter p = (repairToolUseResultPairing (loaded ++ persisted t.log)).1.filter p)
    (hstart : ∀ p : ChatMessage → Bool, (∀ m, m.role = .system → p m = false) →
      start.filter p = (repairToolUseResultPairing loaded).1.filter p) :
    ¬ Replays restored (start ++ pushed t.log) := by
  intro hreplays
  have hnodup := hids.nodup
  rw [allCallIds_append, List.nodup_append] at hnodup
  obtain ⟨closed, haccounted⟩ := hacc hnodup.2.1
  obtain ⟨hclosed, hnone, hrefusal⟩ := haccounted.skips tc htc
  have hcall : tc ∈ allCalls (persisted t.log) := by
    rw [haccounted.calls]
    exact List.mem_append_left _ hclosed
  have hid : tc.id ∈ allCallIds (persisted t.log) := by
    rw [allCallIds_eq]
    exact List.mem_map_of_mem hcall
  have hmem : ∀ p : ChatMessage → Bool, (∀ m, m.role = .system → p m = false) →
      ∀ m, p m = true → m ∈ (repairToolUseResultPairing (loaded ++ persisted t.log)).1 →
        m ∈ restored := by
    intro p hsystem m hm hin
    have hfilter := List.mem_filter.mpr ⟨hin, hm⟩
    rw [← hrestored p hsystem] at hfilter
    exact List.mem_of_mem_filter hfilter
  -- The call survives in the restored history.
  have htc' : tc ∈ allCalls restored := by
    obtain ⟨m, hm, htcm⟩ := List.mem_flatMap.mp hcall
    have hrole : m.role = .assistant := by
      by_contra hne
      simp [ChatMessage.calls, hne] at htcm
    refine List.mem_flatMap.mpr ⟨m, ?_, htcm⟩
    apply hmem (fun m => m.role == .assistant) (by simp +contextual) m (by simp [hrole])
    have hentry : m ∈ nonTool (repairToolUseResultPairing (loaded ++ persisted t.log)).1 := by
      rw [nonTool_repair]
      refine List.mem_filter.mpr ⟨List.mem_append_right _ hm, ?_⟩
      simp [toolPairing, ChatMessage.isTool, hrole]
    exact List.mem_of_mem_filter hentry
  have hsynthetic : syntheticError ∈ resultsOf restored tc.id := by
    refine List.mem_map.mpr ⟨makeSyntheticResult tc.id tc.function.name, ?_, rfl⟩
    refine List.mem_filter.mpr ⟨?_, by simp [makeSyntheticResult, ChatMessage.isTool]⟩
    apply hmem ChatMessage.isTool (by simp +contextual [ChatMessage.isTool]) _ rfl
    apply synthetic_mem_repair
    · rw [List.flatMap_append]
      exact List.mem_append_right _ hcall
    · exact hids.nodup
    · intro r hr htool hrid
      rcases List.mem_append.mp hr with hr | hr
      · exact hids.results r hr htool tc.id hrid hid
      · exact hnone r hr htool hrid
  -- So the live agent would have had it, too: in what it loaded or in what it pushed.
  rw [hreplays.results tc htc'] at hsynthetic
  obtain ⟨r, hr, hcontent⟩ := List.mem_map.mp hsynthetic
  obtain ⟨hr, hcond⟩ := List.mem_filter.mp hr
  simp only [Bool.and_eq_true, beq_iff_eq] at hcond
  rcases List.mem_append.mp hr with hr | hr
  · have hfilter := List.mem_filter.mpr ⟨hr, hcond.1⟩
    rw [hstart ChatMessage.isTool (by simp +contextual [ChatMessage.isTool])] at hfilter
    have hloaded := mem_allCallIds_of_repaired (List.mem_of_mem_filter hfilter) hcond.1 hcond.2
    exact hnodup.2.2 tc.id hloaded tc.id hid rfl
  · -- a refusal starts with `Tool`, the synthetic error with a bracket
    have hhead := hrefusal r hr hcond.1 hcond.2
    rw [hcontent] at hhead
    exact absurd hhead (by decide)

def MessageRole.text : MessageRole → String
  | .system => "system"
  | .user => "user"
  | .assistant => "assistant"
  | .tool => "tool"

/-- The JSON of a message whose texts need no escapes. -/
def jsonText (m : ChatMessage) : String :=
  let call (tc : ToolCall) : String :=
    "\x7b\"id\":\"" ++ tc.id ++ "\",\"type\":\"" ++ tc.type_ ++
      "\",\"function\":\x7b\"name\":\"" ++ tc.function.name ++
      "\",\"arguments\":\"" ++ tc.function.arguments ++ "\"\x7d\x7d"
  let name := (m.name.map (fun n => ",\"name\":\"" ++ n ++ "\"")).getD ""
  let calls := (m.toolCalls.map (fun tcs =>
    ",\"toolCalls\":[" ++ ",".intercalate (tcs.map call) ++ "]")).getD ""
  let id := (m.toolCallId.map (fun i => ",\"toolCallId\":\"" ++ i ++ "\"")).getD ""
  "\x7b\"role\":\"" ++ (m.role.text ++ ("\",\"content\":\"" ++ m.content ++ "\"" ++
    name ++ calls ++ id ++ "\x7d"))

instance encodableChar : Encodable Char :=
  .ofLeftInverse Char.toNat Char.ofNat Char.ofNat_toNat

instance encodableString : Encodable String :=
  .ofLeftInverse String.toList String.ofList (fun _ => String.ofList_toList)

instance encodableToolCall : Encodable ToolCall :=
  .ofLeftInverse (fun tc => (tc.id, tc.type_, tc.function.name, tc.function.arguments))
    (fun p => ⟨p.1, p.2.1, ⟨p.2.2.1, p.2.2.2⟩⟩) (fun _ => rfl)

instance encodableRole : Encodable MessageRole :=
  .ofLeftInverse (fun r => r.text)
    (fun s => if s = "system" then .system else if s = "user" then .user
      else if s = "assistant" then .assistant else .tool)
    (fun r => by cases r <;> rfl)

instance encodableMessage : Encodable ChatMessage :=
  .ofLeftInverse (fun m => (m.role, m.content, m.name, m.toolCalls, m.toolCallId))
    (fun p => ⟨p.1, p.2.1, p.2.2.1, p.2.2.2.1, p.2.2.2.2⟩) (fun _ => rfl)

def codecFor (known : List ChatMessage) : JsonCodec where
  toJson m :=
    if m ∈ known then jsonText m
    else String.ofList ('#' :: List.replicate (Encodable.encode m) 'x')
  ofJson s :=
    match known.find? (fun m => decide (jsonText m = s)) with
    | some m => some m
    | none => Encodable.decode (s.toList.length - 1)

theorem codecFor_lawful {known : List ChatMessage}
    (hread : ∀ m ∈ known, known.find? (fun m' => decide (jsonText m' = jsonText m)) = some m)
    (hline : ∀ m ∈ known, '\n' ∉ (jsonText m).toList ∧ '\r' ∉ (jsonText m).toList) :
    (codecFor known).Lawful := by
  refine ⟨?_, ?_⟩
  · intro m
    by_cases hm : m ∈ known
    · simp only [codecFor, hm, if_true, hread m hm]
    · have hnone : known.find? (fun m' => decide (jsonText m' =
          String.ofList ('#' :: List.replicate (Encodable.encode m) 'x'))) = none := by
        rw [List.find?_eq_none]
        intro m' _ heq
        have hhead := congrArg (fun s => s.toList.head?) (of_decide_eq_true heq)
        simp only [jsonText, String.toList_append, String.toList_ofList] at hhead
        cases hhead
      simp only [codecFor, hm, if_false, hnone, String.toList_ofList, List.length_cons,
        List.length_replicate, Nat.add_sub_cancel, Encodable.encodek]
  · intro m
    by_cases hm : m ∈ known
    · simpa only [codecFor, hm, if_true] using hline m hm
    · simp [codecFor, hm]

/-- One call of a tool, under the id `call_0`. -/
def oneCall (name : String) : ToolCall := ⟨"call_0", "function", ⟨name, "a"⟩⟩

/-- The messages of a session in which the provider asks for one call. -/
def callSession (name : String) : List ChatMessage :=
  [plainMessage .user "go", assistantMessage "" (some [oneCall name]),
    toolResult (oneCall name) "done", assistantMessage "" none]

def callOutside (name : String) : Outside ℕ :=
  { askOnce [oneCall name] with codec := codecFor (callSession name) }

/-- The default settings, with a transcript. -/
def recordedSetup : AgentSetup := { plainSetup with hasTranscript := true }

/-- The agent after the session, under the default approval policy. -/
def afterCall (name : String) : Live ℕ :=
  ((Live.new (some (.new .default)) 0 none).initializeAgent (callOutside name)
    recordedSetup).session (callOutside name) recordedSetup [.runWithTools "go"]

theorem noLineEnd_callSession {name : String}
    (hname : '\n' ∉ name.toList ∧ '\r' ∉ name.toList) :
    ∀ m ∈ callSession name, '\n' ∉ (jsonText m).toList ∧ '\r' ∉ (jsonText m).toList := by
  simp [callSession, jsonText, plainMessage, assistantMessage, toolResult, oneCall,
    MessageRole.text, hname]

theorem callOutside_lawful {name : String} (hname : name = "read_file" ∨ name = "bash") :
    (callOutside name).codec.Lawful := by
  rcases hname with rfl | rfl
  · exact codecFor_lawful (by decide) (noLineEnd_callSession (by simp))
  · exact codecFor_lawful (by decide) (noLineEnd_callSession (by simp))

/-- What is selected of the history restored after the session, read off the messages
in its file. -/
theorem filter_restored_call {name : String} {ms : List ChatMessage} {p : ChatMessage → Bool}
    (hcodec : (callOutside name).codec.Lawful)
    (hfile : (afterCall name).tape.file = Transcript.written (callOutside name).codec ms)
    (hsystem : ∀ m, m.role = .system → p m = false) :
    ((Live.new none 0 (afterCall name).tape.file).initializeAgent (callOutside name)
      recordedSetup).tape.history.filter p = (repairToolUseResultPairing ms).1.filter p := by
  rw [hfile]
  exact filter_initialized hsystem hcodec rfl none 0 ms

/-- The files of the two sessions. The refusal is missing from the second one. -/
theorem afterCall_file :
    (afterCall "read_file").tape.file =
      Transcript.written (callOutside "read_file").codec (callSession "read_file") ∧
    (afterCall "bash").tape.file =
      Transcript.written (callOutside "bash").codec [plainMessage .user "go",
        assistantMessage "" (some [oneCall "bash"]), assistantMessage "" none] :=
  ⟨rfl, rfl⟩

end Oclaw.AgentCore
