import Oclaw.AgentCore.Chat
import Oclaw.Lib.Text

/-!
# Keeping a conversation within its budget

Everything that shortens a history or the copy of it that is sent: the turn limit
(`history.rs`), pruning of old tool results (`pruning.rs`), the context guard
(`context_guard.rs`), the split of a compaction (`compaction.rs`) and the
truncation of results in `agent.rs`. The byte-pair encodings of the tokenizer
package are a parameter.
-/

namespace Oclaw.AgentCore

open Oclaw.Lib

/-! ## §1  Token counts -/

/-- The encoding of a model, if the tokenizer package has one: how many tokens a
text takes. -/
abbrev Encodings : Type := String → Option (String → ℕ)

namespace TokenCounter

def estimateFallback (text : String) : ℕ := (byteLen text.toList + 3) / 4

def count (bpe : Encodings) (text model : String) : ℕ :=
  match bpe model with
  | some encode => encode text
  | none => estimateFallback text

def estimateMessages (bpe : Encodings) (messages : List ChatMessage) (model : String) : ℕ :=
  let cost (m : ChatMessage) : ℕ :=
    count bpe m.content model + 4 + (m.name.map (fun name => count bpe name model)).getD 0
  messages.foldl (fun total m => total + cost m) 0 + 3

def maxTokens (model : String) : Option ℕ :=
  let m := toLowercase model
  if contains m "gpt-4o" then some 128000
  else if contains m "gpt-4-turbo" then some 128000
  else if contains m "gpt-4-32k" then some 32768
  else if contains m "gpt-4" then some 8192
  else if contains m "gpt-3.5-turbo-16k" then some 16385
  else if contains m "gpt-3.5" then some 4096
  else if contains m "claude-3" || contains m "claude-4" then some 200000
  else if contains m "gemini-pro" then some 32768
  else if contains m "gemini-1.5" then some 1048576
  else none

end TokenCounter

/-! ## §2  The turn limit -/

/-- The scan for the first kept message, newest first: its index is the number of
older messages. -/
def cutScan (maxTurns : ℕ) : ℕ → List ChatMessage → Option ℕ
  | _, [] => none
  | userCount, m :: older =>
      if m.role = .user then
        if maxTurns ≤ userCount + 1 then some older.length
        else cutScan maxTurns (userCount + 1) older
      else cutScan maxTurns userCount older

def limitHistoryTurns (messages : List ChatMessage) (maxTurns : ℕ) : List ChatMessage :=
  if maxTurns = 0 ∨ messages = [] then messages
  else
    let leading := messages.takeWhile (fun m => m.role == .system)
    let rest := messages.dropWhile (fun m => m.role == .system)
    let cutIdx := (cutScan maxTurns 0 rest.reverse).getD rest.length
    let result := leading ++ rest.drop cutIdx
    let keptTcIds : List String := result.flatMap (fun m => (m.toolCalls.getD []).map ToolCall.id)
    result.filter (fun m =>
      if m.role = .tool then m.toolCallId.all (fun id => decide (id ∈ keptTcIds)) else true)

/-! ## §3  Pruning of old results -/

structure PruningConfig : Type where
  softTrimMaxChars : ℕ
  headChars : ℕ
  tailChars : ℕ
  hardClearMaxChars : ℕ
  keepLastAssistants : ℕ

def PruningConfig.default : PruningConfig := ⟨4000, 1500, 1500, 50000, 3⟩

def pruneContent (config : PruningConfig) (content : String) : String :=
  let cs := content.toList
  let len := byteLen cs
  if config.hardClearMaxChars < len then
    "[Tool result cleared — " ++ toString len ++ " chars]"
  else if config.softTrimMaxChars < len then
    let head := floorStart (min config.headChars len) cs
    let tail := cs.drop (floorStart (len - config.tailChars) cs).length
    String.ofList head ++ "...\n[trimmed — " ++ toString len ++ " chars total]\n..." ++
      String.ofList tail
  else content

def pruneToolResults (config : PruningConfig) (messages : List ChatMessage) :
    List ChatMessage :=
  let protectedAssistants :=
    (messages.reverse.filter (fun m => m.role == .assistant)).take config.keepLastAssistants
  let protectedTcIds : List String :=
    protectedAssistants.flatMap (fun m => (m.toolCalls.getD []).map ToolCall.id)
  messages.map (fun m =>
    if m.role ≠ .tool then m
    else if m.toolCallId.any (fun id => decide (id ∈ protectedTcIds)) then m
    else { m with content := pruneContent config m.content })

/-! ## §4  Truncation in place -/

/-- `max_by_key` over the tool results: the index of the longest, and of the last
one when several are equally long. -/
def largestToolResult (messages : List ChatMessage) : Option ℕ :=
  let tools := (messages.zipIdx).filter (fun p => p.1.role == .tool)
  let longer (best : Option (ℕ × ℕ)) (p : ChatMessage × ℕ) : Option (ℕ × ℕ) :=
    let len := byteLen p.1.content.toList
    match best with
    | none => some (len, p.2)
    | some (len', idx') => if len' ≤ len then some (len, p.2) else some (len', idx')
  (tools.foldl longer none).map Prod.snd

/-- The first half of a text, cut back to its last line feed if there is one. -/
def firstHalf (cs : List Char) : List Char :=
  let half := floorStart (byteLen cs / 2) cs
  (beforeLast '\n' half).getD half

def rewriteContent (f : String → String) (m : ChatMessage) : ChatMessage :=
  { m with content := f m.content }

/-- `Agent::truncate_history_tool_results` -/
def truncateHistoryToolResults (history : List ChatMessage) : List ChatMessage :=
  match largestToolResult history with
  | none => history
  | some idx =>
      history.modify idx (rewriteContent (fun content =>
        String.ofList (firstHalf content.toList) ++
          "...\n[truncated for context limit, " ++ toString (byteLen content.toList) ++
          " chars total]"))

def truncationSuffix : String :=
  "\n\n[Content truncated — original was too large for the model's " ++
    "context window. If you need more, request specific sections or use " ++
    "offset/limit parameters.]"

/-- `Agent::truncate_tool_result` -/
def truncateToolResult (s : String) (maxChars : ℕ) : String :=
  let cs := s.toList
  if byteLen cs ≤ maxChars then s
  else
    let keep := max (maxChars - byteLen truncationSuffix.toList) 2000
    let kept := floorStart keep cs
    let cut := ((beforeLast '\n' kept).filter
      (fun start => decide (byteLen kept * 4 / 5 < byteLen start))).getD kept
    String.ofList cut ++ truncationSuffix

/-! ## §5  The context guard -/

/-- The guard with its two budgets as the configured ratios give them. -/
structure ContextGuard : Type where
  inputBudget : ℕ
  toolResultLimit : ℕ

inductive GuardAction : Type where
  | ok
  | warning (used budget : ℕ)
  | truncateNeeded (used budget : ℕ)

namespace ContextGuard

def checkBudget (g : ContextGuard) (bpe : Encodings) (messages : List ChatMessage)
    (model : String) : GuardAction :=
  let used := TokenCounter.estimateMessages bpe messages model
  let budget := g.inputBudget
  if budget < used then .truncateNeeded used budget
  else if 32000 < used ∧ budget * 3 / 4 < used then .warning used budget
  else .ok

/-- The first pass: one result over the limit for a single result. -/
def capResult (g : ContextGuard) (bpe : Encodings) (model : String) (m : ChatMessage) :
    ChatMessage :=
  let tok := TokenCounter.count bpe m.content model
  let maxChars := g.toolResultLimit * 4
  let cs := m.content.toList
  if m.role = .tool ∧ g.toolResultLimit < tok ∧ maxChars < byteLen cs then
    let safe := floorStart maxChars cs
    let cut := (beforeLast '\n' safe).getD safe
    rewriteContent (fun _ => String.ofList cut ++
      "\n\n[Truncated by context guard — original ~" ++ toString tok ++ " tokens, limit " ++
      toString g.toolResultLimit ++ "]") m
  else m

/-- The second pass: halve the largest result while the budget is exceeded, at
most `iterations` times. -/
def halveLargest (g : ContextGuard) (bpe : Encodings) (model : String) :
    ℕ → List ChatMessage → List ChatMessage
  | 0, messages => messages
  | iterations + 1, messages =>
      if TokenCounter.estimateMessages bpe messages model ≤ g.inputBudget then messages
      else
        match largestToolResult messages with
        | none => messages
        | some idx =>
            if (messages[idx]?.map (fun m => byteLen m.content.toList)).getD 0 ≤ 200 then
              messages
            else
              halveLargest g bpe model iterations
                (messages.modify idx (rewriteContent (fun content =>
                  String.ofList (firstHalf content.toList) ++
                    "\n\n[Truncated by context guard — halved for budget]")))

def truncateToolResults (g : ContextGuard) (bpe : Encodings) (messages : List ChatMessage)
    (model : String) : List ChatMessage :=
  halveLargest g bpe model 5 (messages.map (capResult g bpe model))

end ContextGuard

/-! ## §6  The split of a compaction -/

structure CompactionConfig : Type where
  reserveTokens : ℕ
  keepRecentTokens : ℕ
  retryAttempts : ℕ

def CompactionConfig.default : CompactionConfig := ⟨16384, 20000, 3⟩

def needsCompaction (bpe : Encodings) (messages : List ChatMessage) (model : String)
    (config : CompactionConfig) : Bool :=
  match TokenCounter.maxTokens model with
  | none => false
  | some limit =>
      decide (limit - config.reserveTokens < TokenCounter.estimateMessages bpe messages model)

/-- The scan for the split, newest message first. -/
def splitScan (cost : ChatMessage → ℕ) (keepRecent : ℕ) : ℕ → List ChatMessage → Option ℕ
  | _, [] => none
  | recent, m :: older =>
      if keepRecent < recent + cost m then some (older.length + 1)
      else splitScan cost keepRecent (recent + cost m) older

def compactionSplit (bpe : Encodings) (messages : List ChatMessage) (model : String)
    (config : CompactionConfig) : ℕ :=
  let cost (m : ChatMessage) : ℕ := TokenCounter.count bpe m.content model + 4
  let splitIdx := (splitScan cost config.keepRecentTokens 0 messages.reverse).getD messages.length
  if splitIdx ≤ 1 then 1 else splitIdx

def compactionPrompt : String :=
  "Summarize this conversation concisely, preserving key facts, " ++
    "decisions, code context, and any important details the assistant needs to continue helping."

/-- The history after a compaction, from the summary the provider gave. -/
def compactedHistory (messages : List ChatMessage) (splitIdx : ℕ) (summaryText : String) :
    List ChatMessage :=
  let kept := messages.drop splitIdx
  let summary := plainMessage .system ("[Conversation summary]\n" ++ summaryText)
  match messages.find? (fun m => m.role == .system) with
  | some sys => sys :: summary :: kept
  | none => summary :: kept

/-! ## §7  Truncation keeps the shape -/

theorem shape_rewriteContent (f : String → String) (m : ChatMessage) :
    (rewriteContent f m).shape = m.shape := rfl

theorem map_shape_modify (f : String → String) : ∀ (ms : List ChatMessage) (idx : ℕ),
    (ms.modify idx (rewriteContent f)).map ChatMessage.shape = ms.map ChatMessage.shape
  | [], 0 => rfl
  | [], _ + 1 => rfl
  | m :: ms, 0 => by simp [shape_rewriteContent]
  | m :: ms, idx + 1 => by simp [map_shape_modify f ms idx]

theorem map_shape_truncateHistory (ms : List ChatMessage) :
    (truncateHistoryToolResults ms).map ChatMessage.shape = ms.map ChatMessage.shape := by
  unfold truncateHistoryToolResults
  split
  · rfl
  · exact map_shape_modify _ ms _

theorem shape_capResult (g : ContextGuard) (bpe : Encodings) (model : String)
    (m : ChatMessage) : (g.capResult bpe model m).shape = m.shape := by
  unfold ContextGuard.capResult
  simp only
  split
  · exact shape_rewriteContent _ m
  · rfl

theorem map_shape_halveLargest (g : ContextGuard) (bpe : Encodings) (model : String) :
    ∀ (n : ℕ) (ms : List ChatMessage),
      (g.halveLargest bpe model n ms).map ChatMessage.shape = ms.map ChatMessage.shape
  | 0, ms => rfl
  | n + 1, ms => by
      unfold ContextGuard.halveLargest
      split
      · rfl
      · split
        · rfl
        · split
          · rfl
          · rw [map_shape_halveLargest g bpe model n, map_shape_modify]

theorem map_shape_truncateToolResults (g : ContextGuard) (bpe : Encodings)
    (ms : List ChatMessage) (model : String) :
    (g.truncateToolResults bpe ms model).map ChatMessage.shape = ms.map ChatMessage.shape := by
  unfold ContextGuard.truncateToolResults
  rw [map_shape_halveLargest, List.map_map]
  exact List.map_congr_left (fun m _ => shape_capResult g bpe model m)

/-- Pairing looks at the shape only. -/
theorem owedAfter_congr_shape : ∀ {ms ms' : List ChatMessage} {owed : List String},
    ms.map ChatMessage.shape = ms'.map ChatMessage.shape →
      toolPairing.owedAfter owed ms = toolPairing.owedAfter owed ms'
  | [], [], _, _ => rfl
  | [], _ :: _, _, h => by cases h
  | _ :: _, [], _, h => by cases h
  | m :: ms, m' :: ms', owed, h => by
      rw [List.map_cons, List.map_cons, List.cons.injEq] at h
      have hsettle : toolPairing.settle owed m = toolPairing.settle owed m' := by
        obtain ⟨hrole, hcalls, hid⟩ : m.role = m'.role ∧ m.toolCalls = m'.toolCalls ∧
            m.toolCallId = m'.toolCallId := by
          simpa [ChatMessage.shape] using h.1
        cases owed <;>
          simp [Pairing.settle, toolPairing, ChatMessage.isTool, ChatMessage.callIds,
            ChatMessage.calls, hrole, hcalls, hid]
      rw [Pairing.owedAfter_cons, Pairing.owedAfter_cons, hsettle]
      cases toolPairing.settle owed m' with
      | none => rfl
      | some owed' => exact owedAfter_congr_shape h.2

end Oclaw.AgentCore
