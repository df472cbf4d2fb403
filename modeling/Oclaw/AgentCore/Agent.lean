import Oclaw.AgentCore.ContextBudget
import Oclaw.AgentCore.LoopDetect
import Oclaw.AgentCore.Transcript
import Oclaw.AgentCore.TranscriptRepair
import Oclaw.ToolsCore.Approval
import Mathlib.Data.Int.Notation

/-!
# The agent

`Agent::initialize`, `run` and `run_with_tools` of `crates/agent-core/src/agent.rs`.
The provider, the tool executor, the memory backend, the file system's verdict on
an append, request ids and clock readings are answered by an outside world of any
type; the model passes its state along.

An agent leaves a tape: its history, its transcript file and a log of what it did.
The log is not part of the program; it is what statements about whole sequences of
calls refer to.
-/

namespace Oclaw.AgentCore

open Oclaw.Lib Oclaw.ToolsCore

/-! ## §1  Provider, tools and memory -/

inductive LlmError : Type where
  | apiError (msg : String)
  | authError (msg : String)
  | rateLimitError (msg : String)
  | invalidRequest (msg : String)
  | parseError (msg : String)
  | networkError (msg : String)
  | timeout (msg : String)
  | unsupportedModel (msg : String)

def LlmError.text : LlmError → String
  | .apiError msg => "API error: " ++ msg
  | .authError msg => "Authentication error: " ++ msg
  | .rateLimitError msg => "Rate limit error: " ++ msg
  | .invalidRequest msg => "Invalid request: " ++ msg
  | .parseError msg => "Parse error: " ++ msg
  | .networkError msg => "Network error: " ++ msg
  | .timeout msg => "Timeout: " ++ msg
  | .unsupportedModel msg => "Unsupported model: " ++ msg

inductive ErrorClass : Type where
  | rateLimit
  | authFailure
  | contextOverflow
  | networkError
  | providerError
  | toolError
  | unknown

def classifyError (err : String) : ErrorClass :=
  let lower := toLowercase err
  let mentions (texts : List String) : Bool := texts.any (contains lower)
  if mentions ["rate limit", "rate_limit", "429", "too many requests", "quota exceeded",
      "throttlingexception", "throttling"] then .rateLimit
  else if mentions ["401", "403", "unauthorized", "forbidden", "invalid api key",
      "invalid_api_key", "authentication"] then .authFailure
  else if mentions ["context length exceeded", "maximum context", "too many tokens",
      "content_too_large", "request too large", "context_length"] then .contextOverflow
  else if mentions ["timeout", "timed out", "connection reset", "connection refused", "dns",
      "network", "eof"] then .networkError
  else if mentions ["500", "502", "503", "504", "internal server error",
      "service unavailable", "bad gateway", "overloaded"] then .providerError
  else if mentions ["tool error", "tool execution", "tool '"] then .toolError
  else .unknown

def ErrorClass.shouldRetry : ErrorClass → Bool
  | .rateLimit | .networkError | .providerError | .unknown => true
  | _ => false

inductive AgentError : Type where
  | initError (msg : String)
  | executionError (msg : String)
  | modelError (msg : String)
  | authError (msg : String)
  | subagentError (msg : String)
  | notFound (msg : String)
  | timeout (msg : String)
  | rateLimited (msg : String)
  | contextOverflow (msg : String)

structure Tool : Type where
  type_ : String
  name : String
  description : String
  parameters : String

structure ChatRequest : Type where
  model : String
  messages : List ChatMessage
  temperature : Option Float
  maxTokens : Option ℤ
  tools : Option (List Tool)

structure Usage : Type where
  promptTokens : ℤ
  completionTokens : ℤ

structure ChatCompletion : Type where
  /-- The messages of the choices. -/
  choices : List ChatMessage
  usage : Option Usage

structure UsageSummary : Type where
  inputTokens : ℤ
  outputTokens : ℤ
  totalCalls : ℕ

/-- `i64::saturating_add` -/
def satAddInt (a b : ℤ) : ℤ := max (-0x8000000000000000) (min (a + b) 0x7FFFFFFFFFFFFFFF)

def UsageSummary.record (u : UsageSummary) (usage : Usage) : UsageSummary where
  inputTokens := satAddInt u.inputTokens usage.promptTokens
  outputTokens := satAddInt u.outputTokens usage.completionTokens
  totalCalls := min (u.totalCalls + 1) 0xFFFFFFFF

structure AutoRecallConfig : Type where
  enabled : Bool
  maxResults : ℕ
  minScore : Float

/-- `scoreText` is the score with two decimals. -/
structure RecallResult : Type where
  key : String
  content : String
  scoreText : String

def formatRecallContext (results : List RecallResult) : Option ChatMessage :=
  if results = [] then none
  else
    let line (r : RecallResult) : String :=
      "- [" ++ r.key ++ "] (score " ++ r.scoreText ++ "): " ++ r.content ++ "\n"
    some
      { role := .system
        content := "## Recalled from memory\n" ++ String.join (results.map line)
        name := some "memory_recall"
        toolCalls := none
        toolCallId := none }

/-- What the agent calls, as functions of the state of the outside world. -/
structure Outside (W : Type) : Type where
  chat : ChatRequest → W → Except LlmError ChatCompletion × W
  execute : String → String → W → Except String String × W
  availableTools : W → List Tool
  memoryRecall : String → ℕ → Float → W → List RecallResult × W
  /-- A fresh request id and a clock reading. -/
  approvalTicket : W → (String × ℕ) × W
  /-- Whether an append to the transcript file succeeds. -/
  appends : W → Bool × W
  /-- The line that marks a compaction with its summary. -/
  compactionMarker : String → W → String × W
  /-- `Debug` for the last error of `run`. -/
  debugError : Option LlmError → String
  hashStr : String → UInt64
  bpe : Encodings
  codec : JsonCodec

/-! ## §2  Agent and tape -/

structure AgentConfig : Type where
  model : String
  systemPrompt : Option String
  maxTokens : Option ℤ
  temperature : Option Float
  maxRetries : Option ℤ
  maxIterations : Option ℕ

/-- What the builder methods set and no run changes. -/
structure AgentSetup : Type where
  config : AgentConfig
  hasTranscript : Bool
  historyLimit : Option ℕ
  compactionConfig : Option CompactionConfig
  pruningConfig : Option PruningConfig
  recallConfig : Option AutoRecallConfig
  contextGuard : Option ContextGuard

inductive AgentState : Type where
  | idle
  | initializing
  | running
  | waitingForResponse
  | error
  | stopped

inductive AgentEvent : Type where
  | request (r : ChatRequest)
  | push (m : ChatMessage)
  | persist (m : ChatMessage)
  | flagged (tc : ToolCall) (level : LoopLevel)
  | refused (tc : ToolCall) (decision : ApprovalDecision)
  | truncated
  | compacted

structure Tape : Type where
  history : List ChatMessage
  file : Option String
  log : List AgentEvent

structure Live (W : Type) : Type where
  state : AgentState
  approvalGate : Option ApprovalGate
  usage : UsageSummary
  world : W
  tape : Tape

namespace Tape

def emit (t : Tape) (e : AgentEvent) : Tape := { t with log := t.log ++ [e] }

def push (t : Tape) (m : ChatMessage) : Tape :=
  { t with history := t.history ++ [m], log := t.log ++ [.push m] }

def persist (t : Tape) (codec : JsonCodec) (m : ChatMessage) : Tape :=
  { t with file := Transcript.append codec t.file m, log := t.log ++ [.persist m] }

/-- `transcript_append` and the push to the history; `saved` says whether there is
a transcript and the append succeeded. -/
def record (t : Tape) (codec : JsonCodec) (saved : Bool) (m : ChatMessage) : Tape :=
  (if saved then t.persist codec m else t).push m

/-- Replace texts of the history in place. -/
def rewrite (t : Tape) (history : List ChatMessage) : Tape :=
  { t with history := history, log := t.log ++ [.truncated] }

def compact (t : Tape) (history : List ChatMessage) (file : Option String) : Tape :=
  ⟨history, file, t.log ++ [.compacted]⟩

end Tape

def prepareMessages (A : AgentSetup) (history : List ChatMessage) : List ChatMessage :=
  let msgs := match A.pruningConfig with
    | some cfg => pruneToolResults cfg history
    | none => history
  match A.historyLimit with
  | some limit => limitHistoryTurns msgs limit
  | none => msgs

/-- The request for a history; `run` offers no tools. -/
def buildRequest (A : AgentSetup) (tools : Option (List Tool)) (history : List ChatMessage) :
    ChatRequest where
  model := A.config.model
  messages := prepareMessages A history
  temperature := A.config.temperature
  maxTokens := A.config.maxTokens
  tools := tools

/-- The request for a summary of the old part of a history. -/
def summaryRequest (A : AgentSetup) (old : List ChatMessage) : ChatRequest where
  model := A.config.model
  messages := old ++ [plainMessage .user compactionPrompt]
  temperature := some 0.0
  maxTokens := some 2048
  tools := none

def maxOverflowCompactionAttempts : ℕ := 3
def maxToolChars : ℕ := 400000

/-! ## §3  Running an agent -/

variable {W : Type} (O : Outside W) (A : AgentSetup)

namespace Live

def setState (s : Live W) (state : AgentState) : Live W := { s with state := state }

def push (s : Live W) (m : ChatMessage) : Live W := { s with tape := s.tape.push m }

def record (s : Live W) (m : ChatMessage) : Live W :=
  if A.hasTranscript then
    let (ok, w) := O.appends s.world
    { s with world := w, tape := s.tape.record O.codec ok m }
  else { s with tape := s.tape.record O.codec false m }

def chat (s : Live W) (r : ChatRequest) : Except LlmError ChatCompletion × Live W :=
  let (resp, w) := O.chat r s.world
  (resp, { s with world := w, tape := s.tape.emit (.request r) })

def recordUsage (s : Live W) (usage : Option Usage) : Live W :=
  match usage with
  | some u => { s with usage := s.usage.record u }
  | none => s

/-- The retry loop of `run`. -/
def runAttempts (r : ChatRequest) (maxRetries : ℤ) :
    ℕ → Option LlmError → Live W → Except AgentError String × Live W
  | 0, lastError, s =>
      (.error (.modelError ("Failed after " ++ toString maxRetries ++ " attempts: " ++
        O.debugError lastError)), s.setState .error)
  | n + 1, lastError, s =>
      match s.chat O r with
      | (.ok response, s) =>
          let s := s.recordUsage response.usage
          match response.choices with
          | choice :: _ =>
              let s := s.record O A (assistantMessage choice.content none)
              (.ok choice.content, s.setState .idle)
          | [] => runAttempts r maxRetries n lastError s
      | (.error e, s) => runAttempts r maxRetries n (some e) s

def run (input : String) (s : Live W) : Except AgentError String × Live W :=
  let s := s.setState .running
  let s := s.record O A (plainMessage .user input)
  let s := s.setState .waitingForResponse
  let request := buildRequest A none s.tape.history
  let maxRetries := A.config.maxRetries.getD 3
  s.runAttempts O A request maxRetries maxRetries.toNat none

/-- The retry loop of `chat_with_retry`. -/
def chatAttempts (r : ChatRequest) (maxRetries : ℤ) :
    ℕ → String → Live W → Except AgentError ChatCompletion × Live W
  | 0, lastErr, s =>
      (.error (.modelError ("Failed after " ++ toString maxRetries ++ " retries: " ++
        lastErr)), s)
  | n + 1, _, s =>
      match s.chat O r with
      | (.ok resp, s) => (.ok resp, s.recordUsage resp.usage)
      | (.error e, s) =>
          match classifyError e.text with
          | .contextOverflow => (.error (.contextOverflow e.text), s)
          | .authFailure => (.error (.authError e.text), s)
          | c =>
              if c.shouldRetry then chatAttempts r maxRetries n e.text s
              else (.error (.modelError e.text), s)

def chatWithRetry (r : ChatRequest) (s : Live W) : Except AgentError ChatCompletion × Live W :=
  let maxRetries := A.config.maxRetries.getD 3
  s.chatAttempts O r maxRetries maxRetries.toNat ""

/-- The retry loop of `generate_summary`. -/
def summaryAttempts (r : ChatRequest) : ℕ → Live W → Option String × Live W
  | 0, s => (none, s)
  | n + 1, s =>
      match s.chat O r with
      | (.ok resp, s) => (some ((resp.choices.head?.map ChatMessage.content).getD ""), s)
      | (.error _, s) => summaryAttempts r n s

def tryCompact (s : Live W) : Live W :=
  match A.compactionConfig with
  | none => s
  | some cfg =>
      if needsCompaction O.bpe s.tape.history A.config.model cfg then
        let history := s.tape.history
        let splitIdx := compactionSplit O.bpe history A.config.model cfg
        match s.summaryAttempts O (summaryRequest A (history.take splitIdx))
          cfg.retryAttempts with
        | (none, s) => s
        | (some summaryText, s) =>
            let compacted := compactedHistory history splitIdx summaryText
            if A.hasTranscript then
              let (marker, w) := O.compactionMarker
                ((compacted.head?.map ChatMessage.content).getD "") s.world
              let (ok, w) := O.appends w
              let file := if ok then some (s.tape.file.getD "" ++ marker ++ "\n")
                else s.tape.file
              { s with world := w, tape := s.tape.compact compacted file }
            else { s with tape := s.tape.compact compacted s.tape.file }
      else s

def guardContext (s : Live W) : Live W :=
  match A.contextGuard with
  | none => s
  | some guard =>
      match guard.checkBudget O.bpe s.tape.history A.config.model with
      | .truncateNeeded _ _ =>
          { s with
            tape := s.tape.rewrite
              (guard.truncateToolResults O.bpe s.tape.history A.config.model) }
      | _ => s

/-- The warning the loop detector puts into the conversation. -/
def loopWarning (msg : String) : ChatMessage where
  role := .user
  content := msg
  name := some "system"
  toolCalls := none
  toolCallId := none

/-- Execute an approved call and record its outcome. -/
def executeTool (tc : ToolCall) (d : LoopDetector) (s : Live W) : LoopDetector × Live W :=
  let (result, w) := O.execute tc.function.name tc.function.arguments s.world
  let content := match result with
    | .ok output => truncateToolResult output maxToolChars
    | .error err => "Error: " ++ err
  (d.recordOutcome O.hashStr content, { s with world := w }.record O A (toolResult tc content))

/-- What the gate and the executor do with one call. -/
def answerCall (tc : ToolCall) (d : LoopDetector) (s : Live W) : LoopDetector × Live W :=
  match s.approvalGate with
  | none => s.executeTool O A tc d
  | some gate =>
      match gate.check tc.function.name with
      | .denied =>
          (d, { s with tape := s.tape.emit (.refused tc .denied) }.push
            (toolResult tc ("Tool '" ++ tc.function.name ++ "' denied by approval policy")))
      | .pending =>
          let ((id, nowMs), w) := O.approvalTicket s.world
          let (req, gate) := gate.requestApproval tc.function.name tc.function.arguments nowMs id
          let s := { s with
            world := w, approvalGate := some gate, tape := s.tape.emit (.refused tc .pending) }
          (d, s.push (toolResult tc
            ("Tool '" ++ tc.function.name ++ "' requires approval (request_id=" ++ req.id ++ ")")))
      | .approved => s.executeTool O A tc d

def runToolCall (tc : ToolCall) (d : LoopDetector) (s : Live W) :
    Except AgentError LoopDetector × Live W :=
  let detection := d.detect O.hashStr tc.function.name tc.function.arguments
  let d := d.record O.hashStr tc.function.name tc.function.arguments
  match detection.level with
  | .critical =>
      (.error (.executionError (detection.message.getD "Tool loop detected")),
        { s with tape := s.tape.emit (.flagged tc .critical) }.setState .error)
  | .warning =>
      let s := { s with tape := s.tape.emit (.flagged tc .warning) }
      let s := match detection.message with
        | some msg => s.push (loopWarning msg)
        | none => s
      let (d, s) := s.answerCall O A tc d
      (.ok d, s)
  | .none =>
      let (d, s) := s.answerCall O A tc d
      (.ok d, s)

def runToolCalls : List ToolCall → LoopDetector → Live W →
    Except AgentError LoopDetector × Live W
  | [], d, s => (.ok d, s)
  | tc :: tcs, d, s =>
      match s.runToolCall O A tc d with
      | (.error e, s) => (.error e, s)
      | (.ok d, s) => runToolCalls tcs d s

/-- The iterations of `run_with_tools` that are left. -/
def toolLoop (tools : List Tool) (maxIterations : ℕ) :
    ℕ → ℕ → LoopDetector → Live W → Except AgentError String × Live W
  | 0, _, _, s =>
      (.error (.executionError ("Max tool iterations (" ++ toString maxIterations ++
        ") reached without final response")), s.setState .error)
  | n + 1, overflowAttempts, d, s =>
      let s := ((s.setState .waitingForResponse).tryCompact O A).guardContext O A
      let request := buildRequest A (some tools) s.tape.history
      match s.chatWithRetry O A request with
      | (.error (.contextOverflow msg), s) =>
          if overflowAttempts < maxOverflowCompactionAttempts then
            let s := { s with
              tape := s.tape.rewrite (truncateHistoryToolResults s.tape.history) }
            toolLoop tools maxIterations n (overflowAttempts + 1) d s
          else (.error (.contextOverflow msg), s.setState .error)
      | (.error e, s) => (.error e, s.setState .error)
      | (.ok response, s) =>
          match response.choices with
          | [] => (.error (.modelError "No choices in response"), s)
          | choice :: _ =>
              let s := s.record O A (assistantMessage choice.content choice.toolCalls)
              match choice.toolCalls with
              | some (tc :: tcs) =>
                  match s.runToolCalls O A (tc :: tcs) d with
                  | (.error e, s) => (.error e, s)
                  | (.ok d, s) => toolLoop tools maxIterations n overflowAttempts d s
              | _ => (.ok choice.content, s.setState .idle)

def autoRecall (input : String) (s : Live W) : Live W :=
  match A.recallConfig with
  | none => s
  | some cfg =>
      if cfg.enabled then
        let (results, w) := O.memoryRecall input cfg.maxResults cfg.minScore s.world
        let s := { s with world := w }
        match formatRecallContext results with
        | some ctxMsg => s.push ctxMsg
        | none => s
      else s

def runWithTools (input : String) (s : Live W) : Except AgentError String × Live W :=
  let s := s.setState .running
  let s := s.record O A (plainMessage .user input)
  let s := s.autoRecall O A input
  let tools := O.availableTools s.world
  let maxIterations := A.config.maxIterations.getD 32
  s.toolLoop O A tools maxIterations maxIterations 0 .new

/-- Put the current system prompt in the place of the first message, if that is a
system message, else in front of it. -/
def withSystemPrompt (prompt : Option String) (history : List ChatMessage) : List ChatMessage :=
  match prompt with
  | none => history
  | some text =>
      let fresh := plainMessage .system text
      match history with
      | first :: rest => if first.role = .system then fresh :: rest else fresh :: first :: rest
      | [] => [fresh]

/-- `Agent::initialize`: the history is the repaired transcript, if there is any. -/
def initializeAgent (s : Live W) : Live W :=
  let loaded := if A.hasTranscript then Transcript.load O.codec s.tape.file else []
  let history :=
    if loaded = [] then
      s.tape.history ++ (A.config.systemPrompt.map (plainMessage .system)).toList
    else withSystemPrompt A.config.systemPrompt (repairToolUseResultPairing loaded).1
  { s with state := .idle, tape := { s.tape with history := history } }

/-- A new agent beside an existing transcript file. -/
def new (gate : Option ApprovalGate) (world : W) (file : Option String) : Live W where
  state := .idle
  approvalGate := gate
  usage := ⟨0, 0, 0⟩
  world := world
  tape := ⟨[], file, []⟩

end Live

inductive AgentCall : Type where
  | run (input : String)
  | runWithTools (input : String)

def Live.call (s : Live W) : AgentCall → Live W
  | .run input => (s.run O A input).2
  | .runWithTools input => (s.runWithTools O A input).2

/-- A sequence of calls on one agent. -/
def Live.session (s : Live W) (calls : List AgentCall) : Live W :=
  calls.foldl (Live.call O A) s

end Oclaw.AgentCore
