import Oclaw.Lib.Text

/-!
# The loop detector

`crates/agent-core/src/loop_detect.rs`: a sliding window of tool calls and the
four detectors that look at it. The standard library's hash of a text is a
parameter.
-/

namespace Oclaw.AgentCore

open Oclaw.Lib

def historySizeLimit : ℕ := 30
def warningThreshold : ℕ := 10
def criticalThreshold : ℕ := 20
def circuitBreakerThreshold : ℕ := 30

def isKnownPollTool (name args : String) : Bool :=
  if name = "command_status" then true
  else if name = "process" then contains args "\"poll\"" || contains args "\"log\""
  else false

inductive LoopLevel : Type where
  | none
  | warning
  | critical

structure LoopDetectionResult : Type where
  level : LoopLevel
  message : Option String

namespace LoopDetectionResult

def ok : LoopDetectionResult := ⟨.none, none⟩

def warn (msg : String) : LoopDetectionResult := ⟨.warning, some msg⟩

def critical (msg : String) : LoopDetectionResult := ⟨.critical, some msg⟩

end LoopDetectionResult

structure ToolCallRecord : Type where
  toolName : String
  argsHash : UInt64
  resultHash : Option UInt64

structure LoopDetector : Type where
  history : List ToolCallRecord
  historySize : ℕ

structure PingPongResult : Type where
  count : ℕ
  noProgress : Bool

namespace LoopDetector

def new : LoopDetector := ⟨[], historySizeLimit⟩

variable (hashStr : String → UInt64)

def signature (toolName args : String) : UInt64 := hashStr (toolName ++ ":" ++ args)

def record (d : LoopDetector) (toolName args : String) : LoopDetector :=
  let history := d.history ++ [⟨toolName, signature hashStr toolName args, none⟩]
  { d with history := if d.historySize < history.length then history.tail else history }

/-- Sets the result of the last record, if there is one. -/
def recordOutcome (d : LoopDetector) (result : String) : LoopDetector :=
  match d.history.getLast? with
  | some last =>
      { d with
        history := d.history.dropLast ++ [{ last with resultHash := some (hashStr result) }] }
  | none => d

/-- The scan of `no_progress_streak`, newest record first. -/
def streakFrom (toolName : String) (argsHash : UInt64) :
    ℕ → Option UInt64 → List ToolCallRecord → ℕ
  | streak, _, [] => streak
  | streak, expected, rec :: rest =>
      if rec.toolName ≠ toolName ∨ rec.argsHash ≠ argsHash then streak
      else
        match rec.resultHash with
        | none => streak
        | some rh =>
            match expected with
            | none => streakFrom toolName argsHash 1 (some rh) rest
            | some exp =>
                if rh = exp then streakFrom toolName argsHash (streak + 1) expected rest
                else streak

def noProgressStreak (d : LoopDetector) (toolName : String) (argsHash : UInt64) : ℕ :=
  streakFrom toolName argsHash 0 none d.history.reverse

/-- How many of the newest records alternate between two signatures. -/
def alternating (last other : UInt64) : ℕ → List ToolCallRecord → ℕ
  | count, [] => count
  | count, rec :: rest =>
      let expected := if count % 2 = 0 then last else other
      if rec.argsHash ≠ expected then count else alternating last other (count + 1) rest

/-- Whether every record has a result and each side has one result only; the two
hashes are those met so far on either side. -/
def sidesAgree (last : UInt64) : Option UInt64 → Option UInt64 → List ToolCallRecord → Bool
  | hashA, hashB, [] => hashA.isSome && hashB.isSome
  | hashA, hashB, rec :: rest =>
      match rec.resultHash with
      | none => false
      | some rh =>
          if rec.argsHash = last then
            if hashA.any (· != rh) then false else sidesAgree last (some rh) hashB rest
          else if hashB.any (· != rh) then false
          else sidesAgree last hashA (some rh) rest

def pingPongStreak (d : LoopDetector) (currentHash : UInt64) : PingPongResult :=
  let empty : PingPongResult := ⟨0, false⟩
  match d.history.reverse with
  | [] => empty
  | last :: older =>
      match older.find? (fun rec => rec.argsHash != last.argsHash) with
      | none => empty
      | some rec =>
          let other := rec.argsHash
          let altCount := alternating last.argsHash other 0 (last :: older)
          if altCount < 2 then empty
          else if currentHash ≠ other then empty
          else
            let tail := d.history.drop (d.history.length - altCount)
            ⟨altCount + 1, sidesAgree last.argsHash none none tail⟩

def detect (d : LoopDetector) (toolName args : String) : LoopDetectionResult :=
  let currentHash := signature hashStr toolName args
  let isPoll := isKnownPollTool toolName args
  let noProgress := d.noProgressStreak toolName currentHash
  let pp := d.pingPongStreak currentHash
  let repeatCount := d.history.countP
    (fun r => r.toolName == toolName && r.argsHash == currentHash)
  if circuitBreakerThreshold ≤ noProgress then
    .critical ("CRITICAL: " ++ toolName ++ " has repeated identical no-progress outcomes " ++
      toString noProgress ++ " times. Session execution blocked by global circuit breaker.")
  else if isPoll ∧ criticalThreshold ≤ noProgress then
    .critical ("CRITICAL: Called " ++ toolName ++
      " with identical arguments and no progress " ++ toString noProgress ++
      " times. This appears to be a stuck polling loop.")
  else if isPoll ∧ warningThreshold ≤ noProgress then
    .warn ("WARNING: You have called " ++ toolName ++ " " ++ toString noProgress ++
      " times with identical arguments and no progress. " ++
      "Stop polling and either increase wait time or report the task as failed.")
  else if criticalThreshold ≤ pp.count ∧ pp.noProgress then
    .critical ("CRITICAL: You are alternating between repeated tool-call patterns (" ++
      toString pp.count ++
      " consecutive calls) with no progress. Stuck ping-pong loop detected.")
  else if warningThreshold ≤ pp.count then
    .warn ("WARNING: You are alternating between repeated tool-call patterns (" ++
      toString pp.count ++ " consecutive calls). This looks like a ping-pong loop; " ++
      "stop retrying and report the task as failed.")
  else if ¬ isPoll ∧ warningThreshold ≤ repeatCount then
    .warn ("WARNING: You have called " ++ toolName ++ " " ++ toString repeatCount ++
      " times with identical arguments. " ++
      "If this is not making progress, stop retrying and report the task as failed.")
  else .ok

/-- Every verdict but the empty one carries a message. -/
theorem detect_message (d : LoopDetector) (toolName args : String) :
    (d.detect hashStr toolName args).level = .none ∨
      ∃ msg, (d.detect hashStr toolName args).message = some msg := by
  unfold detect
  simp only
  repeat' split
  all_goals first
    | exact Or.inl rfl
    | exact Or.inr ⟨_, rfl⟩

end LoopDetector

end Oclaw.AgentCore
