import Mathlib.Algebra.Group.Nat.Defs
import Oclaw.Lib.AsciiCase
import Oclaw.WorkspaceCore.Heartbeat

/-!
# Heartbeat ticks

`HeartbeatRunner::tick_with_options` (`crates/gateway-core/src/heartbeat_runner.rs`) with
`HeartbeatFile` and `HeartbeatConfig` (`crates/workspace-core/src/heartbeat.rs`): the system
events that were drained from their queue go into the prompt of an agent turn. There are
three prompts, and the one for finished commands shows no event at all.
-/

namespace Oclaw.Gateway.Heartbeat

open Oclaw.Lib
open Oclaw.WorkspaceCore (shouldDropHeartbeatReply)

/-! ## §1  The configuration and the file -/

structure ActiveHours : Type where
  start : String
  finish : String

structure HeartbeatConfig : Type where
  intervalSecs : ℕ
  target : String
  prompt : Option String
  ackMaxChars : ℕ
  activeHours : Option ActiveHours

def HeartbeatConfig.default : HeartbeatConfig where
  intervalSecs := 1800
  target := "last"
  prompt := none
  ackMaxChars := 300
  activeHours := none

def HeartbeatConfig.effectivePrompt (config : HeartbeatConfig) : String :=
  config.prompt.getD
    ("Read HEARTBEAT.md if it exists (workspace context). " ++
      "Follow it strictly. Do not infer or repeat old tasks " ++
      "from prior chats. If nothing needs attention, reply HEARTBEAT_OK.")

structure HeartbeatFile : Type where
  raw : String
  hasTasks : Bool

/-- A line that is no header, no comment, no empty list item and not blank. -/
def isTask (line : List Char) : Bool :=
  let t := trimChars line
  if t.isEmpty || "#".toList.isPrefixOf t || "//".toList.isPrefixOf t ||
      "<!--".toList.isPrefixOf t then
    false
  else
    match (t.dropPrefix? "- ".toList).or
        ((t.dropPrefix? "* ".toList).or (t.dropPrefix? "+ ".toList)) with
    | some rest => !(trimChars rest).isEmpty
    | none => !(t == ['-'] || t == ['*'] || t == ['+'])

def HeartbeatFile.parse (raw : String) : HeartbeatFile := ⟨raw, (lines raw.toList).any isTask⟩

/-! ## §2  Reasons and events -/

/-- The names that `resolve_heartbeat_reason_kind` gives. -/
inductive ReasonKind : Type where
  | retry
  | interval
  | manual
  | execEvent
  | wake
  | cron
  | hook
  | other
deriving DecidableEq

def eqIgnoreAsciiCase (a b : String) : Bool := toAsciiLowercase a == toAsciiLowercase b

def resolveHeartbeatReasonKind (reason : Option String) : ReasonKind :=
  let trimmed := (reason.map trim).getD ""
  if eqIgnoreAsciiCase trimmed "retry" then .retry
  else if eqIgnoreAsciiCase trimmed "interval" then .interval
  else if eqIgnoreAsciiCase trimmed "manual" then .manual
  else if eqIgnoreAsciiCase trimmed "exec-event" then .execEvent
  else if eqIgnoreAsciiCase trimmed "wake" then .wake
  else
    let lowered := toAsciiLowercase trimmed
    if startsWith lowered "cron:" then .cron
    else if startsWith lowered "hook:" then .hook
    else .other

def isExecCompletionEvent (evt : String) : Bool := contains (toAsciiLowercase evt) "exec finished"

def isHeartbeatAckEvent (evt : String) : Bool :=
  match (toAsciiLowercase (trim evt)).toList.dropPrefix? "heartbeat_ok".toList with
  | none => false
  | some [] => true
  | some (c :: _) => !(c.isAlphanum || c == '_')

def isHeartbeatNoiseEvent (evt : String) : Bool :=
  let lower := toAsciiLowercase (trim evt)
  if lower = "" then false
  else isHeartbeatAckEvent lower || contains lower "heartbeat poll" ||
    contains lower "heartbeat wake"

def isCronSystemEvent (evt : String) : Bool :=
  if trim evt = "" then false
  else !isHeartbeatNoiseEvent evt && !isExecCompletionEvent evt

/-! ## §3  The prompt -/

def execEventPrompt : String :=
  "An async command you ran earlier has completed. " ++
    "The result is shown in the system messages above. " ++
    "Please relay the command output to the user in a helpful way. " ++
    "If the command succeeded, share the relevant output. If it failed, explain what went wrong."

/-- The events, trimmed, without the blank ones. -/
def cleanEvents (events : List String) : List String :=
  (events.map trim).filter (fun e => !(e == ""))

def buildCronEventPrompt (pendingEvents : List String) : String :=
  let eventText := trim ("\n".intercalate (cleanEvents pendingEvents))
  if eventText = "" then
    "A scheduled cron event was triggered, but no event content was found. Reply HEARTBEAT_OK."
  else
    "A scheduled reminder has been triggered. The reminder content is:\n\n" ++ eventText ++
      "\n\nPlease relay this reminder to the user in a helpful and friendly way."

def pushEvent (prompt event : String) : String := prompt ++ "- " ++ event ++ "\n"

def pushEvents (prompt : String) (clean : List String) : String :=
  clean.foldl pushEvent (prompt ++ "\n\nSystem events queued for this wake:\n")

def turnPrompt (config : HeartbeatConfig) (reason : Option String) (systemEvents : List String) :
    String :=
  let clean := cleanEvents systemEvents
  let hasExecCompletion := clean.any isExecCompletionEvent
  let cronEvents :=
    clean.filter (fun evt => resolveHeartbeatReasonKind reason = .cron && isCronSystemEvent evt)
  let prompt :=
    if hasExecCompletion then execEventPrompt
    else if cronEvents.isEmpty = false then buildCronEventPrompt cronEvents
    else config.effectivePrompt
  if clean.isEmpty = false && !hasExecCompletion && cronEvents.isEmpty then
    pushEvents prompt clean
  else prompt

/-! ## §4  A tick -/

structure HeartbeatRunner : Type where
  config : HeartbeatConfig
  lastRunMs : ℕ

/-- How a build treats a product that is too large. -/
inductive Build : Type where
  | checked
  | wrapping

/-- What a tick has from outside: the clock, the local time of day and how times are read,
the heartbeat file, the agent and the channel. -/
structure Surroundings : Type where
  nowMs : ℕ
  localTime : ℕ
  parseTime : String → Option ℕ
  heartbeatFile : Except String (Option String)
  runHeartbeatTurn : String → Except String String
  deliverAlert : String → String → Except String Unit

/-- `none` is a panic, as everywhere below. -/
def HeartbeatRunner.shouldTick (build : Build) (r : HeartbeatRunner) (nowMs : ℕ) : Option Bool :=
  if r.config.intervalSecs = 0 then some false
  else if r.config.intervalSecs * 1000 < 2 ^ 64 then
    some (decide (r.config.intervalSecs * 1000 ≤ nowMs - r.lastRunMs))
  else
    match build with
    | .checked => none
    | .wrapping => some (decide (r.config.intervalSecs * 1000 % 2 ^ 64 ≤ nowMs - r.lastRunMs))

def isWithinActiveHours (config : HeartbeatConfig) (w : Surroundings) : Bool :=
  match config.activeHours with
  | none => true
  | some hours =>
      match w.parseTime hours.start, w.parseTime hours.finish with
      | some start, some finish =>
          if start ≤ finish then decide (start ≤ w.localTime) && decide (w.localTime ≤ finish)
          -- wraps midnight
          else decide (start ≤ w.localTime) || decide (w.localTime ≤ finish)
      | _, _ => true

def shouldBypassEmptyHeartbeatFile (reason : Option String) : Bool :=
  match (reason.map trim).filter (fun s => !(s == "")) with
  | none => false
  | some reason =>
      resolveHeartbeatReasonKind (some reason) ∈ [.wake, .execEvent, .cron, .hook]

/-- What a tick did: the prompt of its turn, if it ran one, the alert, the time of the last
run, and how it ended. -/
structure Ticked : Type where
  prompt : Option String
  alert : Option (String × String)
  lastRunMs : ℕ
  result : Option (Except String Unit)

/-- The agent turn and what follows it. -/
def HeartbeatRunner.runTurn (r : HeartbeatRunner) (w : Surroundings) (prompt : String) : Ticked :=
  match w.runHeartbeatTurn prompt with
  | .error e => ⟨some prompt, none, r.lastRunMs, some (.error e)⟩
  | .ok reply =>
      match shouldDropHeartbeatReply reply r.config.ackMaxChars with
      | none => ⟨some prompt, none, w.nowMs, none⟩
      | some true => ⟨some prompt, none, w.nowMs, some (.ok ())⟩
      | some false =>
          ⟨some prompt, some (r.config.target, reply), w.nowMs,
            some (w.deliverAlert r.config.target reply)⟩

/-- The heartbeat file is read unless the reason bypasses it: whether it is empty. -/
def fileEmpty (w : Surroundings) (reason : Option String) : Except String Bool :=
  if shouldBypassEmptyHeartbeatFile reason then .ok false
  else w.heartbeatFile.map (fun file => file.any (fun raw => !(HeartbeatFile.parse raw).hasTasks))

def HeartbeatRunner.tickWithOptions (build : Build) (r : HeartbeatRunner) (w : Surroundings)
    (force : Bool) (reason : Option String) (systemEvents : List String) : Ticked :=
  match if force then some true else r.shouldTick build w.nowMs with
  | none => ⟨none, none, r.lastRunMs, none⟩
  | some false => ⟨none, none, r.lastRunMs, some (.ok ())⟩
  | some true =>
      if isWithinActiveHours r.config w = false then ⟨none, none, w.nowMs, some (.ok ())⟩
      else
        match fileEmpty w reason with
        | .error e => ⟨none, none, r.lastRunMs, some (.error e)⟩
        | .ok true => ⟨none, none, w.nowMs, some (.ok ())⟩
        | .ok false => r.runTurn w (turnPrompt r.config reason systemEvents)

/-! ## §5  Events that are lost -/

/-- An event that the agent should hear of. -/
def Reportable (event : String) : Prop :=
  trim event ≠ "" ∧ isHeartbeatNoiseEvent event = false ∧ isExecCompletionEvent event = false

/-- The events that the agent should hear of are in a prompt. -/
def Shows (prompt : String) (events : List String) : Prop :=
  ∀ event ∈ events, Reportable event → contains prompt (trim event) = true

/-- **No event is lost** by a tick that runs a turn. -/
def NoEventLost (t : Ticked) (events : List String) : Prop :=
  ∀ prompt, t.prompt = some prompt → Shows prompt events

/-- No gate of a tick is shut. -/
def RunsTurn (build : Build) (r : HeartbeatRunner) (w : Surroundings) (force : Bool)
    (reason : Option String) : Prop :=
  (force = true ∨ r.shouldTick build w.nowMs = some true) ∧
    isWithinActiveHours r.config w = true ∧ fileEmpty w reason = .ok false

/-- No command has finished, or the fixed prompt for it happens to have the other events. -/
def Unmixed (events : List String) : Prop :=
  (∀ event ∈ events, isExecCompletionEvent event = false) ∨ Shows execEventPrompt events

variable {build : Build} {r : HeartbeatRunner} {w : Surroundings} {force : Bool}
variable {reason : Option String} {event e : String} {events clean : List String}
variable {config : HeartbeatConfig} {prompt : String}

/-- A turn is run with the prompt when no gate is shut, and not otherwise. -/
theorem tickWithOptions_prompt :
    (r.tickWithOptions build w force reason events).prompt = some prompt ↔
      RunsTurn build r w force reason ∧ turnPrompt r.config reason events = prompt := by
  have hturn : ∀ p, (r.runTurn w p).prompt = some p := by
    intro p
    unfold HeartbeatRunner.runTurn
    split
    · rfl
    · split <;> rfl
  have hdue : (if force then some true else r.shouldTick build w.nowMs) = some true ↔
      force = true ∨ r.shouldTick build w.nowMs = some true := by
    cases force <;> simp
  unfold HeartbeatRunner.tickWithOptions RunsTurn
  rw [← hdue]
  split
  · simp_all
  · simp_all
  · rename_i hsome
    cases hactive : isWithinActiveHours r.config w with
    | false => simp
    | true =>
        cases hfile : fileEmpty w reason with
        | error err => simp
        | ok empty => cases empty <;> simp [hturn, hsome]

theorem contains_iff {s pat : String} : contains s pat = true ↔ pat.toList <:+: s.toList :=
  containsChars_iff

@[simp] theorem toList_trim (s : String) : (trim s).toList = trimChars s.toList := by
  rw [trim, String.toList_ofList]

theorem toList_toAsciiLowercase (s : String) :
    (toAsciiLowercase s).toList = asciiLowercase s.toList :=
  String.toList_ofList

/-! ### What trimming keeps -/

theorem trim_trim (s : String) : trim (trim s) = trim s := by
  rw [trim, toList_trim, trimChars_of_trimmed (trimmed_trimChars _)]
  rfl

theorem isHeartbeatNoiseEvent_trim (event : String) :
    isHeartbeatNoiseEvent (trim event) = isHeartbeatNoiseEvent event := by
  rw [isHeartbeatNoiseEvent, isHeartbeatNoiseEvent, trim_trim]

/-- The words that tell a finished command neither begin nor end with whitespace. -/
theorem isExecCompletionEvent_trim (event : String) :
    isExecCompletionEvent (trim event) = isExecCompletionEvent event := by
  have hpat : Trimmed "exec finished".toList := by
    constructor <;> simp [isWhitespace]
  rw [Bool.eq_iff_iff, isExecCompletionEvent, isExecCompletionEvent, contains_iff, contains_iff,
    toList_toAsciiLowercase, toList_toAsciiLowercase, toList_trim, ← trimChars_asciiLowercase]
  exact isInfix_trimChars_iff (by decide) hpat

theorem mem_cleanEvents : e ∈ cleanEvents events ↔ (∃ event ∈ events, trim event = e) ∧ e ≠ "" := by
  simp [cleanEvents]

theorem any_isExecCompletionEvent :
    (cleanEvents events).any isExecCompletionEvent = true ↔
      ∃ event ∈ events, isExecCompletionEvent event = true := by
  rw [List.any_eq_true]
  constructor
  · rintro ⟨e, he, hexec⟩
    obtain ⟨⟨event, hevent, rfl⟩, -⟩ := mem_cleanEvents.mp he
    exact ⟨event, hevent, by rwa [← isExecCompletionEvent_trim]⟩
  · rintro ⟨event, hevent, hexec⟩
    rw [← isExecCompletionEvent_trim] at hexec
    refine ⟨trim event, mem_cleanEvents.mpr ⟨⟨event, hevent, rfl⟩, ?_⟩, hexec⟩
    intro hempty
    rw [hempty] at hexec
    exact absurd hexec (by decide)

/-! ### The three prompts -/

theorem isInfix_foldl_pushEvent (h : e.toList <:+: prompt.toList) :
    e.toList <:+: (clean.foldl pushEvent prompt).toList := by
  induction clean generalizing prompt with
  | nil => exact h
  | cons event clean ih =>
      refine ih (h.trans ?_)
      rw [pushEvent, String.append_assoc, String.append_assoc, String.toList_append]
      exact (List.prefix_append _ _).isInfix

/-- Each event that is pushed is in the prompt. -/
theorem contains_pushEvents (he : e ∈ clean) : contains (pushEvents prompt clean) e = true := by
  rw [contains_iff, pushEvents]
  generalize prompt ++ "\n\nSystem events queued for this wake:\n" = start
  induction clean generalizing start with
  | nil => cases he
  | cons event clean ih =>
      rcases List.mem_cons.mp he with rfl | he
      · have hpush : e.toList <:+: (pushEvent start e).toList := by
          rw [pushEvent, String.toList_append, String.toList_append]
          exact ⟨_, _, rfl⟩
        rw [List.foldl_cons]
        exact isInfix_foldl_pushEvent hpush
      · exact ih he _

theorem isInfix_intercalate {sep : List Char} {e : List Char} {es : List (List Char)}
    (h : e ∈ es) : e <:+: sep.intercalate es := by
  induction es with
  | nil => cases h
  | cons x es ih =>
      cases es with
      | nil =>
          rw [List.mem_singleton.mp h, List.intercalate_singleton]
      | cons y es =>
          rw [List.intercalate_cons_cons]
          rcases List.mem_cons.mp h with rfl | h
          · rw [List.append_assoc]
            exact (List.prefix_append _ _).isInfix
          · exact (ih h).trans (List.suffix_append _ _).isInfix

theorem contains_buildCronEventPrompt (hevent : event ∈ events) (hne : trim event ≠ "") :
    contains (buildCronEventPrompt events) (trim event) = true := by
  have hmem : trim event ∈ cleanEvents events := mem_cleanEvents.mpr ⟨⟨event, hevent, rfl⟩, hne⟩
  have hnil : (trim event).toList ≠ [] := fun h => hne (String.toList_eq_nil_iff.mp h)
  have htext : (trim event).toList <:+:
      (trim ("\n".intercalate (cleanEvents events))).toList := by
    rw [toList_trim ("\n".intercalate (cleanEvents events)), String.toList_intercalate]
    refine (isInfix_trimChars_iff hnil ?_).mpr (isInfix_intercalate (List.mem_map_of_mem hmem))
    rw [toList_trim]
    exact trimmed_trimChars _
  rw [contains_iff, buildCronEventPrompt]
  split
  · rename_i hempty
    rw [hempty] at htext
    exact absurd (List.infix_nil.mp htext) hnil
  · simp only [String.toList_append]
    refine htext.trans ?_
    exact ⟨_, _, rfl⟩

theorem shows_turnPrompt (h : ∀ event ∈ events, isExecCompletionEvent event = false) :
    Shows (turnPrompt config reason events) events := by
  have hexec : (cleanEvents events).any isExecCompletionEvent = false := by
    rw [← Bool.not_eq_true, any_isExecCompletionEvent]
    rintro ⟨event, hevent, htrue⟩
    rw [h event hevent] at htrue
    cases htrue
  rintro event hevent ⟨hne, hnoise, -⟩
  have hmem : trim event ∈ cleanEvents events := mem_cleanEvents.mpr ⟨⟨event, hevent, rfl⟩, hne⟩
  -- on a cron wake the event is among those relayed
  have hcron : resolveHeartbeatReasonKind reason = .cron → trim event ∈
      (cleanEvents events).filter
        (fun evt => resolveHeartbeatReasonKind reason = .cron && isCronSystemEvent evt) := by
    intro hkind
    rw [List.mem_filter]
    refine ⟨hmem, ?_⟩
    rw [isCronSystemEvent, trim_trim, if_neg hne, isHeartbeatNoiseEvent_trim,
      isExecCompletionEvent_trim, hnoise, h event hevent]
    simp [hkind]
  simp only [turnPrompt, hexec]
  generalize hc : (cleanEvents events).filter
    (fun evt => resolveHeartbeatReasonKind reason = .cron && isCronSystemEvent evt) = cronEvents
    at hcron ⊢
  by_cases hempty : cronEvents.isEmpty = true
  · have hclean : (cleanEvents events).isEmpty = false := by
      cases hevents : cleanEvents events with
      | nil => rw [hevents] at hmem; cases hmem
      | cons _ _ => rfl
    simp only [hclean, hempty]
    exact contains_pushEvents hmem
  · have hkind : resolveHeartbeatReasonKind reason = .cron := by
      by_contra hkind
      simp only [hkind, decide_false, Bool.false_and, List.filter_false] at hc
      rw [← hc] at hempty
      exact hempty rfl
    rw [Bool.not_eq_true] at hempty
    have hrelayed := contains_buildCronEventPrompt (hcron hkind) (by rwa [trim_trim])
    rw [trim_trim] at hrelayed
    simpa [hempty] using hrelayed

theorem turnPrompt_of_exec (h : ∃ event ∈ events, isExecCompletionEvent event = true) :
    turnPrompt config reason events = execEventPrompt := by
  simp [turnPrompt, any_isExecCompletionEvent.mpr h]

/-- **Events are lost just when a turn is run for a finished command**, unless the prompt for
it has them by chance. -/
theorem no_event_lost_iff (build : Build) (r : HeartbeatRunner) (w : Surroundings) (force : Bool)
    (reason : Option String) (events : List String) :
    NoEventLost (r.tickWithOptions build w force reason events) events ↔
      (RunsTurn build r w force reason → Unmixed events) := by
  have hshows : NoEventLost (r.tickWithOptions build w force reason events) events ↔
      (RunsTurn build r w force reason → Shows (turnPrompt r.config reason events) events) := by
    simp only [NoEventLost, tickWithOptions_prompt]
    constructor
    · exact fun h hrun => h _ ⟨hrun, rfl⟩
    · rintro h prompt ⟨hrun, rfl⟩
      exact h hrun
  rw [hshows]
  refine imp_congr_right (fun _ => ?_)
  by_cases hexec : ∃ event ∈ events, isExecCompletionEvent event = true
  · rw [turnPrompt_of_exec hexec]
    refine ⟨Or.inr, ?_⟩
    rintro (hnone | h)
    · obtain ⟨event, hevent, htrue⟩ := hexec
      rw [hnone event hevent] at htrue
      cases htrue
    · exact h
  · have hnone : ∀ event ∈ events, isExecCompletionEvent event = false := by
      intro event hevent
      rw [← Bool.not_eq_true]
      exact fun htrue => hexec ⟨event, hevent, htrue⟩
    exact iff_of_true (shows_turnPrompt hnone) (Or.inl hnone)

/-! ### A reminder and a finished command -/

/-- A quiet agent at noon, with no heartbeat file. -/
def quiet : Surroundings where
  nowMs := 1700000000000
  localTime := 43200
  parseTime := fun _ => none
  heartbeatFile := .ok none
  runHeartbeatTurn := fun _ => .ok "HEARTBEAT_OK"
  deliverAlert := fun _ _ => .ok ()

/-- The reminder that a cron wake is for is not in its prompt when a command has finished
since. -/
theorem reminder_lost_to_exec :
    ¬ NoEventLost
      ((⟨.default, 0⟩ : HeartbeatRunner).tickWithOptions .checked quiet true (some "cron:daily")
        ["cron reminder: pay rent", "exec finished: backup done"])
      ["cron reminder: pay rent", "exec finished: backup done"] := by
  intro h
  have hprompt : turnPrompt .default (some "cron:daily")
      ["cron reminder: pay rent", "exec finished: backup done"] = execEventPrompt :=
    turnPrompt_of_exec ⟨"exec finished: backup done", by decide, by decide⟩
  have hruns : RunsTurn .checked ⟨.default, 0⟩ quiet true (some "cron:daily") :=
    ⟨Or.inl rfl, by decide, by decide⟩
  have hlost : contains execEventPrompt "cron reminder: pay rent" = true := by
    refine h execEventPrompt (tickWithOptions_prompt.mpr ⟨hruns, hprompt⟩)
      "cron reminder: pay rent" (by decide) ?_
    exact ⟨by decide, by decide, by decide⟩
  -- there is no colon in the prompt
  have hcolon : ':' ∈ execEventPrompt.toList :=
    (contains_iff.mp hlost).subset (by rw [String.toList_ofList]; decide)
  unfold execEventPrompt at hcolon
  rw [String.toList_append, String.toList_append, String.toList_append, String.toList_ofList,
    String.toList_ofList, String.toList_ofList, String.toList_ofList] at hcolon
  exact absurd hcolon (by decide +kernel)

end Oclaw.Gateway.Heartbeat
