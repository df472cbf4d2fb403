import Oclaw.Gateway.AnnounceQueue
import Oclaw.Gateway.SessionAccess
import Oclaw.Gateway.SessionMetadata
import Oclaw.Lib.IpAddr
import Oclaw.Lib.Transition

/-!
# Spawning sessions

`fulfill_sessions_spawn` of `crates/gateway-core/src/http/agent_bridge.rs`, one call of the
session store a step, so that every other call of the gateway may fall in between. A spawn
asks how deep its requester is, enters a session of its own and writes down from which
session it was spawned and how deep it is. The log keeps who wrote what, and which sessions
are gone.
-/

namespace Oclaw.Gateway.Sessions

open Oclaw.Lib Oclaw.Gateway.Announce

/-! ## §1  Limits and depths -/

def u32Max : ℕ := 0xFFFFFFFF

/-- What `resolve_subagent_limits` gives. -/
structure SubagentLimits : Type where
  maxSpawnDepth : ℕ
  maxChildren : ℕ
  fits : maxSpawnDepth ≤ u32Max

/-- `agents` is the section of the configuration with this name, if there is one. The
depth is cut to 32 bits before it is bounded from below. -/
def resolveSubagentLimits (agents : Option Json) : SubagentLimits :=
  let setting (name : String) : Option ℤ :=
    ((agents.bind (Json.pointer ["defaults", "subagents", name])).bind Json.asI64).filter
      (fun raw => 0 < raw)
  { maxSpawnDepth := max (((setting "maxSpawnDepth").map (fun raw => raw.toNat % 0x100000000)).getD 1) 1
    maxChildren := max (((setting "maxChildrenPerAgent").map Int.toNat).getD 5) 1
    fits := by
      cases setting "maxSpawnDepth" with
      | none => simp [u32Max]
      | some raw =>
          have hcut : raw.toNat % 0x100000000 < 0x100000000 := Nat.mod_lt _ (by decide)
          simp only [Option.map_some, Option.getD_some, u32Max]
          omega }

/-- `str::parse::<u32>` -/
def parseU32 (s : String) : Option ℕ :=
  let ds :=
    match s.toList with
    | '+' :: ds => ds
    | ds => ds
  if ds.isEmpty || !ds.all (isDigitOf 10) then none
  else if digitsValue 10 ds ≤ u32Max then some (digitsValue 10 ds) else none

def parseSpawnDepthMeta (metadata : Metadata) : Option ℕ :=
  match (((metadata.lookup "spawnDepth").or (metadata.lookup "spawn_depth")).map trim).filter
      (fun v => v ≠ "") with
  | some raw => parseU32 raw
  | none => none

/-! ## §2  A spawn -/

/-- What a spawn works with once the hooks are done and the limits are read. -/
structure SpawnJob : Type where
  requesterKey : String
  targetAgentId : String
  uuid : String
  /-- The `parent_session_key` of the request, or else the session of the requester. -/
  parentSession : Option String
  label : String
  task : String
  modelHint : String
  spawnMode : String
  cleanup : String
  threadRequested : Bool
  timeoutSeconds : ℕ
  /-- Where the thread is bound to, if one was asked for and is ready. -/
  bindingTarget : Option AnnounceTarget
  limits : SubagentLimits

def SpawnJob.sessionKey (job : SpawnJob) : String :=
  "agent:" ++ job.targetAgentId ++ ":subagent:" ++ job.uuid

/-- The fields in the order in which they are written. -/
def SpawnJob.fields (job : SpawnJob) (childDepth : ℕ) : List (String × String) :=
  (match job.parentSession with
    | some parent => [("spawnedBy", parent), ("parentSessionKey", parent)]
    | none => []) ++
  [("targetKind", "subagent"), ("subagentLabel", job.label), ("label", job.label),
    ("subagentTask", job.task), ("spawnDepth", toString childDepth),
    ("spawnMode", job.spawnMode), ("cleanupPolicy", job.cleanup),
    ("threadRequested", if job.threadRequested then "true" else "false"),
    ("runTimeoutSeconds", toString job.timeoutSeconds)] ++
  (if job.modelHint = "" then [] else [("modelOverride", job.modelHint)]) ++
  (match job.bindingTarget with
    | none => []
    | some target =>
        [("delivery.channel", target.channel), ("delivery.to", target.toId)] ++
        ((target.accountId.map trim).filter (fun v => v ≠ "")).toList.map
          (fun v => ("delivery.accountId", v)) ++
        ((target.threadId.map trim).filter (fun v => v ≠ "")).toList.map
          (fun v => ("delivery.threadId", v)))

inductive SpawnOutcome : Type where
  | accepted (runId : String)
  | forbidden (error : String)
  | failed (error : String)

/-- Where a spawn is. `walking` is the loop of `resolve_spawn_depth`. -/
inductive SpawnStage : Type where
  | asking
  | walking (depth : ℕ) (current : String) (visited : List String)
  | counting (callerDepth : ℕ)
  | creating (childDepth : ℕ)
  | writing (childDepth : ℕ) (left : List (String × String))
  | prompting
  | starting
  | closing (runId : String)
  | removing (error : String)
  | ended (outcome : SpawnOutcome)

/-- `childDepth` is known once the spawn is admitted. `above` is the spawn that wrote the
depth of the requester, where this is what the spawn has read. -/
structure SpawnTask : Type where
  job : SpawnJob
  stage : SpawnStage
  childDepth : Option ℕ
  above : Option ℕ

/-! ## §3  The gateway -/

/-- The fields that only spawns write. -/
def spawnFields : List String := ["spawnedBy", "parentSessionKey", "spawnDepth", "spawn_depth"]

inductive SpawnEvent : Type where
  | wrote (i : ℕ) (key field value : String)
  | gone (key : String)

structure SpawnWorld : Type where
  db : Db
  tasks : List SpawnTask
  log : List SpawnEvent

def SpawnWorld.init : SpawnWorld := ⟨.empty, [], []⟩

def SpawnEvent.note (key field : String) (last : Option (ℕ × String)) :
    SpawnEvent → Option (ℕ × String)
  | .wrote i k f value => if k = key ∧ f = field then some (i, value) else last
  | .gone k => if k = key then none else last

/-- The last write of a field since the session was entered: the spawn and the value. -/
def SpawnWorld.record (w : SpawnWorld) (key field : String) : Option (ℕ × String) :=
  w.log.foldl (SpawnEvent.note key field) none

/-- The tables after a call, with what it wrote and the sessions that it deleted. -/
def SpawnWorld.put (w : SpawnWorld) (db : Db) (wrote : List SpawnEvent) : SpawnWorld :=
  { w with
    db := db
    log := w.log ++ wrote ++ (w.db.keys.filter (fun k => k ∉ db.keys)).map SpawnEvent.gone }

def SpawnWorld.setTask (w : SpawnWorld) (i : ℕ) (t : SpawnTask) : SpawnWorld :=
  { w with tasks := w.tasks.set i t }

/-- What a step of a spawn takes from outside: the clock, the number of active children that
the registry counts, and what `start_subagent_run_task` returns. -/
structure SpawnEnv : Type where
  now : ℤ
  activeChildren : ℕ
  started : Except String String

def depthRefusal (depth max : ℕ) : String :=
  "sessions_spawn is not allowed at this depth (current depth: " ++ toString depth ++
    ", max: " ++ toString max ++ ")"

def childrenRefusal (active max : ℕ) : String :=
  "sessions_spawn has reached max active children for this session (" ++ toString active ++
    "/" ++ toString max ++ ")"

/-- The next step of the spawn at a position. -/
def SpawnWorld.advance (w : SpawnWorld) (i : ℕ) (env : SpawnEnv) (t : SpawnTask) :
    Option SpawnWorld :=
  match t.stage with
  | .asking =>
      match parseSpawnDepthMeta (w.db.getSessionMetadata t.job.requesterKey) with
      | some explicit =>
          some (w.setTask i { t with
            stage := .counting explicit
            above := (w.record t.job.requesterKey "spawnDepth").map Prod.fst })
      | none => some (w.setTask i { t with stage := .walking 0 t.job.requesterKey [] })
  | .walking depth current visited =>
      if current ∈ visited then some (w.setTask i { t with stage := .counting depth })
      else
        let metadata := w.db.getSessionMetadata current
        match parseSpawnDepthMeta metadata with
        | some explicit => some (w.setTask i { t with stage := .counting (max depth explicit) })
        | none =>
            match parentOf metadata with
            | some parent =>
                some (w.setTask i { t with
                  stage := .walking (min (depth + 1) u32Max) parent (current :: visited) })
            | none =>
                let depth := if depth = 0 ∧ contains current ":subagent:" then 1 else depth
                some (w.setTask i { t with stage := .counting depth })
  | .counting callerDepth =>
      if t.job.limits.maxSpawnDepth ≤ callerDepth then
        some (w.setTask i { t with
          stage := .ended (.forbidden (depthRefusal callerDepth t.job.limits.maxSpawnDepth)) })
      else if t.job.limits.maxChildren ≤ env.activeChildren then
        some (w.setTask i { t with
          stage := .ended
            (.forbidden (childrenRefusal env.activeChildren t.job.limits.maxChildren)) })
      else
        let childDepth := min (callerDepth + 1) u32Max
        some (w.setTask i { t with
          stage := .creating childDepth
          childDepth := some childDepth })
  | .creating childDepth =>
      match w.db.createSession t.job.sessionKey t.job.targetAgentId env.now with
      | (.ok _, db) =>
          some ((w.put db []).setTask i { t with
            stage := .writing childDepth (t.job.fields childDepth) })
      | (.error error, db) =>
          some ((w.put db []).setTask i { t with stage := .ended (.failed error) })
  | .writing _ [] =>
      some (w.setTask i { t with stage := if t.job.task = "" then .starting else .prompting })
  | .writing childDepth ((field, value) :: left) =>
      let next := { t with stage := .writing childDepth left }
      match w.db.setSessionMetadataField t.job.sessionKey field value with
      | (.ok _, db) => some ((w.put db [.wrote i t.job.sessionKey field value]).setTask i next)
      | (.error _, db) => some ((w.put db []).setTask i next)
  | .prompting =>
      match w.db.addMessage t.job.sessionKey "user" t.job.task env.now with
      | (.ok _, db) => some ((w.put db []).setTask i { t with stage := .starting })
      | (.error error, db) =>
          some ((w.put db []).setTask i { t with stage := .ended (.failed error) })
  | .starting =>
      match env.started with
      | .ok runId => some (w.setTask i { t with stage := .closing runId })
      | .error error => some (w.setTask i { t with stage := .removing error })
  | .closing runId =>
      let (_, db) := w.db.setSessionMetadataField t.job.sessionKey "subagentRunId" runId
      some ((w.put db []).setTask i { t with stage := .ended (.accepted runId) })
  | .removing error =>
      let (_, db) := w.db.removeSession t.job.sessionKey
      some ((w.put db []).setTask i { t with stage := .ended (.failed error) })
  | .ended _ => none

inductive SpawnAct : Type where
  | store (now : ℤ) (call : StoreCall)
  | spawn (job : SpawnJob)
  | advance (i : ℕ) (env : SpawnEnv)

/-- The rest of the gateway writes any fields but those of the spawns. -/
def SpawnWorld.act (w : SpawnWorld) : SpawnAct → Option SpawnWorld
  | .store now call =>
      if call.writes.any (fun f => f ∈ spawnFields) then none else some (w.put (call.run now w.db) [])
  | .spawn job =>
      some { w with tasks := w.tasks ++ [⟨job, .asking, none, none⟩] }
  | .advance i env => (w.tasks[i]?).bind (w.advance i env)

def SpawnStep (w : SpawnWorld) (a : SpawnAct) (w' : SpawnWorld) : Prop := w.act a = some w'

def SpawnWorld.acts (w : SpawnWorld) : List SpawnAct → Option SpawnWorld
  | [] => some w
  | a :: as => (w.act a).bind (fun w' => w'.acts as)

theorem runs_of_acts {as : List SpawnAct} : ∀ {w w' : SpawnWorld}, w.acts as = some w' →
    Runs SpawnStep w as w' := by
  induction as with
  | nil =>
      intro w w' h
      cases h
      exact .nil
  | cons a as ih =>
      intro w w' h
      obtain ⟨u, hstep, hrest⟩ := Option.bind_eq_some_iff.mp h
      exact (Runs.single hstep).append (ih hrest)

end Oclaw.Gateway.Sessions
