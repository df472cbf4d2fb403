import Oclaw.Gateway.RpcSend

/-!
# Starting an agent run once

An `agent` request with an idempotency key names its run after the key. Behind the gate of the
key the handler looks whether the key is registered; if it is not, it prepares the request,
registers the key, enters the run, checks where the reply is to go, and spawns the run. A
request that finds its key registered is told of the run, or what became of it.
-/

namespace Oclaw.Gateway.Rpc

open Oclaw.Lib

/-! ## §1  Requests -/

/-- `AgentRunRecord`; the result as its JSON text. -/
structure AgentRunRecord : Type where
  runId : String
  status : String
  startedAtMs : ℤ
  endedAtMs : Option ℤ
  error : Option String
  result : Option String
deriving DecidableEq

/-- What `rpc_agent` reads from its parameters. -/
structure AgentParams : Type where
  message : String
  idempotencyKey : Option String
  deliver : Bool
  channel : Option String
  toId : Option String

structure AgentCall : Type where
  key : Option String
  message : String
  deliver : Bool
  channelHint : Option String
  toHint : Option String

inductive AgentAnswer : Type where
  | accepted (runId : String) (acceptedAt : ℤ) (cached : Bool)
  /-- The run is over; the answer repeats its record. -/
  | finished (run : AgentRunRecord)
deriving DecidableEq

def AgentAnswer.runId : AgentAnswer → String
  | .accepted runId _ _ => runId
  | .finished run => run.runId

/-- `strip_disallowed_chat_control_chars` keeps tabs and line ends. -/
def stripDisallowedChatControlChars (message : String) : String :=
  String.ofList (message.toList.filter (fun c =>
    c = '\t' ∨ c = '\n' ∨ c = '\r' ∨ (c.toNat ≥ 32 ∧ c.toNat ≠ 127)))

def sanitizeChatSendMessageInput (message : String) : Except RpcError String :=
  if message.toList.contains '\x00' then
    .error ⟨"INVALID_PARAMS", "message must not contain null bytes"⟩
  else .ok (stripDisallowedChatControlChars message)

def AgentParams.parse (p : AgentParams) : Except RpcError AgentCall :=
  match sanitizeChatSendMessageInput p.message with
  | .error e => .error e
  | .ok message =>
      .ok ⟨nonEmpty p.idempotencyKey, message, p.deliver, nonEmpty p.channel, nonEmpty p.toId⟩

/-- Where the reply goes, of the session. -/
structure AgentDelivery : Type where
  channel : Option String
  toId : Option String

/-- `validated_channel`: a reply that is to be delivered needs a channel and an addressee. -/
def validatedChannel (names : Option (List String)) (deliver : Bool)
    (channel toId : Option String) : Except RpcError String :=
  if deliver then
    match channel with
    | some name =>
        if toId.isNone then .error ⟨"INVALID_PARAMS", "deliver=true requires to/replyTo"⟩
        else resolveChannelNameForSend names (some name)
    | none =>
        match resolveChannelNameForSend names none with
        | .error e => .error e
        | .ok name =>
            if toId.isNone then .error ⟨"INVALID_PARAMS", "deliver=true requires to/replyTo"⟩
            else resolveChannelNameForSend names (some name)
  else
    match channel with
    | some name => resolveChannelNameForSend names (some name)
    | none => .ok ""

/-! ## §2  Handlers and runs -/

/-- Where a handler is. From `register` on it carries the identity of its run, and where the
reply is to go. -/
inductive AgentStage : Type where
  | gate
  | lookup
  | cached (runId : String)
  | prepare
  | register (runId : String) (channel toId : Option String)
  | enter (runId : String) (channel toId : Option String)
  | deliver (runId : String) (channel toId : Option String)
deriving DecidableEq

inductive AgentTask : Type where
  | handler (call : AgentCall) (stage : AgentStage)
  /-- The spawned task, with the key of its request. -/
  | working (key : Option String) (runId : String)

/-- The gate that a task is inside of. -/
def AgentTask.holds : AgentTask → Option String
  | .handler _ .gate => none
  | .handler call _ => call.key
  | .working _ _ => none

inductive AgentAct : Type where
  | internal
  | registered (key runId : String)
  /-- The run is spawned, and the request is answered with `accepted`. -/
  | spawned (key : Option String) (runId : String)
  | finished (runId : String)
  | answered (key : Option String) (answer : Except RpcError AgentAnswer)
  | dropped
deriving DecidableEq

structure AgentEvent : Type where
  task : ℕ
  act : AgentAct
deriving DecidableEq

/-- `agent_idempotency_gates`, `agent_idempotency`, `agent_runs`, the identities that were
made up for requests without a key, and the tasks. -/
structure AgentWorld : Type where
  gates : String → Option ℕ
  idempotency : HashMap String String
  runs : HashMap String AgentRunRecord
  minted : List String
  tasks : ℕ → Option AgentTask

def AgentWorld.init : AgentWorld := ⟨fun _ => none, ∅, ∅, [], fun _ => none⟩

/-- What a step finds outside: the clock, the attachments of the request, a failure of the
session or the provider, where the session's replies go, a new identity, the channels, an
identity for the task that is spawned, and how a run ends. -/
structure AgentInput : Type where
  nowMs : ℤ
  attachments : ℕ
  rejects : Option RpcError
  delivery : Option AgentDelivery
  uuid : String
  names : Option (List String)
  fresh : ℕ
  error : Option String
  result : Option String

def AgentRunRecord.start (runId : String) (nowMs : ℤ) : AgentRunRecord :=
  ⟨runId, "running", nowMs, none, none, none⟩

def AgentRunRecord.finish (run : AgentRunRecord) (input : AgentInput) : AgentRunRecord :=
  { run with
    status := if input.error.isSome then "error" else "ok"
    endedAtMs := some input.nowMs
    error := input.error
    result := input.result }

/-- The answer to a request whose key is registered. -/
def cachedAnswer (runs : HashMap String AgentRunRecord) (runId : String) (nowMs : ℤ) :
    AgentAnswer :=
  match runs.lookup runId with
  | some run => if run.status ≠ "running" then .finished run else .accepted runId nowMs true
  | none => .accepted runId nowMs true

/-- What a handler goes on to, or the answer that it gives. -/
inductive AgentNext : Type where
  | goes (stage : AgentStage)
  | answers (answer : Except RpcError AgentAnswer)
  | spawns (runId : String)

structure AgentOutcome : Type where
  act : AgentAct
  idempotency : HashMap String String
  runs : HashMap String AgentRunRecord
  minted : List String
  next : AgentNext

/-- A step of a handler behind the gate, or of one without a key. -/
def AgentWorld.handle (w : AgentWorld) (call : AgentCall) (input : AgentInput) :
    AgentStage → AgentOutcome
  | .gate => ⟨.internal, w.idempotency, w.runs, w.minted, .goes .prepare⟩
  | .lookup =>
      match call.key.bind w.idempotency.lookup with
      | some runId => ⟨.internal, w.idempotency, w.runs, w.minted, .goes (.cached runId)⟩
      | none => ⟨.internal, w.idempotency, w.runs, w.minted, .goes .prepare⟩
  | .cached runId =>
      let answer := cachedAnswer w.runs runId input.nowMs
      ⟨.answered call.key (.ok answer), w.idempotency, w.runs, w.minted, .answers (.ok answer)⟩
  | .prepare =>
      let failure : Option RpcError :=
        if trim call.message = "" ∧ input.attachments = 0 then
          some ⟨"INVALID_PARAMS", "invalid agent params: message or attachment required"⟩
        else input.rejects
      match failure with
      | some e =>
          ⟨.answered call.key (.error e), w.idempotency, w.runs, w.minted, .answers (.error e)⟩
      | none =>
          let channel := call.channelHint.or (input.delivery.bind AgentDelivery.channel)
          let toId := call.toHint.or (input.delivery.bind AgentDelivery.toId)
          match call.key with
          | some key =>
              ⟨.internal, w.idempotency, w.runs, w.minted, .goes (.register key channel toId)⟩
          | none =>
              ⟨.internal, w.idempotency, w.runs, input.uuid :: w.minted,
                .goes (.enter input.uuid channel toId)⟩
  | .register runId channel toId =>
      match call.key with
      | some key =>
          ⟨.registered key runId, w.idempotency.insert key runId, w.runs, w.minted,
            .goes (.enter runId channel toId)⟩
      | none => ⟨.internal, w.idempotency, w.runs, w.minted, .goes (.enter runId channel toId)⟩
  | .enter runId channel toId =>
      ⟨.internal, w.idempotency, w.runs.insert runId (.start runId input.nowMs), w.minted,
        .goes (.deliver runId channel toId)⟩
  | .deliver runId channel toId =>
      match validatedChannel input.names call.deliver channel toId with
      | .error e =>
          ⟨.answered call.key (.error e), w.idempotency, w.runs, w.minted, .answers (.error e)⟩
      | .ok _ => ⟨.spawned call.key runId, w.idempotency, w.runs, w.minted, .spawns runId⟩

inductive AgentTurn : Type where
  | call (t : ℕ) (params : AgentParams)
  | run (t : ℕ) (input : AgentInput)
  | drop (t : ℕ)

def AgentWorld.put (w : AgentWorld) (t : ℕ) (task : Option AgentTask) : AgentWorld :=
  { w with tasks := Function.update w.tasks t task }

def AgentWorld.gone (w : AgentWorld) (t : ℕ) : AgentWorld :=
  { w with
    gates := freeGate w.gates (gateOf w.tasks AgentTask.holds t)
    tasks := Function.update w.tasks t none }

/-- The handler spawns its run in one go with giving its answer. -/
def AgentWorld.advance (w : AgentWorld) (t : ℕ) (call : AgentCall) (stage : AgentStage)
    (input : AgentInput) : AgentEvent × AgentWorld :=
  let o := w.handle call input stage
  let w' : AgentWorld :=
    { w with idempotency := o.idempotency, runs := o.runs, minted := o.minted }
  match o.next with
  | .goes stage' => (⟨t, o.act⟩, w'.put t (some (.handler call stage')))
  | .answers _ => (⟨t, o.act⟩, w'.gone t)
  | .spawns runId => (⟨t, o.act⟩, (w'.gone t).put input.fresh (some (.working call.key runId)))

def AgentWorld.next (w : AgentWorld) : AgentTurn → Option (AgentEvent × AgentWorld)
  | .call t params =>
      if w.tasks t = none then
        match params.parse with
        | .error e => some (⟨t, .answered none (.error e)⟩, w)
        | .ok call =>
            let stage : AgentStage := if call.key.isSome then .gate else .prepare
            some (⟨t, .internal⟩, w.put t (some (.handler call stage)))
      else none
  | .run t input =>
      match w.tasks t with
      | none => none
      | some (.handler call .gate) =>
          match call.key with
          | none => none
          | some key =>
              if w.gates key = none then
                some (⟨t, .internal⟩, { w.put t (some (.handler call .lookup)) with
                  gates := Function.update w.gates key (some t) })
              else none
      | some (.handler call stage) =>
          if w.tasks input.fresh = none ∧ input.uuid ∉ w.minted then
            some (w.advance t call stage input)
          else none
      | some (.working _ runId) =>
          let runs :=
            match w.runs.lookup runId with
            | some run => w.runs.insert runId (run.finish input)
            | none => w.runs
          some (⟨t, .finished runId⟩, { w.put t none with runs := runs })
  | .drop t => if (w.tasks t).isSome then some (⟨t, .dropped⟩, w.gone t) else none

def AgentWorld.Step : AgentWorld → AgentEvent → AgentWorld → Prop := Induced AgentWorld.next

end Oclaw.Gateway.Rpc
