import Oclaw.Gateway.RpcAgent

/-!
# Chat runs

A `chat.send` starts a run in the background and answers at once. Behind the gate of its
idempotency key it looks for a recorded answer, and for a run of that name which is going.
The answer of a run is recorded by the task of the run, after it has marked the run as ended,
and not behind the gate. Runs can be aborted by their name or by their session, which marks
them as ended as well.
-/

namespace Oclaw.Gateway.Rpc

open Oclaw.Lib

/-! ## §1  Records -/

/-- The answers that are recorded. -/
inductive ChatPayload : Type where
  /-- Of an abort; `aborted` tells whether there were any. -/
  | stopped (runIds : List String)
  | command (runId sessionKey reply : String)
  | final (runId status sessionKey : String) (reply error : Option String)
deriving DecidableEq

inductive ChatAnswer : Type where
  | payload (payload : ChatPayload)
  | inFlight (runId sessionKey : String)
  | started (runId : String)
deriving DecidableEq

structure ChatRunRecord : Type where
  runId : String
  sessionKey : String
  status : String
  startedAtMs : ℤ
  endedAtMs : Option ℤ
  error : Option String
  result : Option ChatPayload

abbrev ChatRuns : Type := HashMap String ChatRunRecord

def ChatRunRecord.start (runId sessionKey : String) (nowMs : ℤ) : ChatRunRecord :=
  ⟨runId, sessionKey, "running", nowMs, none, none, none⟩

/-- `set_chat_run_state_in_map` -/
def ChatRuns.setState (runs : ChatRuns) (runId status : String) (error : Option String)
    (result : Option ChatPayload) (nowMs : ℤ) : ChatRuns :=
  match runs.lookup runId with
  | some run =>
      runs.insert runId
        { run with status := status, endedAtMs := some nowMs, error := error, result := result }
  | none => runs

def eqIgnoreCase (a b : String) : Bool := toAsciiLowercase a == toAsciiLowercase b

/-- What an abort is asked for. -/
inductive AbortTarget : Type where
  | run (runId : String) (sessionKey : Option String)
  | session (sessionKey : String)

def AbortTarget.parse (runId sessionKey : Option String) : Except RpcError AbortTarget :=
  match nonEmpty runId with
  | some id => .ok (.run id sessionKey)
  | none =>
      match nonEmpty sessionKey with
      | some key => .ok (.session key)
      | none => .error ⟨"INVALID_PARAMS", "Missing 'sessionKey'"⟩

/-- The runs that an abort finds going, and the session that it names when it marks them. -/
def ChatRuns.toAbort (runs : ChatRuns) : AbortTarget → Except RpcError (List String × String)
  | .run runId sessionKey =>
      match runs.lookup runId with
      | none => .ok ([], "")
      | some run =>
          if (nonEmpty sessionKey).any (fun key => !eqIgnoreCase run.sessionKey key) then
            .error ⟨"INVALID_PARAMS", "runId does not match sessionKey"⟩
          else .ok (if run.status = "running" then [runId] else [], run.sessionKey)
  | .session sessionKey =>
      .ok ((runs.toPairs.filter (fun e =>
        e.2.status == "running" && eqIgnoreCase e.2.sessionKey sessionKey)).map Prod.fst,
          sessionKey)

def isChatStopCommandText (text : String) : Bool :=
  let trimmed := trim text
  eqIgnoreCase trimmed "/stop" || eqIgnoreCase trimmed "/abort" || eqIgnoreCase trimmed "/cancel"

/-! ## §2  Tasks -/

structure ChatCall : Type where
  key : Option String
  sessionKey : String
  message : String

def ChatCall.parse (idempotencyKey sessionKey message : Option String) : ChatCall :=
  ⟨nonEmpty idempotencyKey, (nonEmpty sessionKey).getD "main", message.getD ""⟩

/-- Where `rpc_chat_abort` is. The handles are taken first, and then the runs are marked. -/
inductive AbortStage : Type where
  | collect
  | unhook (sessionKey : String) (todo done : List String)
  | mark (sessionKey : String) (todo done : List String)

inductive ChatStage : Type where
  | gate
  | lookup
  | plan
  | stop (stage : AbortStage)
  | session
  | check (runId : String)
  | message (runId : String)
  | command (runId : String)
  | begin (runId : String)
  | record (payload : ChatPayload)

inductive EndStatus : Type where
  | ok
  | error
  | aborted
  | timeout

def EndStatus.text : EndStatus → String
  | .ok => "ok"
  | .error => "error"
  | .aborted => "aborted"
  | .timeout => "timeout"

/-- How the agent's turn ends. -/
structure ChatEnd : Type where
  status : EndStatus
  reply : Option String
  error : Option String

def ChatEnd.payload (ending : ChatEnd) (runId sessionKey : String) : ChatPayload :=
  .final runId ending.status.text sessionKey ending.reply ending.error

/-- Where the task of a run is. It marks the run twice. -/
inductive RunStage : Type where
  | hook
  | working
  | settle (ending : ChatEnd)
  | settleAgain (ending : ChatEnd)
  | unhook (ending : ChatEnd)
  | record (ending : ChatEnd)

inductive ChatTask : Type where
  | handler (call : ChatCall) (stage : ChatStage)
  | run (key : Option String) (runId sessionKey : String) (stage : RunStage)
  | abort (target : AbortTarget) (stage : AbortStage)

def ChatTask.holds : ChatTask → Option String
  | .handler _ .gate => none
  | .handler call _ => call.key
  | _ => none

inductive ChatAct : Type where
  | internal
  /-- No answer is recorded for the key. -/
  | missed (key : String)
  /-- A run is spawned, and the request answered with `started`. -/
  | started (key : Option String) (runId : String)
  | settled (runId status : String)
  /-- By the task of a run, or by a handler, which answers with it. -/
  | recorded (key : String) (payload : ChatPayload)
  | answered (key : Option String) (answer : Except RpcError ChatAnswer)
  | dropped
deriving DecidableEq

structure ChatEvent : Type where
  task : ℕ
  act : ChatAct
deriving DecidableEq

/-- `chat_idempotency_gates`, `chat_dedupe`, `chat_runs`, `chat_abort_handles`, the identities
made up for requests without a key, and the tasks. -/
structure ChatWorld : Type where
  gates : String → Option ℕ
  dedupe : HashMap String ChatPayload
  runs : ChatRuns
  handles : HashMap String ℕ
  minted : List String
  tasks : ℕ → Option ChatTask

def ChatWorld.init : ChatWorld := ⟨fun _ => none, ∅, ∅, ∅, [], fun _ => none⟩

/-- What a step finds outside: the clock, the attachments of the request, a failure of the
session, the attachments or the provider, a new identity, what a skill command says, an
identity for the task that is spawned, and how a run ends. -/
structure ChatInput : Type where
  nowMs : ℤ
  attachments : ℕ
  rejects : Option RpcError
  uuid : String
  command : Option (Except RpcError String)
  fresh : ℕ
  ending : ChatEnd

/-- The data that steps change, with what is told and where the task goes on. -/
structure ChatOutcome (σ : Type) : Type where
  act : ChatAct
  dedupe : HashMap String ChatPayload
  runs : ChatRuns
  handles : HashMap String ℕ
  minted : List String
  next : σ

/-- A handler goes on, is over, or spawns its run and is over. -/
inductive ChatNext : Type where
  | goes (stage : ChatStage)
  | ends
  | spawns (runId : String)

/-- An abort goes on, or has an answer. -/
inductive AbortNext : Type where
  | goes (stage : AbortStage)
  | ends (answer : Except RpcError ChatPayload)

/-- A step of `rpc_chat_abort`. -/
def ChatWorld.abortStep (w : ChatWorld) (target : AbortTarget) (nowMs : ℤ) :
    AbortStage → ChatOutcome AbortNext
  | .collect =>
      match w.runs.toAbort target with
      | .error e => ⟨.internal, w.dedupe, w.runs, w.handles, w.minted, .ends (.error e)⟩
      | .ok (todo, sessionKey) =>
          ⟨.internal, w.dedupe, w.runs, w.handles, w.minted, .goes (.unhook sessionKey todo [])⟩
  | .unhook sessionKey (runId :: todo) done =>
      let done' := if (w.handles.lookup runId).isSome then done ++ [runId] else done
      ⟨.internal, w.dedupe, w.runs, w.handles.erase runId, w.minted,
        .goes (.unhook sessionKey todo done')⟩
  | .unhook sessionKey [] done =>
      ⟨.internal, w.dedupe, w.runs, w.handles, w.minted, .goes (.mark sessionKey done done)⟩
  | .mark sessionKey (runId :: todo) done =>
      ⟨.settled runId "aborted", w.dedupe,
        w.runs.setState runId "aborted" (some "chat run aborted by rpc")
          (some (.final runId "aborted" sessionKey none none)) nowMs,
        w.handles, w.minted, .goes (.mark sessionKey todo done)⟩
  | .mark _ [] done =>
      ⟨.internal, w.dedupe, w.runs, w.handles, w.minted, .ends (.ok (.stopped done))⟩

/-- A step of a handler behind the gate, or of one without a key. -/
def ChatWorld.handle (w : ChatWorld) (call : ChatCall) (input : ChatInput) :
    ChatStage → ChatOutcome ChatNext
  | .gate => ⟨.internal, w.dedupe, w.runs, w.handles, w.minted, .goes .plan⟩
  | .lookup =>
      match call.key with
      | some key =>
          match w.dedupe.lookup key with
          | some cached =>
              ⟨.answered call.key (.ok (.payload cached)), w.dedupe, w.runs, w.handles, w.minted,
                .ends⟩
          | none => ⟨.missed key, w.dedupe, w.runs, w.handles, w.minted, .goes .plan⟩
      | none => ⟨.internal, w.dedupe, w.runs, w.handles, w.minted, .goes .plan⟩
  | .plan =>
      match sanitizeChatSendMessageInput call.message with
      | .error e =>
          ⟨.answered call.key (.error e), w.dedupe, w.runs, w.handles, w.minted, .ends⟩
      | .ok message =>
          if isChatStopCommandText message then
            ⟨.internal, w.dedupe, w.runs, w.handles, w.minted, .goes (.stop .collect)⟩
          else
            match input.rejects with
            | some e =>
                ⟨.answered call.key (.error e), w.dedupe, w.runs, w.handles, w.minted, .ends⟩
            | none =>
                if trim message = "" ∧ input.attachments = 0 then
                  ⟨.answered call.key (.error ⟨"INVALID_PARAMS",
                      "invalid chat.send params: text or media is required"⟩),
                    w.dedupe, w.runs, w.handles, w.minted, .ends⟩
                else ⟨.internal, w.dedupe, w.runs, w.handles, w.minted, .goes .session⟩
  | .stop stage =>
      let o := w.abortStep (.session call.sessionKey) input.nowMs stage
      match o.next with
      | .goes stage' => ⟨o.act, o.dedupe, o.runs, o.handles, o.minted, .goes (.stop stage')⟩
      | .ends (.ok payload) =>
          ⟨o.act, o.dedupe, o.runs, o.handles, o.minted, .goes (.record payload)⟩
      | .ends (.error e) =>
          ⟨.answered call.key (.error e), o.dedupe, o.runs, o.handles, o.minted, .ends⟩
  | .session =>
      match input.rejects with
      | some e => ⟨.answered call.key (.error e), w.dedupe, w.runs, w.handles, w.minted, .ends⟩
      | none =>
          match call.key with
          | some key => ⟨.internal, w.dedupe, w.runs, w.handles, w.minted, .goes (.check key)⟩
          | none =>
              ⟨.internal, w.dedupe, w.runs, w.handles, input.uuid :: w.minted,
                .goes (.check input.uuid)⟩
  | .check runId =>
      if (w.runs.lookup runId).any (fun run => run.status == "running") then
        ⟨.answered call.key (.ok (.inFlight runId call.sessionKey)), w.dedupe, w.runs, w.handles,
          w.minted, .ends⟩
      else ⟨.internal, w.dedupe, w.runs, w.handles, w.minted, .goes (.message runId)⟩
  | .message runId =>
      match input.rejects with
      | some e => ⟨.answered call.key (.error e), w.dedupe, w.runs, w.handles, w.minted, .ends⟩
      | none => ⟨.internal, w.dedupe, w.runs, w.handles, w.minted, .goes (.command runId)⟩
  | .command runId =>
      match input.command with
      | some (.error e) =>
          ⟨.answered call.key (.error e), w.dedupe, w.runs, w.handles, w.minted, .ends⟩
      | some (.ok reply) =>
          ⟨.internal, w.dedupe, w.runs, w.handles, w.minted,
            .goes (.record (.command runId call.sessionKey reply))⟩
      | none => ⟨.internal, w.dedupe, w.runs, w.handles, w.minted, .goes (.begin runId)⟩
  | .begin runId =>
      match input.rejects with
      | some e => ⟨.answered call.key (.error e), w.dedupe, w.runs, w.handles, w.minted, .ends⟩
      | none =>
          ⟨.started call.key runId, w.dedupe,
            w.runs.insert runId (.start runId call.sessionKey input.nowMs), w.handles, w.minted,
            .spawns runId⟩
  | .record payload =>
      match call.key with
      | some key =>
          ⟨.recorded key payload, w.dedupe.insert key payload, w.runs, w.handles, w.minted, .ends⟩
      | none =>
          ⟨.answered none (.ok (.payload payload)), w.dedupe, w.runs, w.handles, w.minted, .ends⟩

/-- A step of the task of a run. -/
def ChatWorld.runStep (w : ChatWorld) (t : ℕ) (key : Option String) (runId sessionKey : String)
    (input : ChatInput) : RunStage → ChatOutcome (Option RunStage)
  | .hook =>
      ⟨.internal, w.dedupe, w.runs, w.handles.insert runId t, w.minted, some .working⟩
  | .working =>
      ⟨.internal, w.dedupe, w.runs, w.handles, w.minted, some (.settle input.ending)⟩
  | .settle ending =>
      ⟨.settled runId ending.status.text, w.dedupe,
        w.runs.setState runId ending.status.text ending.error
          (some (ending.payload runId sessionKey)) input.nowMs,
        w.handles, w.minted, some (.settleAgain ending)⟩
  | .settleAgain ending =>
      ⟨.settled runId ending.status.text, w.dedupe,
        w.runs.setState runId ending.status.text ending.error
          (some (ending.payload runId sessionKey)) input.nowMs,
        w.handles, w.minted, some (.unhook ending)⟩
  | .unhook ending =>
      ⟨.internal, w.dedupe, w.runs, w.handles.erase runId, w.minted, some (.record ending)⟩
  | .record ending =>
      match key with
      | some key =>
          let payload := ending.payload runId sessionKey
          ⟨.recorded key payload, w.dedupe.insert key payload, w.runs, w.handles, w.minted, none⟩
      | none => ⟨.internal, w.dedupe, w.runs, w.handles, w.minted, none⟩

/-! ## §3  The machine -/

inductive ChatTurn : Type where
  | call (t : ℕ) (call : ChatCall)
  | abort (t : ℕ) (runId sessionKey : Option String)
  | run (t : ℕ) (input : ChatInput)
  | drop (t : ℕ)

def ChatWorld.put (w : ChatWorld) (t : ℕ) (task : Option ChatTask) : ChatWorld :=
  { w with tasks := Function.update w.tasks t task }

def ChatWorld.gone (w : ChatWorld) (t : ℕ) : ChatWorld :=
  { w with
    gates := freeGate w.gates (gateOf w.tasks ChatTask.holds t)
    tasks := Function.update w.tasks t none }

def ChatWorld.apply {σ : Type} (w : ChatWorld) (o : ChatOutcome σ) : ChatWorld :=
  { w with dedupe := o.dedupe, runs := o.runs, handles := o.handles, minted := o.minted }

/-- A handler spawns its run in one go with giving its answer. -/
def ChatWorld.advance (w : ChatWorld) (t : ℕ) (input : ChatInput) :
    ChatTask → ChatEvent × ChatWorld
  | .handler call stage =>
      let o := w.handle call input stage
      (⟨t, o.act⟩,
        match o.next with
        | .goes stage' => (w.apply o).put t (some (.handler call stage'))
        | .ends => (w.apply o).gone t
        | .spawns runId =>
            ((w.apply o).gone t).put input.fresh (some (.run call.key runId call.sessionKey .hook)))
  | .run key runId sessionKey stage =>
      let o := w.runStep t key runId sessionKey input stage
      (⟨t, o.act⟩, (w.apply o).put t (o.next.map (.run key runId sessionKey)))
  | .abort target stage =>
      let o := w.abortStep target input.nowMs stage
      match o.next with
      | .goes stage' => (⟨t, o.act⟩, (w.apply o).put t (some (.abort target stage')))
      | .ends answer =>
          (⟨t, .answered none (answer.map ChatAnswer.payload)⟩, (w.apply o).put t none)

def ChatWorld.next (w : ChatWorld) : ChatTurn → Option (ChatEvent × ChatWorld)
  | .call t call =>
      if w.tasks t = none then
        let stage : ChatStage := if call.key.isSome then .gate else .plan
        some (⟨t, .internal⟩, w.put t (some (.handler call stage)))
      else none
  | .abort t runId sessionKey =>
      if w.tasks t = none then
        match AbortTarget.parse runId sessionKey with
        | .error e => some (⟨t, .answered none (.error e)⟩, w)
        | .ok target => some (⟨t, .internal⟩, w.put t (some (.abort target .collect)))
      else none
  | .run t input =>
      match w.tasks t with
      | none => none
      | some (.handler call .gate) =>
          match call.key with
          | none => none
          | some key =>
              if w.gates key = none then
                some (⟨t, .internal⟩, { w.put t (some (.handler call .lookup)) with
                  gates := Function.update w.gates key (some t) })
              else none
      | some task =>
          if w.tasks input.fresh = none ∧ input.uuid ∉ w.minted then
            some (w.advance t input task)
          else none
  | .drop t => if (w.tasks t).isSome then some (⟨t, .dropped⟩, w.gone t) else none

def ChatWorld.Step : ChatWorld → ChatEvent → ChatWorld → Prop := Induced ChatWorld.next

end Oclaw.Gateway.Rpc
