import Oclaw.Lib.Gates
import Oclaw.Lib.HashMap
import Oclaw.Lib.Text
import Oclaw.Lib.Transition

/-!
# Sending a message once

A `send` request may carry an idempotency key. The handler then goes through the gate of
the key, looks for an answer that was given before, and records its own before it leaves.
Handlers of any number of requests run at the same time, and each may be dropped wherever
it waits, which lets go of the gate.
-/

namespace Oclaw.Gateway.Rpc

open Oclaw.Lib

/-! ## §1  Requests -/

/-- What `rpc_error` fills in. -/
structure RpcError : Type where
  code : String
  message : String
deriving DecidableEq

/-- Trimmed, and `none` if nothing is left. -/
def nonEmpty (raw : Option String) : Option String := (raw.map trim).filter (fun s => s ≠ "")

def normalizeChannelAlias (raw : String) : String :=
  let value := toAsciiLowercase (trim raw)
  if value ∈ ["googlechat", "google-chat", "google_chat"] then "google_chat"
  else if value ∈ ["nextcloud-talk", "nextcloud_talk"] then "nextcloud"
  else if value ∈ ["synology-chat", "synology_chat"] then "synology"
  else if value ∈ ["ms-teams", "microsoft-teams", "teams"] then "msteams"
  else if value ∈ ["imessage", "i-message", "i_message"] then "bluebubbles"
  else if value ∈ ["web-chat", "web_chat"] then "webchat"
  else if value = "lark" then "feishu"
  else value

/-- `resolve_channel_name_for_send`, with the sorted names of the channel manager. -/
def resolveChannelNameForSend (names : Option (List String)) (requested : Option String) :
    Except RpcError String :=
  match names with
  | none => .error ⟨"UNAVAILABLE", "No channel manager configured"⟩
  | some [] => .error ⟨"UNAVAILABLE", "No channels configured"⟩
  | some names =>
      match nonEmpty requested with
      | some raw =>
          let normalized := normalizeChannelAlias raw
          if normalized = "webchat" then
            .error ⟨"INVALID_PARAMS", "unsupported channel: webchat (internal-only). Use " ++
              "\x60chat.send\x60 for WebChat UI messages or choose a deliverable channel."⟩
          else
            match names.find? (fun name => normalizeChannelAlias name = normalized) with
            | some found => .ok found
            | none => .error ⟨"INVALID_PARAMS", "unsupported channel: " ++ raw⟩
      | none =>
          match names.find? (fun name => toAsciiLowercase name ≠ "webchat") with
          | some name => .ok name
          | none =>
              .error ⟨"INVALID_PARAMS",
                "No deliverable channels configured (only webchat is available)."⟩

/-- The strings that `rpc_send` reads from its parameters. -/
structure SendParams : Type where
  idempotencyKey : Option String
  toId : Option String
  message : Option String
  mediaUrl : Option String
  mediaUrls : List String
  channel : Option String
  threadId : Option String
  accountId : Option String

/-- What is left of `load_session_delivery_context` for a `send`. -/
structure SessionDelivery : Type where
  channel : Option String
  accountId : Option String
  threadId : Option String

/-- A request that has passed the checks. -/
structure SendCall : Type where
  key : Option String
  toId : String
  body : String
  channel : Option String
  threadId : Option String
  accountId : Option String

structure SendPayload : Type where
  runId : String
  channel : String
  messageId : String
  toId : String
  threadId : Option String
  accountId : Option String
deriving DecidableEq

/-- What `rpc_send` does before the gate. -/
def SendParams.parse (p : SendParams) (delivery : Option SessionDelivery) :
    Except RpcError SendCall :=
  match nonEmpty p.toId with
  | none => .error ⟨"INVALID_PARAMS", "Missing 'to'"⟩
  | some toId =>
      let message := trim (p.message.getD "")
      let urls := p.mediaUrls.filterMap (fun url => nonEmpty (some url))
      if message = "" ∧ nonEmpty p.mediaUrl = none ∧ urls = [] then
        .error ⟨"INVALID_PARAMS", "send requires message or mediaUrl/mediaUrls"⟩
      else
        .ok {
          key := nonEmpty p.idempotencyKey
          toId := toId
          body := "\n".intercalate
            ((if message = "" then [] else [message]) ++ (nonEmpty p.mediaUrl).toList ++ urls)
          channel := p.channel.or (delivery.bind SessionDelivery.channel)
          threadId := (nonEmpty p.threadId).or (delivery.bind SessionDelivery.threadId)
          accountId := (nonEmpty p.accountId).or (delivery.bind SessionDelivery.accountId) }

/-! ## §2  Handlers -/

inductive SendStage : Type where
  | gate
  | lookup
  | resolve
  | send (channel runId : String)
  | record (payload : SendPayload)
  | persist (payload : SendPayload)
deriving DecidableEq

structure SendTask : Type where
  call : SendCall
  stage : SendStage

/-- The gate that the handler is inside of. -/
def SendTask.holds (task : SendTask) : Option String :=
  match task.stage with
  | .gate => none
  | _ => task.call.key

inductive SendAct : Type where
  | internal
  /-- The channel has taken the message. -/
  | sent (key : Option String) (payload : SendPayload)
  | answered (key : Option String) (answer : Except RpcError SendPayload)
  | dropped
deriving DecidableEq

/-- A step of the handler `task`. -/
structure SendEvent : Type where
  task : ℕ
  act : SendAct
deriving DecidableEq

/-- `send_idempotency_gates`, `send_dedupe` and the handlers. -/
structure SendWorld : Type where
  gates : String → Option ℕ
  dedupe : HashMap String SendPayload
  tasks : ℕ → Option SendTask

def SendWorld.init : SendWorld := ⟨fun _ => none, ∅, fun _ => none⟩

/-- What a step finds outside: the channels, a new identity, and what the channel says. -/
structure SendInput : Type where
  names : Option (List String)
  uuid : String
  outcome : Except String String

structure SendOutcome : Type where
  act : SendAct
  dedupe : HashMap String SendPayload
  stage : Option SendStage

/-- A step of a handler behind the gate. -/
def sendStep (dedupe : HashMap String SendPayload) (call : SendCall) (input : SendInput) :
    SendStage → SendOutcome
  | .gate => ⟨.internal, dedupe, some .resolve⟩
  | .lookup =>
      match call.key.bind dedupe.lookup with
      | some cached => ⟨.answered call.key (.ok cached), dedupe, none⟩
      | none => ⟨.internal, dedupe, some .resolve⟩
  | .resolve =>
      match resolveChannelNameForSend input.names call.channel with
      | .error e => ⟨.answered call.key (.error e), dedupe, none⟩
      | .ok channel =>
          ⟨.internal, dedupe, some (.send channel (call.key.getD input.uuid))⟩
  | .send channel runId =>
      match input.outcome with
      | .error e => ⟨.answered call.key (.error ⟨"UNAVAILABLE", e⟩), dedupe, none⟩
      | .ok messageId =>
          let payload : SendPayload :=
            ⟨runId, channel, messageId, call.toId, call.threadId, call.accountId⟩
          ⟨.sent call.key payload, dedupe,
            some (if call.key.isSome then .record payload else .persist payload)⟩
  | .record payload =>
      match call.key with
      | some key => ⟨.internal, dedupe.insert key payload, some (.persist payload)⟩
      | none => ⟨.internal, dedupe, some (.persist payload)⟩
  | .persist payload => ⟨.answered call.key (.ok payload), dedupe, none⟩

inductive SendTurn : Type where
  | call (t : ℕ) (params : SendParams) (delivery : Option SessionDelivery)
  | run (t : ℕ) (input : SendInput)
  | drop (t : ℕ)

def SendWorld.put (w : SendWorld) (t : ℕ) (task : Option SendTask) : SendWorld :=
  { w with tasks := Function.update w.tasks t task }

/-- The permit is given back when the handler is over. -/
def SendWorld.gone (w : SendWorld) (t : ℕ) : SendWorld :=
  { w with
    gates := freeGate w.gates (gateOf w.tasks SendTask.holds t)
    tasks := Function.update w.tasks t none }

/-- A handler behind the gate goes on, or is over. -/
def SendWorld.advance (w : SendWorld) (t : ℕ) (call : SendCall) (stage : SendStage)
    (input : SendInput) : SendEvent × SendWorld :=
  let o := sendStep w.dedupe call input stage
  match o.stage with
  | some stage' => (⟨t, o.act⟩, { w.put t (some ⟨call, stage'⟩) with dedupe := o.dedupe })
  | none => (⟨t, o.act⟩, { w.gone t with dedupe := o.dedupe })

def SendWorld.next (w : SendWorld) : SendTurn → Option (SendEvent × SendWorld)
  | .call t params delivery =>
      if w.tasks t = none then
        match params.parse delivery with
        | .error e => some (⟨t, .answered none (.error e)⟩, w)
        | .ok call =>
            let stage : SendStage := if call.key.isSome then .gate else .resolve
            some (⟨t, .internal⟩, w.put t (some ⟨call, stage⟩))
      else none
  | .run t input =>
      match w.tasks t with
      | none => none
      | some ⟨call, .gate⟩ =>
          match call.key with
          | none => none
          | some key =>
              if w.gates key = none then
                some (⟨t, .internal⟩, { w.put t (some ⟨call, .lookup⟩) with
                  gates := Function.update w.gates key (some t) })
              else none
      | some ⟨call, stage⟩ => some (w.advance t call stage input)
  | .drop t => if (w.tasks t).isSome then some (⟨t, .dropped⟩, w.gone t) else none

def SendWorld.Step : SendWorld → SendEvent → SendWorld → Prop := Induced SendWorld.next

end Oclaw.Gateway.Rpc
