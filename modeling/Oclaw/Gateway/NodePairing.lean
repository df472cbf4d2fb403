import Mathlib.Data.Finset.Erase
import Mathlib.Data.Finset.Insert
import Oclaw.Gateway.RpcSend
import Oclaw.Pairing.Store

/-!
# Node pairing

`rpc_node_pair_request`, `rpc_node_pair_approve`, `rpc_node_pair_reject` and
`rpc_node_pair_verify` of `crates/gateway-core/src/http.rs`. The requests are in a
`PairingStore`, what they ask for in `node_pairs`, the last one of each node in
`node_pair_index`, and the nodes that are connected in `node_connected`. Each has a lock of
its own, so that the handlers of several requests come in between each other, and a handler
may be dropped wherever it waits.
-/

namespace Oclaw.Gateway.Nodes

open Oclaw.Lib Oclaw.SetupPairing Oclaw.Gateway.Rpc

/-! ## §1  Data -/

structure NodePairRecord : Type where
  requestId : String
  nodeId : String
  displayName : Option String
  isRepair : Bool
  ts : ℕ
  approved : Bool
  token : Option String
  approvedAtMs : Option ℕ
  lastConnectedAtMs : Option ℕ
deriving DecidableEq

def normalizeNodeId (raw : String) : Except RpcError String :=
  let nodeId := trim raw
  if nodeId = "" then .error ⟨"INVALID_PARAMS", "nodeId cannot be empty"⟩
  else if contains nodeId ".." || contains nodeId "/" || contains nodeId "\\" then
    .error ⟨"INVALID_PARAMS", "Invalid nodeId"⟩
  else .ok nodeId

def requireNodeId : Option String → Except RpcError String
  | none => .error ⟨"INVALID_PARAMS", "Missing 'nodeId'"⟩
  | some raw => normalizeNodeId raw

def requireRequestId : Option String → Except RpcError String
  | none => .error ⟨"INVALID_PARAMS", "Missing 'requestId'"⟩
  | some raw =>
      let requestId := trim raw
      if requestId = "" then .error ⟨"INVALID_PARAMS", "requestId cannot be empty"⟩
      else .ok requestId

def requireToken : Option String → Except RpcError String
  | none => .error ⟨"INVALID_PARAMS", "Missing 'token'"⟩
  | some raw =>
      let token := trim raw
      if token = "" then .error ⟨"INVALID_PARAMS", "token cannot be empty"⟩ else .ok token

/-- What a node asks for when it wants to be paired. -/
structure PairAsk : Type where
  nodeId : String
  displayName : Option String
  isRepair : Bool
deriving DecidableEq

def PairAsk.record (ask : PairAsk) (requestId : String) (now : ℕ) : NodePairRecord :=
  ⟨requestId, ask.nodeId, ask.displayName, ask.isRepair, now, false, none, none, none⟩

inductive NodeCall : Type where
  | pairRequest (nodeId displayName : Option String) (isRepair : Bool)
  | pairApprove (requestId : Option String)
  | pairReject (requestId : Option String)
  | pairVerify (nodeId token : Option String)
deriving DecidableEq

/-- Where a handler waits: each stage takes one of the locks. -/
inductive NodeStage : Type where
  | lookIndex (ask : PairAsk)
  | checkPending (ask : PairAsk) (id : String)
  | create (ask : PairAsk)
  | record (entry : NodePairRecord)
  | list (entry : NodePairRecord)
  | approveStore (id : String)
  | approvePair (id : String)
  | rejectStore (id : String)
  | removePair (id : String)
  | unlist (id node : String)
  | disconnect (id node : String)
  | lookNode (node token : String)
  | checkToken (node id token : String)
  /-- The only stage at which another lock is held, that of `node_pairs`. -/
  | connect (node id : String)
deriving DecidableEq

/-- What is done before the first lock. -/
def NodeCall.parse : NodeCall → Except RpcError NodeStage
  | .pairRequest nodeId displayName isRepair => do
      let nodeId ← requireNodeId nodeId
      return .lookIndex ⟨nodeId, nonEmpty displayName, isRepair⟩
  | .pairApprove requestId => do return .approveStore (← requireRequestId requestId)
  | .pairReject requestId => do return .rejectStore (← requireRequestId requestId)
  | .pairVerify nodeId token => do
      let nodeId ← requireNodeId nodeId
      return .lookNode nodeId (← requireToken token)

inductive NodeAnswer : Type where
  | pending (requestId : String)
  | rejected (requestId : String)
deriving DecidableEq

inductive NodeAct : Type where
  | internal
  | answered (answer : Except RpcError NodeAnswer)
  | recorded (id node : String)
  /-- The request is the one of its node from now on, and its handler answers. -/
  | listed (node id : String)
  | approved (id token : String)
  | removed (id node : String)
  | unlisted (node : String)
  | disconnected (node : String)
  /-- A verification has looked for the request of the node; without one it fails. -/
  | looked (node token : String) (found : Option String)
  | checked (answer : Except RpcError Unit)
  | connected (node id : String)
  | panicked
  | dropped
deriving DecidableEq

structure NodeEvent : Type where
  task : ℕ
  act : NodeAct
deriving DecidableEq

structure NodeWorld : Type where
  store : PairingStore
  pairs : HashMap String NodePairRecord
  index : HashMap String String
  connected : Finset String
  /-- The handler that keeps the lock of `pairs` while it waits. -/
  holder : Option ℕ
  /-- The identities that requests were given. -/
  minted : List String
  tasks : ℕ → Option NodeStage

def NodeWorld.init : NodeWorld := ⟨.default, ∅, ∅, ∅, none, [], fun _ => none⟩

/-- What a step finds outside: random values and clock readings. -/
structure NodeInput : Type where
  uuid : String
  code : String
  token : String
  cleanedAt : UInt64
  storeNow : UInt64
  now : ℕ

/-! ## §2  Steps -/

structure NodeOutcome : Type where
  act : NodeAct
  world : NodeWorld
  stage : Option NodeStage

variable (build : Build)

/-- A step of the handler `t`; `none` while a lock is taken, and for an identity that was
given out before. -/
def NodeWorld.advance (w : NodeWorld) (t : ℕ) (input : NodeInput) :
    NodeStage → Option NodeOutcome
  | .lookIndex ask =>
      match w.index.lookup ask.nodeId with
      | some id => some ⟨.internal, w, some (.checkPending ask id)⟩
      | none => some ⟨.internal, w, some (.create ask)⟩
  | .checkPending ask id =>
      if w.holder.isSome then none
      else
        match w.pairs.lookup id with
        | some entry =>
            if entry.approved then some ⟨.internal, w, some (.create ask)⟩
            else some ⟨.answered (.ok (.pending entry.requestId)), w, none⟩
        | none => some ⟨.internal, w, some (.create ask)⟩
  | .create ask =>
      if input.uuid ∈ w.minted then none
      else
        let made := w.store.createRequest build input.uuid input.code input.cleanedAt
          input.storeNow
        match made.2 with
        | .created (.ok _) =>
            some ⟨.internal, { w with store := made.1, minted := input.uuid :: w.minted },
              some (.record (ask.record input.uuid input.now))⟩
        | .created (.error e) =>
            some ⟨.answered (.error ⟨"UNAVAILABLE", e.text⟩), { w with store := made.1 }, none⟩
        | _ => some ⟨.panicked, { w with store := made.1 }, none⟩
  | .record entry =>
      if w.holder.isSome then none
      else some ⟨.recorded entry.requestId entry.nodeId,
        { w with pairs := w.pairs.insert entry.requestId entry }, some (.list entry)⟩
  | .list entry =>
      some ⟨.listed entry.nodeId entry.requestId,
        { w with index := w.index.insert entry.nodeId entry.requestId }, none⟩
  | .approveStore id =>
      let done := w.store.approve id input.storeNow
      match done.2 with
      | .done (.error e) =>
          some ⟨.answered (.error ⟨"INVALID_REQUEST", e.text⟩), { w with store := done.1 }, none⟩
      | _ => some ⟨.internal, { w with store := done.1 }, some (.approvePair id)⟩
  | .approvePair id =>
      if w.holder.isSome then none
      else
        match w.pairs.lookup id with
        | none =>
            some ⟨.answered (.error ⟨"INVALID_REQUEST", "unknown requestId"⟩), w, none⟩
        | some entry =>
            some ⟨.approved id input.token,
              { w with pairs := w.pairs.insert id { entry with
                approved := true
                token := some input.token
                approvedAtMs := some input.now } }, none⟩
  | .rejectStore id =>
      let done := w.store.reject id
      match done.2 with
      | .done (.error e) =>
          some ⟨.answered (.error ⟨"INVALID_REQUEST", e.text⟩), { w with store := done.1 }, none⟩
      | _ => some ⟨.internal, { w with store := done.1 }, some (.removePair id)⟩
  | .removePair id =>
      if w.holder.isSome then none
      else
        match w.pairs.lookup id with
        | none => some ⟨.answered (.ok (.rejected id)), w, none⟩
        | some entry =>
            some ⟨.removed id entry.nodeId, { w with pairs := w.pairs.erase id },
              some (.unlist id entry.nodeId)⟩
  | .unlist id node =>
      some ⟨.unlisted node, { w with index := w.index.erase node }, some (.disconnect id node)⟩
  | .disconnect _ node =>
      some ⟨.disconnected node, { w with connected := w.connected.erase node }, none⟩
  | .lookNode node token =>
      match w.index.lookup node with
      -- unknown nodeId
      | none => some ⟨.looked node token none, w, none⟩
      | some id => some ⟨.looked node token (some id), w, some (.checkToken node id token)⟩
  | .checkToken node id token =>
      if w.holder.isSome then none
      else
        match w.pairs.lookup id with
        | none => some ⟨.checked (.error ⟨"INVALID_REQUEST", "unknown nodeId"⟩), w, none⟩
        | some entry =>
            if entry.approved = false then
              some ⟨.checked (.error ⟨"INVALID_REQUEST", "node not approved"⟩), w, none⟩
            else if entry.token ≠ some token then
              some ⟨.checked (.error ⟨"INVALID_REQUEST", "invalid token"⟩), w, none⟩
            else some ⟨.checked (.ok ()),
              { w with
                pairs := w.pairs.insert id { entry with lastConnectedAtMs := some input.now }
                holder := some t }, some (.connect node id)⟩
  | .connect node id =>
      some ⟨.connected node id,
        { w with connected := insert node w.connected, holder := none }, none⟩

inductive NodeTurn : Type where
  | call (t : ℕ) (call : NodeCall)
  | run (t : ℕ) (input : NodeInput)
  | drop (t : ℕ)

def NodeWorld.put (w : NodeWorld) (t : ℕ) (stage : Option NodeStage) : NodeWorld :=
  { w with tasks := Function.update w.tasks t stage }

def NodeWorld.next (w : NodeWorld) : NodeTurn → Option (NodeEvent × NodeWorld)
  | .call t call =>
      if w.tasks t = none then
        match call.parse with
        | .error e => some (⟨t, .answered (.error e)⟩, w)
        | .ok stage => some (⟨t, .internal⟩, w.put t (some stage))
      else none
  | .run t input =>
      match w.tasks t with
      | none => none
      | some stage =>
          match w.advance build t input stage with
          | none => none
          | some o => some (⟨t, o.act⟩, o.world.put t o.stage)
  | .drop t =>
      if (w.tasks t).isSome then
        some (⟨t, .dropped⟩, { w.put t none with
          holder := if w.holder = some t then none else w.holder })
      else none

def NodeWorld.Step : NodeWorld → NodeEvent → NodeWorld → Prop := Induced (NodeWorld.next build)

end Oclaw.Gateway.Nodes
