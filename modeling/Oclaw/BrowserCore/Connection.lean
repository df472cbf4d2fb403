import Oclaw.Lib.HashMap
import Oclaw.Lib.Transition
import Oclaw.Protocol.Snapshot

/-!
# A connection to a browser

`CdpConnection` of `crates/browser-core/src/connection.rs`. Commands are numbered; each one
waits on a channel of its own, whose sender is kept under the number of the command until the
response with that number comes. A task in the background writes the commands to the socket and
reads what the browser says.
-/

namespace Oclaw.BrowserCore

open Oclaw.Lib Oclaw.Protocol

/-! ## §1  Messages -/

structure CdpCommand : Type where
  id : I32
  method : String
  params : Option Value

structure CdpError : Type where
  code : I32
  message : String
  data : Option Value

def CdpError.codec : Codec CdpError :=
  (Rec.start CdpError.mk
    |>.field "code" CdpError.code i32
    |>.field "message" CdpError.message .string
    |>.opt "data" CdpError.data .value).codec
      (fun e => { e with data := Codec.dropNull e.data }) (fun _ => rfl) (by decide)

structure CdpResponse : Type where
  id : I32
  result : Option Value
  error : Option CdpError

def CdpResponse.read : Json → Option CdpResponse :=
  (Rec.start CdpResponse.mk
    |>.field "id" CdpResponse.id i32
    |>.opt "result" CdpResponse.result .value
    |>.opt "error" CdpResponse.error CdpError.codec).read

structure CdpEvent : Type where
  method : String
  params : Option Value

def CdpEvent.read : Json → Option CdpEvent :=
  (Rec.start CdpEvent.mk
    |>.field "method" CdpEvent.method .string
    |>.opt "params" CdpEvent.params .value).read

inductive CdpMessage : Type where
  | response (response : CdpResponse)
  | event (event : CdpEvent)

/-- The variants of an untagged enumeration are tried in their order. -/
def CdpMessage.read (json : Json) : Option CdpMessage :=
  match CdpResponse.read json with
  | some resp => some (.response resp)
  | none => (CdpEvent.read json).map .event

/-! ## §2  The connection -/

inductive BrowserError : Type where
  | connectionError (msg : String)
deriving DecidableEq

def sendFailed : BrowserError := .connectionError "Failed to send command: channel closed"

def connectionClosed : BrowserError := .connectionError "Connection closed"

structure Request : Type where
  method : String
  params : Option Value

/-- The commands of `enable_domains`. -/
def enableDomains (domains : List String) : List Request :=
  domains.map (fun domain => ⟨domain ++ ".enable", none⟩)

/-- Where `send_command` is. The channel of the command is made with the entry in the map. -/
inductive SendStage : Type where
  | number
  | register (id : I32)
  | push (id : I32) (chan : ℕ)
  | wait (id : I32) (chan : ℕ)

/-- A task that sends one command after the other, until one fails. -/
structure CdpTask : Type where
  request : Request
  rest : List Request
  stage : SendStage

/-- `boxes` are the channels of the commands and what has been put in them; `queue` is the
channel to the task in the background. -/
structure CdpConnection : Type where
  nextId : I32
  pending : HashMap I32 ℕ
  channels : ℕ
  boxes : ℕ → Option CdpResponse
  queue : List CdpCommand
  running : Bool
  tasks : ℕ → Option CdpTask

def CdpConnection.connect : CdpConnection :=
  ⟨⟨1, by decide⟩, ∅, 0, fun _ => none, [], true, fun _ => none⟩

/-- `*id += 1`, as it is compiled without overflow checks. -/
def incr (id : I32) : I32 :=
  if h : id.val + 1 < 0x80000000 then ⟨id.val + 1, by have := id.property; omega⟩
  else ⟨-0x80000000, by decide⟩

/-- `drop(tx.send(Ok(resp)))`: the value is put into the channel when the future is awaited,
which this one is not. -/
def dropSend (boxes : ℕ → Option CdpResponse) (_chan : ℕ) (_resp : CdpResponse) :
    ℕ → Option CdpResponse :=
  boxes

/-- The sender of a channel has not been dropped. -/
def CdpConnection.open (c : CdpConnection) (chan : ℕ) : Bool :=
  c.pending.toPairs.any (fun e => e.2 == chan)

inductive CdpLabel : Type where
  | internal
  | registered (t : ℕ) (id : I32)
  | sent (id : I32)
  /-- A response has come. -/
  | received (id : I32)
  /-- The task in the background is over. -/
  | ended
  | answered (t : ℕ) (id : I32)
  | returned (t : ℕ) (result : Except BrowserError Unit)
  | dropped (t : ℕ)
deriving DecidableEq

inductive WriteResult : Type where
  | sent
  | unserializable
  | failed

/-- What wakes the task in the background. A text that is not JSON is `none`. -/
inductive LoopInput : Type where
  | command (result : WriteResult)
  | text (json : Option Json)
  | other
  | closed

def CdpConnection.loop (c : CdpConnection) : LoopInput → Option (CdpLabel × CdpConnection)
  | .command result =>
      match c.queue with
      | [] => none
      | cmd :: queue =>
          match result with
          | .sent => some (.sent cmd.id, { c with queue := queue })
          | .unserializable => some (.internal, { c with queue := queue })
          | .failed => some (.ended, { c with queue := [], running := false })
  | .text json =>
      match json.bind CdpMessage.read with
      | some (.response resp) =>
          match c.pending.lookup resp.id with
          | some chan =>
              some (.received resp.id,
                { c with pending := c.pending.erase resp.id, boxes := dropSend c.boxes chan resp })
          | none => some (.received resp.id, c)
      | _ => some (.internal, c)
  | .other => some (.internal, c)
  | .closed => some (.ended, { c with queue := [], running := false })

def CdpConnection.put (c : CdpConnection) (t : ℕ) (task : Option CdpTask) : CdpConnection :=
  { c with tasks := Function.update c.tasks t task }

/-- A step of `send_command`; `none` where it waits. -/
def CdpConnection.send (c : CdpConnection) (t : ℕ) (task : CdpTask) :
    Option (CdpLabel × CdpConnection) :=
  match task.stage with
  | .number =>
      some (.internal, { c.put t (some { task with stage := .register c.nextId }) with
        nextId := incr c.nextId })
  | .register id =>
      some (.registered t id, { c.put t (some { task with stage := .push id c.channels }) with
        pending := c.pending.insert id c.channels
        channels := c.channels + 1 })
  | .push id chan =>
      if c.running then
        if c.queue.length < 100 then
          some (.internal, { c.put t (some { task with stage := .wait id chan }) with
            queue := c.queue ++ [⟨id, task.request.method, task.request.params⟩] })
        else none
      else some (.returned t (.error sendFailed), c.put t none)
  | .wait id chan =>
      match c.boxes chan with
      | some _ =>
          match task.rest with
          | [] => some (.returned t (.ok ()), c.put t none)
          | next :: rest => some (.answered t id, c.put t (some ⟨next, rest, .number⟩))
      | none =>
          if c.open chan then none
          else some (.returned t (.error connectionClosed), c.put t none)

inductive CdpTurn : Type where
  | call (t : ℕ) (first : Request) (rest : List Request)
  | run (t : ℕ)
  | loop (input : LoopInput)
  | drop (t : ℕ)

def CdpConnection.next (c : CdpConnection) : CdpTurn → Option (CdpLabel × CdpConnection)
  | .call t first rest =>
      if (c.tasks t).isNone then some (.internal, c.put t (some ⟨first, rest, .number⟩)) else none
  | .run t => (c.tasks t).bind (c.send t)
  | .loop input => if c.running then c.loop input else none
  | .drop t => if (c.tasks t).isSome then some (.dropped t, c.put t none) else none

def CdpConnection.Step : CdpConnection → CdpLabel → CdpConnection → Prop :=
  Induced CdpConnection.next

end Oclaw.BrowserCore
