import Oclaw.Protocol.Snapshot

/-!
# Gateway frames

The frames of `crates/protocol/src/frames.rs` with the codecs that `serde` derives for
them. The `frame_type` of a frame has a single value, so it is not a field here but the
tag of the frame's record. The attribute `rename` of the tag enumerations renames the
enumeration and not its variant: the tags in the text are the variants' own names.
-/

namespace Oclaw.Protocol

open Oclaw.Lib

/-! ## §1  Hello -/

structure DeviceAuth : Type where
  id : String
  publicKey : String
  signature : String
  signedAt : I64
  nonce : Option String

def DeviceAuth.codec : Codec DeviceAuth :=
  (Rec.start DeviceAuth.mk
    |>.field "id" DeviceAuth.id .string
    |>.field "publicKey" DeviceAuth.publicKey .string
    |>.field "signature" DeviceAuth.signature .string
    |>.field "signedAt" DeviceAuth.signedAt i64
    |>.opt "nonce" DeviceAuth.nonce .string).exact (fun _ => rfl) (by decide)

structure ClientAuth : Type where
  token : Option String
  password : Option String

def ClientAuth.codec : Codec ClientAuth :=
  (Rec.start ClientAuth.mk
    |>.opt "token" ClientAuth.token .string
    |>.opt "password" ClientAuth.password .string).exact (fun _ => rfl) (by decide)

/-- `HashMap<String, bool>`, as its entries sorted by their keys. -/
abbrev Permissions := {es : List (String × Bool) // KeysSorted es}

/-- The order in which a hash table is iterated. -/
structure HashOrder : Type where
  iter : List (String × Bool) → List (String × Bool)
  perm : ∀ es, (iter es).Perm es

def HashOrder.sorted : HashOrder := ⟨id, fun _ => List.Perm.refl _⟩

structure HelloFrame : Type where
  minProtocol : I32
  maxProtocol : I32
  client : GatewayClientInfo
  caps : Option (List String)
  commands : Option (List String)
  permissions : Option Permissions
  pathEnv : Option String
  role : Option String
  scopes : Option (List String)
  device : Option DeviceAuth
  auth : Option ClientAuth
  locale : Option String
  userAgent : Option String

def HelloFrame.fields (order : HashOrder) : Rec HelloFrame HelloFrame :=
  Rec.start HelloFrame.mk
    |>.field "minProtocol" HelloFrame.minProtocol i32
    |>.field "maxProtocol" HelloFrame.maxProtocol i32
    |>.field "client" HelloFrame.client GatewayClientInfo.codec
    |>.opt "caps" HelloFrame.caps strings
    |>.opt "commands" HelloFrame.commands strings
    |>.opt "permissions" HelloFrame.permissions
      (Codec.bool.hashMap (fun _ => rfl) order.iter order.perm)
    |>.opt "pathEnv" HelloFrame.pathEnv .string
    |>.opt "role" HelloFrame.role .string
    |>.opt "scopes" HelloFrame.scopes strings
    |>.opt "device" HelloFrame.device DeviceAuth.codec
    |>.opt "auth" HelloFrame.auth ClientAuth.codec
    |>.opt "locale" HelloFrame.locale .string
    |>.opt "userAgent" HelloFrame.userAgent .string

/-- Reading does not look at the order of a hash table. -/
theorem HelloFrame.fields_sorted (order : HashOrder) :
    (HelloFrame.fields order).names = (HelloFrame.fields .sorted).names ∧
      (HelloFrame.fields order).de = (HelloFrame.fields .sorted).de := by
  constructor <;> simp only [HelloFrame.fields, Rec.opt, Rec.field, Codec.hashMap]

structure ServerInfo : Type where
  version : String
  commit : Option String
  host : Option String
  connId : String

def ServerInfo.codec : Codec ServerInfo :=
  (Rec.start ServerInfo.mk
    |>.field "version" ServerInfo.version .string
    |>.opt "commit" ServerInfo.commit .string
    |>.opt "host" ServerInfo.host .string
    |>.field "connId" ServerInfo.connId .string).exact (fun _ => rfl) (by decide)

structure ServerFeatures : Type where
  methods : List String
  events : List String

def ServerFeatures.codec : Codec ServerFeatures :=
  (Rec.start ServerFeatures.mk
    |>.field "methods" ServerFeatures.methods strings
    |>.field "events" ServerFeatures.events strings).exact (fun _ => rfl) (by decide)

structure DeviceAuthResponse : Type where
  deviceToken : String
  role : String
  scopes : List String
  issuedAtMs : Option I64

def DeviceAuthResponse.codec : Codec DeviceAuthResponse :=
  (Rec.start DeviceAuthResponse.mk
    |>.field "deviceToken" DeviceAuthResponse.deviceToken .string
    |>.field "role" DeviceAuthResponse.role .string
    |>.field "scopes" DeviceAuthResponse.scopes strings
    |>.opt "issuedAtMs" DeviceAuthResponse.issuedAtMs i64).exact (fun _ => rfl) (by decide)

structure Policy : Type where
  maxPayload : I32
  maxBufferedBytes : I32
  tickIntervalMs : I32

def Policy.codec : Codec Policy :=
  (Rec.start Policy.mk
    |>.field "maxPayload" Policy.maxPayload i32
    |>.field "maxBufferedBytes" Policy.maxBufferedBytes i32
    |>.field "tickIntervalMs" Policy.tickIntervalMs i32).exact (fun _ => rfl) (by decide)

structure HelloOk : Type where
  protocol : I32
  server : ServerInfo
  features : ServerFeatures
  snapshot : Snapshot
  canvasHostUrl : Option String
  auth : Option DeviceAuthResponse
  policy : Policy

def HelloOk.fields : Rec HelloOk HelloOk :=
  Rec.start HelloOk.mk
    |>.field "protocol" HelloOk.protocol i32
    |>.field "server" HelloOk.server ServerInfo.codec
    |>.field "features" HelloOk.features ServerFeatures.codec
    |>.field "snapshot" HelloOk.snapshot Snapshot.codec
    |>.opt "canvasHostUrl" HelloOk.canvasHostUrl .string
    |>.opt "auth" HelloOk.auth DeviceAuthResponse.codec
    |>.field "policy" HelloOk.policy Policy.codec

/-! ## §2  Sessions -/

structure SessionCreateParams : Type where
  agentId : String
  agentConfig : Option Value
  model : Option String
  provider : Option String
  systemPrompt : Option String
  tools : Option (List String)
  context : Option Value

/-- `null` in a field of type `Option<Value>` is read as nothing. -/
def SessionCreateParams.normalize (p : SessionCreateParams) : SessionCreateParams :=
  { p with
    agentConfig := Codec.dropNull p.agentConfig
    context := Codec.dropNull p.context }

def SessionCreateParams.codec : Codec SessionCreateParams :=
  (Rec.start SessionCreateParams.mk
    |>.field "agentId" SessionCreateParams.agentId .string
    |>.opt "agentConfig" SessionCreateParams.agentConfig .value
    |>.opt "model" SessionCreateParams.model .string
    |>.opt "provider" SessionCreateParams.provider .string
    |>.opt "systemPrompt" SessionCreateParams.systemPrompt .string
    |>.opt "tools" SessionCreateParams.tools strings
    |>.opt "context" SessionCreateParams.context .value).codec normalize (fun _ => rfl) (by decide)

structure SessionCreate : Type where
  id : String
  params : Option SessionCreateParams

def SessionCreate.normalize (f : SessionCreate) : SessionCreate :=
  { f with params := f.params.map SessionCreateParams.normalize }

def SessionCreate.fields : Rec SessionCreate SessionCreate :=
  Rec.start SessionCreate.mk
    |>.field "id" SessionCreate.id .string
    |>.opt "params" SessionCreate.params SessionCreateParams.codec

structure SessionStartParams : Type where
  sessionId : String
  input : Option String
  context : Option Value

def SessionStartParams.normalize (p : SessionStartParams) : SessionStartParams :=
  { p with context := Codec.dropNull p.context }

def SessionStartParams.codec : Codec SessionStartParams :=
  (Rec.start SessionStartParams.mk
    |>.field "sessionId" SessionStartParams.sessionId .string
    |>.opt "input" SessionStartParams.input .string
    |>.opt "context" SessionStartParams.context .value).codec normalize (fun _ => rfl) (by decide)

structure SessionStart : Type where
  id : String
  params : Option SessionStartParams

def SessionStart.normalize (f : SessionStart) : SessionStart :=
  { f with params := f.params.map SessionStartParams.normalize }

def SessionStart.fields : Rec SessionStart SessionStart :=
  Rec.start SessionStart.mk
    |>.field "id" SessionStart.id .string
    |>.opt "params" SessionStart.params SessionStartParams.codec

inductive SessionStatus : Type where
  | pending
  | running
  | waiting
  | completed
  | error

def SessionStatus.name : SessionStatus → String
  | pending => "pending"
  | running => "running"
  | waiting => "waiting"
  | completed => "completed"
  | error => "error"

def SessionStatus.codec : Codec SessionStatus :=
  .variants name [pending, running, waiting, completed, error] (fun a => by cases a <;> rfl)

structure SessionInfo : Type where
  sessionId : String
  agentId : String
  status : SessionStatus
  createdAt : I64
  lastActivityAt : Option I64
  messageCount : Option I64

def SessionInfo.codec : Codec SessionInfo :=
  (Rec.start SessionInfo.mk
    |>.field "sessionId" SessionInfo.sessionId .string
    |>.field "agentId" SessionInfo.agentId .string
    |>.field "status" SessionInfo.status SessionStatus.codec
    |>.field "createdAt" SessionInfo.createdAt i64
    |>.opt "lastActivityAt" SessionInfo.lastActivityAt i64
    |>.opt "messageCount" SessionInfo.messageCount i64).exact (fun _ => rfl) (by decide)

structure SessionCreateOk : Type where
  id : String
  session : SessionInfo

def SessionCreateOk.fields : Rec SessionCreateOk SessionCreateOk :=
  Rec.start SessionCreateOk.mk
    |>.field "id" SessionCreateOk.id .string
    |>.field "session" SessionCreateOk.session SessionInfo.codec

structure SessionStartOk : Type where
  id : String
  sessionId : String
  response : String

def SessionStartOk.fields : Rec SessionStartOk SessionStartOk :=
  Rec.start SessionStartOk.mk
    |>.field "id" SessionStartOk.id .string
    |>.field "sessionId" SessionStartOk.sessionId .string
    |>.field "response" SessionStartOk.response .string

/-! ## §3  Requests, responses, events and errors -/

structure ErrorDetails : Type where
  code : String
  message : String
  details : Option Value
  retryable : Option Bool
  retryAfterMs : Option I64

def ErrorDetails.normalize (e : ErrorDetails) : ErrorDetails :=
  { e with details := Codec.dropNull e.details }

def ErrorDetails.codec : Codec ErrorDetails :=
  (Rec.start ErrorDetails.mk
    |>.field "code" ErrorDetails.code .string
    |>.field "message" ErrorDetails.message .string
    |>.opt "details" ErrorDetails.details .value
    |>.opt "retryable" ErrorDetails.retryable .bool
    |>.opt "retryAfterMs" ErrorDetails.retryAfterMs i64).codec normalize (fun _ => rfl) (by decide)

structure ErrorFrame : Type where
  id : String
  error : ErrorDetails

def ErrorFrame.normalize (f : ErrorFrame) : ErrorFrame :=
  { f with error := f.error.normalize }

def ErrorFrame.fields : Rec ErrorFrame ErrorFrame :=
  Rec.start ErrorFrame.mk
    |>.field "id" ErrorFrame.id .string
    |>.field "error" ErrorFrame.error ErrorDetails.codec

structure RequestFrame : Type where
  id : String
  method : String
  params : Option Value

def RequestFrame.normalize (f : RequestFrame) : RequestFrame :=
  { f with params := Codec.dropNull f.params }

def RequestFrame.fields : Rec RequestFrame RequestFrame :=
  Rec.start RequestFrame.mk
    |>.field "id" RequestFrame.id .string
    |>.field "method" RequestFrame.method .string
    |>.opt "params" RequestFrame.params .value

structure ResponseFrame : Type where
  id : String
  ok : Bool
  payload : Option Value
  error : Option ErrorDetails

def ResponseFrame.normalize (f : ResponseFrame) : ResponseFrame :=
  { f with
    payload := Codec.dropNull f.payload
    error := f.error.map ErrorDetails.normalize }

def ResponseFrame.fields : Rec ResponseFrame ResponseFrame :=
  Rec.start ResponseFrame.mk
    |>.field "id" ResponseFrame.id .string
    |>.field "ok" ResponseFrame.ok .bool
    |>.opt "payload" ResponseFrame.payload .value
    |>.opt "error" ResponseFrame.error ErrorDetails.codec

structure EventFrame : Type where
  event : String
  payload : Option Value
  seq : Option I64
  stateVersion : Option StateVersion

def EventFrame.normalize (f : EventFrame) : EventFrame :=
  { f with payload := Codec.dropNull f.payload }

def EventFrame.fields : Rec EventFrame EventFrame :=
  Rec.start EventFrame.mk
    |>.field "event" EventFrame.event .string
    |>.opt "payload" EventFrame.payload .value
    |>.opt "seq" EventFrame.seq i64
    |>.opt "stateVersion" EventFrame.stateVersion StateVersion.codec

/-! ## §4  Frames -/

/-- The variants in the order of the declaration, in which they are tried. -/
inductive GatewayFrame : Type where
  | hello (f : HelloFrame)
  | helloOk (f : HelloOk)
  | sessionCreate (f : SessionCreate)
  | sessionCreateOk (f : SessionCreateOk)
  | sessionStart (f : SessionStart)
  | sessionStartOk (f : SessionStartOk)
  | request (f : RequestFrame)
  | response (f : ResponseFrame)
  | event (f : EventFrame)
  | error (f : ErrorFrame)

namespace GatewayFrame

/-- The record of a tagged frame. -/
def record {α : Type} (fields : Rec α α) (tag : String) : Rec α α := fields.tagged "type" tag

/-- `serde::Serialize` for `GatewayFrame`. -/
def ser (order : HashOrder) : GatewayFrame → Json
  | hello f => .obj ((record (HelloFrame.fields order) "Hello").ser f)
  | helloOk f => .obj ((record HelloOk.fields "HelloOk").ser f)
  | sessionCreate f => .obj ((record SessionCreate.fields "SessionCreate").ser f)
  | sessionCreateOk f => .obj ((record SessionCreateOk.fields "SessionCreateOk").ser f)
  | sessionStart f => .obj ((record SessionStart.fields "SessionStart").ser f)
  | sessionStartOk f => .obj ((record SessionStartOk.fields "SessionStartOk").ser f)
  | request f => .obj ((record RequestFrame.fields "Req").ser f)
  | response f => .obj ((record ResponseFrame.fields "Res").ser f)
  | event f => .obj ((record EventFrame.fields "Event").ser f)
  | error f => .obj ((record ErrorFrame.fields "Error").ser f)

/-- `serde::Deserialize` for `GatewayFrame`: the first variant that can be read. -/
def de (j : Json) : Option GatewayFrame :=
  ((record (HelloFrame.fields .sorted) "Hello").read j).map hello
    <|> ((record HelloOk.fields "HelloOk").read j).map helloOk
    <|> ((record SessionCreate.fields "SessionCreate").read j).map sessionCreate
    <|> ((record SessionCreateOk.fields "SessionCreateOk").read j).map sessionCreateOk
    <|> ((record SessionStart.fields "SessionStart").read j).map sessionStart
    <|> ((record SessionStartOk.fields "SessionStartOk").read j).map sessionStartOk
    <|> ((record RequestFrame.fields "Req").read j).map request
    <|> ((record ResponseFrame.fields "Res").read j).map response
    <|> ((record EventFrame.fields "Event").read j).map event
    <|> ((record ErrorFrame.fields "Error").read j).map error

/-- `null` in a field of type `Option<Value>` is read as nothing; all else is kept. -/
def normalize : GatewayFrame → GatewayFrame
  | sessionCreate f => sessionCreate f.normalize
  | sessionStart f => sessionStart f.normalize
  | request f => request f.normalize
  | response f => response f.normalize
  | event f => event f.normalize
  | error f => error f.normalize
  | f => f

end GatewayFrame

end Oclaw.Protocol
