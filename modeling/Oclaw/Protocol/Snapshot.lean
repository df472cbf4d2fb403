import Oclaw.Lib.Codec

/-!
# Parts of frames

The records of `crates/protocol/src/primitives.rs` and `snapshot.rs` that frames are made
of, with the codecs that `serde` derives for them. Field and variant names are those of
the JSON text: `rename_all` applies to the records and enumerations that carry it, which
`GatewayClientInfo` does not.
-/

namespace Oclaw.Protocol

open Oclaw.Lib

abbrev I32 := {z : Int // -0x80000000 ≤ z ∧ z < 0x80000000}

abbrev I64 := {z : Int // -0x8000000000000000 ≤ z ∧ z < 0x8000000000000000}

def i32 : Codec I32 := Codec.int _ _ (by decide) (by decide)

def i64 : Codec I64 := Codec.int _ _ (by decide) (by decide)

/-- `Vec<String>` -/
def strings : Codec (List String) := Codec.string.list (fun _ => rfl)

/-! ## §1  Clients -/

inductive GatewayClientId : Type where
  | webchatUi
  | controlUi
  | webchat
  | cli
  | gatewayClient
  | macosApp
  | iosApp
  | androidApp
  | nodeHost
  | test
  | fingerprint
  | probe

def GatewayClientId.name : GatewayClientId → String
  | webchatUi => "webchat-ui"
  | controlUi => "control-ui"
  | webchat => "webchat"
  | cli => "cli"
  | gatewayClient => "gateway-client"
  | macosApp => "macos-app"
  | iosApp => "ios-app"
  | androidApp => "android-app"
  | nodeHost => "node-host"
  | test => "test"
  | fingerprint => "fingerprint"
  | probe => "probe"

def GatewayClientId.codec : Codec GatewayClientId :=
  .variants name
    [webchatUi, controlUi, webchat, cli, gatewayClient, macosApp, iosApp, androidApp, nodeHost,
      test, fingerprint, probe]
    (fun a => by cases a <;> rfl)

inductive GatewayClientMode : Type where
  | webchat
  | cli
  | ui
  | backend
  | node
  | probe
  | test

def GatewayClientMode.name : GatewayClientMode → String
  | webchat => "webchat"
  | cli => "cli"
  | ui => "ui"
  | backend => "backend"
  | node => "node"
  | probe => "probe"
  | test => "test"

def GatewayClientMode.codec : Codec GatewayClientMode :=
  .variants name [webchat, cli, ui, backend, node, probe, test] (fun a => by cases a <;> rfl)

structure GatewayClientInfo : Type where
  id : GatewayClientId
  displayName : Option String
  version : String
  platform : String
  deviceFamily : Option String
  modelIdentifier : Option String
  mode : GatewayClientMode
  instanceId : Option String

def GatewayClientInfo.codec : Codec GatewayClientInfo :=
  (Rec.start GatewayClientInfo.mk
    |>.field "id" GatewayClientInfo.id GatewayClientId.codec
    |>.opt "display_name" GatewayClientInfo.displayName .string
    |>.field "version" GatewayClientInfo.version .string
    |>.field "platform" GatewayClientInfo.platform .string
    |>.opt "device_family" GatewayClientInfo.deviceFamily .string
    |>.opt "model_identifier" GatewayClientInfo.modelIdentifier .string
    |>.field "mode" GatewayClientInfo.mode GatewayClientMode.codec
    |>.opt "instance_id" GatewayClientInfo.instanceId .string).exact (fun _ => rfl) (by decide)

/-! ## §2  Snapshots -/

structure PresenceEntry : Type where
  host : Option String
  ip : Option String
  version : Option String
  platform : Option String
  deviceFamily : Option String
  modelIdentifier : Option String
  mode : Option String
  lastInputSeconds : Option I64
  reason : Option String
  tags : Option (List String)
  text : Option String
  ts : I64
  deviceId : Option String
  roles : Option (List String)
  scopes : Option (List String)
  instanceId : Option String

def PresenceEntry.codec : Codec PresenceEntry :=
  (Rec.start PresenceEntry.mk
    |>.opt "host" PresenceEntry.host .string
    |>.opt "ip" PresenceEntry.ip .string
    |>.opt "version" PresenceEntry.version .string
    |>.opt "platform" PresenceEntry.platform .string
    |>.opt "deviceFamily" PresenceEntry.deviceFamily .string
    |>.opt "modelIdentifier" PresenceEntry.modelIdentifier .string
    |>.opt "mode" PresenceEntry.mode .string
    |>.opt "lastInputSeconds" PresenceEntry.lastInputSeconds i64
    |>.opt "reason" PresenceEntry.reason .string
    |>.opt "tags" PresenceEntry.tags strings
    |>.opt "text" PresenceEntry.text .string
    |>.field "ts" PresenceEntry.ts i64
    |>.opt "deviceId" PresenceEntry.deviceId .string
    |>.opt "roles" PresenceEntry.roles strings
    |>.opt "scopes" PresenceEntry.scopes strings
    |>.opt "instanceId" PresenceEntry.instanceId .string).exact (fun _ => rfl) (by decide)

structure SessionDefaults : Type where
  defaultAgentId : String
  mainKey : String
  mainSessionKey : String
  scope : Option String

def SessionDefaults.codec : Codec SessionDefaults :=
  (Rec.start SessionDefaults.mk
    |>.field "defaultAgentId" SessionDefaults.defaultAgentId .string
    |>.field "mainKey" SessionDefaults.mainKey .string
    |>.field "mainSessionKey" SessionDefaults.mainSessionKey .string
    |>.opt "scope" SessionDefaults.scope .string).exact (fun _ => rfl) (by decide)

structure StateVersion : Type where
  presence : I64
  health : I64

def StateVersion.codec : Codec StateVersion :=
  (Rec.start StateVersion.mk
    |>.field "presence" StateVersion.presence i64
    |>.field "health" StateVersion.health i64).exact (fun _ => rfl) (by decide)

structure UpdateAvailable : Type where
  currentVersion : String
  latestVersion : String
  channel : String

def UpdateAvailable.codec : Codec UpdateAvailable :=
  (Rec.start UpdateAvailable.mk
    |>.field "currentVersion" UpdateAvailable.currentVersion .string
    |>.field "latestVersion" UpdateAvailable.latestVersion .string
    |>.field "channel" UpdateAvailable.channel .string).exact (fun _ => rfl) (by decide)

inductive AuthMode : Type where
  | none
  | token
  | password
  | trustedProxy

def AuthMode.name : AuthMode → String
  | none => "none"
  | token => "token"
  | password => "password"
  | trustedProxy => "trusted-proxy"

def AuthMode.codec : Codec AuthMode :=
  .variants name [none, token, password, trustedProxy] (fun a => by cases a <;> rfl)

structure Snapshot : Type where
  presence : List PresenceEntry
  health : Value
  stateVersion : StateVersion
  uptimeMs : I64
  configPath : Option String
  stateDir : Option String
  sessionDefaults : Option SessionDefaults
  authMode : Option AuthMode
  updateAvailable : Option UpdateAvailable

def Snapshot.codec : Codec Snapshot :=
  (Rec.start Snapshot.mk
    |>.field "presence" Snapshot.presence (PresenceEntry.codec.list (fun _ => rfl))
    |>.field "health" Snapshot.health .value
    |>.field "stateVersion" Snapshot.stateVersion StateVersion.codec
    |>.field "uptimeMs" Snapshot.uptimeMs i64
    |>.opt "configPath" Snapshot.configPath .string
    |>.opt "stateDir" Snapshot.stateDir .string
    |>.opt "sessionDefaults" Snapshot.sessionDefaults SessionDefaults.codec
    |>.opt "authMode" Snapshot.authMode AuthMode.codec
    |>.opt "updateAvailable" Snapshot.updateAvailable UpdateAvailable.codec).exact
      (fun _ => rfl) (by decide)

end Oclaw.Protocol
