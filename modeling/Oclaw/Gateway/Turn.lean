import Oclaw.AutoReply.Context

/-!
# One turn of the inbound pipeline

`process_single_message` and what it reads, from
`crates/gateway-core/src/pipeline.rs`, with the agent bindings of
`crates/config/src/settings.rs`. What the rest of the gateway answers during the
turn (skill registry, agent run, channel manager, transport) is an input, so a
turn succeeds or fails as the environment chooses. Memory flush, evolution and
auto-capture run between reply and delivery; they cannot fail the turn and do
not change what is sent, and are left out.
-/

namespace Oclaw.Gateway

open Oclaw.Lib Oclaw.AutoReply

/-! ## Agent bindings -/

inductive AgentBinding : Type where
  | peer (channel peerId agentId : String)
  | guildRoles (channel guildId : String) (roleIds : List String) (agentId : String)
  | guild (channel guildId agentId : String)
  | team (channel teamId agentId : String)
  | account (channel accountId agentId : String)
  | channel (channel agentId : String)
  | default (agentId : String)

def AgentBinding.agentId : AgentBinding → String
  | .peer _ _ agentId => agentId
  | .guildRoles _ _ _ agentId => agentId
  | .guild _ _ agentId => agentId
  | .team _ _ agentId => agentId
  | .account _ _ agentId => agentId
  | .channel _ agentId => agentId
  | .default agentId => agentId

def AgentBinding.priority : AgentBinding → ℕ
  | .peer .. => 1
  | .guildRoles .. => 2
  | .guild .. => 3
  | .team .. => 4
  | .account .. => 5
  | .channel .. => 6
  | .default .. => 7

/-- What binding resolution reads of a message. -/
structure MessageContext : Type where
  channel : String
  peerId : String
  guildId : Option String
  teamId : Option String
  accountId : Option String
  roleIds : List String
deriving DecidableEq

def AgentBinding.isMatch (ctx : MessageContext) : AgentBinding → Bool
  | .peer chan peerId _ => chan == ctx.channel && peerId == ctx.peerId
  | .guildRoles chan guildId roleIds _ =>
      chan == ctx.channel && (ctx.guildId.map (· == guildId)).getD false &&
        !roleIds.isEmpty && roleIds.all (fun r => ctx.roleIds.contains r)
  | .guild chan guildId _ =>
      chan == ctx.channel && (ctx.guildId.map (· == guildId)).getD false
  | .team chan teamId _ =>
      chan == ctx.channel && (ctx.teamId.map (· == teamId)).getD false
  | .account chan accountId _ =>
      chan == ctx.channel && (ctx.accountId.map (· == accountId)).getD false
  | .channel chan _ => chan == ctx.channel
  | .default _ => true

/-- The fold over the bindings keeps the first match of least priority. -/
def resolveAgentForMessage (bindings : List AgentBinding) (ctx : MessageContext) :
    Option String :=
  let best := bindings.foldl (fun (best : Option (ℕ × AgentBinding)) binding =>
    if binding.isMatch ctx then
      if (best.map (fun b => decide (binding.priority < b.1))).getD true then
        some (binding.priority, binding)
      else best
    else best) none
  best.map (fun b => b.2.agentId)

/-! ## The turn -/

/-- The first present key of `keys`, trimmed; `none` when it is blank. -/
def metadataPickNonEmpty (md : Metadata) (keys : List String) : Option String :=
  ((keys.findSome? md.get).map trim).filter (fun t => t != "")

/-- What the gateway answers during one turn. -/
structure TurnEnv : Type where
  /-- `try_execute_skill`: a skill reply, no skill, or an error. -/
  skill : Except String (Option String)
  /-- `run_agent`: the agent's reply or its error. -/
  agent : Except String String
  /-- Names of the registered channels; `none` without a channel manager. -/
  channels : Option (List String)
  /-- The transport's answer to `send_message`. -/
  send : Except String Unit

/-- Arguments of `run_agent`. -/
structure AgentCall : Type where
  sessionId : String
  text : String
  agentId : String
  turnSourceChannel : String
  turnSourceTo : Option String
  turnSourceAccountId : Option String
  turnSourceThreadId : Option String
deriving DecidableEq

structure ChannelMessage : Type where
  channel : String
  sender : String
  content : String
  metadata : Metadata
deriving DecidableEq

/-- What one turn did: the context in which a binding was looked up, the agent
run it started, the message it gave to a channel, and its result. -/
structure TurnReport : Type where
  bindingContext : Option MessageContext
  agentCall : Option AgentCall
  sent : Option ChannelMessage
  result : Except String String
deriving DecidableEq

def TurnReport.isOk (r : TurnReport) : Bool := r.result.isOk

/-- `send_reply`: look the channel up by name and hand the message to it. -/
def sendReply (env : TurnEnv) (channelName reply : String) (md : Metadata) :
    Option ChannelMessage × Except String Unit :=
  match env.channels with
  | none => (none, .error "No channel manager")
  | some names =>
      if names.contains channelName then
        (some ⟨channelName, "bot", reply, md⟩,
          env.send.mapError (fun e => "Send error: " ++ e))
      else (none, .error (channelName ++ " channel not found"))

def bindingContextOf (channelName chatId : String) (md : Metadata) : MessageContext where
  channel := channelName
  peerId := (md.get "user_id").getD chatId
  guildId := md.get "guild_id"
  teamId := md.get "team_id"
  accountId := md.get "account_id"
  roleIds := ((md.get "role_ids").map (fun r =>
    ((splitOnChar ',' r).map trim).filter (fun s => s != ""))).getD []

/-- `process_single_message`. `bindings` is `none` when the configuration has
no binding list. -/
def processSingleMessage (bindings : Option (List AgentBinding)) (env : TurnEnv)
    (channelName chatId sessionId : String) (finalized : FinalizedMsgContext) :
    TurnReport :=
  let md := finalized.ctx.raw
  let turnSourceTo :=
    (metadataPickNonEmpty md ["chat_id", "to", "target", "recipient"]).or
      (let trimmed := trim chatId
       if trimmed = "" then none else some trimmed)
  let turnSourceAccountId := metadataPickNonEmpty md ["account_id", "accountId"]
  let turnSourceThreadId :=
    metadataPickNonEmpty md ["thread_id", "threadId", "thread_ts", "root_id"]
  let bindingContext := bindings.map (fun _ => bindingContextOf channelName chatId md)
  let resolvedAgentId := bindings.bind (fun bs =>
    resolveAgentForMessage bs (bindingContextOf channelName chatId md))
  let agentCall : AgentCall :=
    { sessionId := sessionId, text := finalized.bodyForAgent
      agentId := resolvedAgentId.getD "channel-agent"
      turnSourceChannel := channelName, turnSourceTo := turnSourceTo
      turnSourceAccountId := turnSourceAccountId
      turnSourceThreadId := turnSourceThreadId }
  let deliver (run : Option AgentCall) (reply : String) : TurnReport :=
    let (sent, ok) := sendReply env channelName reply md
    ⟨bindingContext, run, sent, ok.map (fun _ => reply)⟩
  match env.skill with
  | .error e => ⟨bindingContext, none, none, .error e⟩
  | .ok (some skillReply) => deliver none skillReply
  | .ok none =>
      match env.agent with
      | .error e => ⟨bindingContext, some agentCall, none, .error e⟩
      | .ok reply => deliver (some agentCall) reply

variable {bindings : Option (List AgentBinding)} {env : TurnEnv}
  {channelName chatId sessionId : String} {finalized : FinalizedMsgContext}

theorem sendReply_channel {reply : String} {md : Metadata} {msg : ChannelMessage}
    (h : (sendReply env channelName reply md).1 = some msg) :
    msg.channel = channelName := by
  unfold sendReply at h
  split at h
  · cases h
  · split at h
    · cases h
      rfl
    · cases h

/-- Whatever the environment answers, a turn sends only on the channel it was
called with. -/
theorem processSingleMessage_sent {msg : ChannelMessage}
    (h : (processSingleMessage bindings env channelName chatId sessionId finalized).sent =
      some msg) : msg.channel = channelName := by
  unfold processSingleMessage at h
  cases hskill : env.skill with
  | error e => simp [hskill] at h
  | ok skill =>
      cases skill with
      | some reply =>
          simp only [hskill] at h
          exact sendReply_channel h
      | none =>
          cases hagent : env.agent with
          | error e => simp [hskill, hagent] at h
          | ok reply =>
              simp only [hskill, hagent] at h
              exact sendReply_channel h

/-- Bindings are looked up for the channel the turn was called with. -/
theorem processSingleMessage_binding {ctx : MessageContext}
    (h : (processSingleMessage bindings env channelName chatId sessionId
      finalized).bindingContext = some ctx) : ctx.channel = channelName := by
  have hctx : bindings.map
      (fun _ => bindingContextOf channelName chatId finalized.ctx.raw) = some ctx := by
    unfold processSingleMessage at h
    cases hskill : env.skill with
    | error e => simpa [hskill] using h
    | ok skill =>
        cases skill with
        | some reply => simpa [hskill] using h
        | none =>
            cases hagent : env.agent with
            | error e => simpa [hskill, hagent] using h
            | ok reply => simpa [hskill, hagent] using h
  obtain ⟨bs, -, rfl⟩ := Option.map_eq_some_iff.mp hctx
  rfl

/-- The environment in which every turn succeeds. -/
def TurnEnv.answering (reply channelName : String) : TurnEnv where
  skill := .ok none
  agent := .ok reply
  channels := some [channelName]
  send := .ok ()

theorem processSingleMessage_answering (reply : String) :
    (processSingleMessage bindings (TurnEnv.answering reply channelName) channelName chatId
      sessionId finalized).result = .ok reply := by
  simp [processSingleMessage, TurnEnv.answering, sendReply, Except.map, Except.mapError]

end Oclaw.Gateway
