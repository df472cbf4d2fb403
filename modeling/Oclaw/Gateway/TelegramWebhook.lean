import Oclaw.AgentCore.EchoDetect
import Oclaw.Gateway.Pipeline
import Oclaw.Gateway.SessionIsolation
import Oclaw.Lib.Json
import Oclaw.Lib.Utf8

/-!
# Telegram updates and their sessions

`telegram_webhook` of `crates/gateway-core/src/http/webhooks.rs` with its gate: the echo
tracker of `crates/agent-core/src/echo_detect.rs` and the group activation of
`crates/channel-core/src/group_gate.rs`. The webhook knows whether a chat is a group; what
it hands to `process_message` is the chat id alone.
-/

namespace Oclaw.Lib.Json

/-- `Value::pointer`, for tokens that are no array indices. -/
def pointer : List String → Json → Option Json
  | [], j => some j
  | name :: names, j => (j.get name).bind (pointer names)

/-- `Value::as_i64` -/
def asI64 : Json → Option ℤ
  | num (.int z _) => if z < 0x8000000000000000 then some z else none
  | _ => none

end Oclaw.Lib.Json

namespace Oclaw.ChannelCore

open Oclaw.Lib

inductive GroupActivation : Type where
  | mention
  | always

def shouldProcess (isGroup : Bool) (activation : GroupActivation) (mentioned : Bool) : Bool :=
  if !isGroup then true
  else
    match activation with
    | .always => true
    | .mention => mentioned

structure ChannelEvent : Type where
  eventType : String
  channel : String
  payload : Value

end Oclaw.ChannelCore

namespace Oclaw.Gateway

open Oclaw.Lib Oclaw.AgentCore Oclaw.ChannelCore Oclaw.AutoReply

/-! ## §1  The webhook -/

/-- What the webhook reads of the gateway. -/
structure HttpState : Type where
  gateway : GatewayConfig
  groupActivation : GroupActivation
  echoTracker : EchoTracker
  /-- `TELEGRAM_WEBHOOK_SECRET` -/
  telegramSecret : Option String

/-- A request with the queue settings and the clock reading that its message finds. -/
structure WebhookRequest : Type where
  secretToken : Option String
  payload : Value
  settings : QueueRuntimeSettings
  receivedMs : ℕ

/-- The event for the channel or the status and the text of an error, and the message that
is processed in the background. -/
structure WebhookOutcome : Type where
  forwarded : Except (ℕ × String) ChannelEvent
  spawned : Option Invocation
  echoTracker : EchoTracker

def constantTimeEq (a b : List UInt8) : Bool :=
  if a.length ≠ b.length then false
  else (a.zip b).foldl (fun diff p => diff ||| (p.1 ^^^ p.2)) 0 == 0

def verifyTelegramSecret (expected actual : String) : Bool :=
  constantTimeEq (utf8 expected.toList) (utf8 actual.toList)

/-- Without a secret in the environment, every request is let in. -/
def HttpState.letsIn (st : HttpState) (r : WebhookRequest) : Bool :=
  match st.telegramSecret with
  | some secret => verifyTelegramSecret secret (r.secretToken.getD "")
  | none => true

/-- The chat types of `telegram_webhook` that are groups. -/
def isGroupChat (payload : Json) : Bool :=
  let chatType := ((payload.pointer ["message", "chat", "type"]).bind Json.asStr).getD "private"
  chatType == "group" || chatType == "supergroup"

def hasMention (payload : Json) : Bool :=
  match payload.pointer ["message", "entities"] with
  | some (.arr entities) =>
      entities.any (fun e =>
        let t := ((e.get "type").bind Json.asStr).getD ""
        t == "mention" || t == "bot_command")
  | _ => false

/-- The call of `process_message` that `handle_telegram_reply` makes. -/
def handleTelegramReply (r : WebhookRequest) (chatId : ℤ) (text : String) : Invocation where
  channelName := "telegram"
  chatId := toString chatId
  text := text
  metadata := [("chat_id", toString chatId)]
  settings := r.settings
  receivedMs := r.receivedMs

def telegramWebhook (lower : String → String) (st : HttpState) (r : WebhookRequest) :
    WebhookOutcome :=
  if !st.letsIn r then ⟨.error (401, "Invalid secret token"), none, st.echoTracker⟩
  else
    let payload := r.payload.val
    let eventType :=
      if (payload.get "callback_query").isSome then "callback_query" else "message"
    let event : ChannelEvent := ⟨eventType, "telegram", r.payload⟩
    let chatId :=
      if eventType = "message" then
        (payload.pointer ["message", "chat", "id"]).bind Json.asI64
      else none
    let text :=
      if eventType = "message" then (payload.pointer ["message", "text"]).bind Json.asStr
      else none
    let isGroup := eventType == "message" && isGroupChat payload
    match chatId, text with
    | some chatId, some text =>
        let (isEcho, echoTracker) := st.echoTracker.has lower text
        let should := shouldProcess isGroup st.groupActivation (hasMention payload)
        { forwarded := .ok event
          spawned :=
            if !isEcho && should then some (handleTelegramReply r chatId text) else none
          echoTracker := echoTracker }
    | _, _ => ⟨.ok event, none, st.echoTracker⟩

/-! ## §2  The session of an accepted update -/

/-- The gate accepts the update, and this message is processed. -/
def Accepted (lower : String → String) (st : HttpState) (r : WebhookRequest) (v : Invocation) :
    Prop :=
  (telegramWebhook lower st r).spawned = some v

instance instDecidableAccepted (lower : String → String) (st : HttpState) (r : WebhookRequest)
    (v : Invocation) : Decidable (Accepted lower st r v) :=
  inferInstanceAs (Decidable (_ = _))

/-- Two messages are processed under one id: one queue, one history and one run lock. -/
def SharesSession (g : GatewayConfig) (v v' : Invocation) : Prop :=
  ∃ S : Session Bool, S.gateway = g ∧ S.inv true = v ∧ S.inv false = v'

/-- The id that a group has in every scope. -/
def groupSessionId (g : GatewayConfig) (chatId : String) : String :=
  buildSessionId "telegram" chatId true g.dmScope g.identityLinks none

/-- Whom a direct chat belongs to. -/
def resolvedPeer (g : GatewayConfig) (chatId : String) : String :=
  (g.identityLinks.bind (fun links => links.resolve "telegram" chatId)).getD chatId

variable {lower : String → String} {st : HttpState} {r r' : WebhookRequest}
variable {g : GatewayConfig} {v v' : Invocation} {chatId : ℤ}

theorem sharesSession_iff : SharesSession g v v' ↔ v.sessionId g = v'.sessionId g := by
  constructor
  · rintro ⟨S, rfl, rfl, rfl⟩
    exact (S.sameSession true).trans (S.sameSession false).symm
  · intro h
    refine ⟨⟨g, v.sessionId g, fun b => if b then v else v', ?_⟩, rfl, rfl, rfl⟩
    intro b
    cases b with
    | true => rfl
    | false => exact h.symm

/-- In a session of the pipeline, a message is enqueued under the id of its call. -/
theorem sessionKey_of_enqueue {ι : Type} [DecidableEq ι] {S : Session ι} {s s' : Sys ι} {i : ι}
    {m : Inbound ι} {action : QueueAction (Inbound ι)}
    (h : Step S s (.enqueue i m action) s') :
    m.msg.ctx.sessionKey = (S.inv i).sessionId S.gateway := by
  obtain ⟨j, pc', hmove, -⟩ := h.move
  generalize s.pc j = pc, s.queue = q, s.runLock = l, s'.queue = q', s'.runLock = l' at hmove
  cases hmove
  exact (S.sameSession i).symm

/-- What the gate accepts is handed over with its chat id and its text. -/
theorem Accepted.eq_reply (h : Accepted lower st r v) :
    ∃ chatId text, v = handleTelegramReply r chatId text := by
  unfold Accepted telegramWebhook at h
  split at h
  · cases h
  · simp only at h
    split at h
    · obtain ⟨-, h⟩ := Option.ite_none_right_eq_some.mp h
      cases h
      exact ⟨_, _, rfl⟩
    · cases h

/-- The metadata does not say that a chat is a group, so the id is that of a direct chat. -/
theorem Accepted.sessionId_eq (h : Accepted lower st r v) :
    v.sessionId g = buildSessionId "telegram" v.chatId false g.dmScope g.identityLinks none := by
  obtain ⟨chatId, text, rfl⟩ := h.eq_reply
  rfl

theorem groupSessionId_eq (chatId : String) :
    groupSessionId g chatId = "telegram" ++ "_" ++ chatId := rfl

/-- The text of a number has no letter. -/
theorem toString_ne_default (chatId : ℤ) (peer : String) :
    toString chatId ≠ "default_" ++ peer := by
  intro h
  have hmem : 'd' ∈ (toString chatId).toList := by
    rw [h, String.toList_append]
    exact List.mem_append_left _ (by decide)
  have hdigit (n : ℕ) (hn : 'd' ∈ n.repr.toList) : False := by
    rw [Nat.toList_repr] at hn
    exact absurd (Nat.isDigit_of_mem_toDigits (by decide) (by decide) hn) (by decide)
  rw [Int.toString_eq_repr] at hmem
  cases chatId with
  | ofNat n => exact hdigit n hmem
  | negSucc n =>
      rw [Int.repr, String.toList_append] at hmem
      rcases List.mem_append.mp hmem with hmem | hmem
      · exact absurd hmem (by decide)
      · exact hdigit _ hmem

/-- The scope and the identity links give the direct chat of a group's id the id of the
group. -/
def KeepsGroup (g : GatewayConfig) (chatId : String) : Prop :=
  match g.dmScope with
  | .perChannelPeer => resolvedPeer g chatId = chatId
  | .perPeer => resolvedPeer g chatId = "telegram_" ++ chatId
  | .main | .perAccountChannelPeer => False

theorem Accepted.sessionId_eq_group_iff (h : Accepted lower st r v) :
    v.sessionId g = groupSessionId g v.chatId ↔ KeepsGroup g v.chatId := by
  rw [h.sessionId_eq, groupSessionId_eq]
  obtain ⟨chatId, text, rfl⟩ := h.eq_reply
  unfold KeepsGroup buildSessionId
  rw [if_neg (by simp)]
  cases g.dmScope with
  | main =>
      simp only [iff_false]
      exact main_ne_joinedNames _ _
  | perPeer => exact Iff.rfl
  | perChannelPeer => exact String.append_right_inj _
  | perAccountChannelPeer =>
      simp only [iff_false, Option.getD_none, String.append_assoc]
      rw [String.append_right_inj, String.append_right_inj, ← String.append_assoc]
      exact (toString_ne_default chatId _).symm

/-- Where a group has its own id, it is shared by whoever belongs to the same peer. -/
theorem Accepted.sharesSession_iff {echo : EchoTracker} (h : Accepted lower st r v)
    (h' : Accepted lower { st with echoTracker := echo } r' v') (hkeeps : KeepsGroup g v.chatId) :
    SharesSession g v v' ↔ resolvedPeer g v'.chatId = resolvedPeer g v.chatId := by
  rw [Oclaw.Gateway.sharesSession_iff, h.sessionId_eq_group_iff.mpr hkeeps, h'.sessionId_eq,
    groupSessionId_eq]
  unfold KeepsGroup at hkeeps
  unfold buildSessionId
  rw [if_neg (by simp)]
  cases hscope : g.dmScope with
  | main => simp [hscope] at hkeeps
  | perAccountChannelPeer => simp [hscope] at hkeeps
  | perPeer =>
      simp only [hscope] at hkeeps
      rw [hkeeps]
      exact eq_comm
  | perChannelPeer =>
      simp only [hscope] at hkeeps
      rw [hkeeps]
      exact (String.append_right_inj _).trans eq_comm

/-- The second update comes from another group or from a direct chat. -/
def OtherChat (v : Invocation) (r' : WebhookRequest) (v' : Invocation) : Prop :=
  isGroupChat r'.payload.val = true → v'.chatId ≠ v.chatId

/-- An accepted update of a group or a supergroup. -/
def GroupUpdate (lower : String → String) (st : HttpState) (r : WebhookRequest)
    (v : Invocation) : Prop :=
  isGroupChat r.payload.val = true ∧ Accepted lower st r v

/-- Groups keep their own sessions just where the session of a direct chat happens to be
the group's, and the other chat does not belong to the same peer. -/
theorem group_sessions_iff {echo : EchoTracker} (h : GroupUpdate lower st r v)
    (h' : Accepted lower { st with echoTracker := echo } r' v') :
    (v.sessionId st.gateway = groupSessionId st.gateway v.chatId ∧
      (OtherChat v r' v' → ¬ SharesSession st.gateway v v')) ↔
    KeepsGroup st.gateway v.chatId ∧
      (OtherChat v r' v' →
        resolvedPeer st.gateway v'.chatId ≠ resolvedPeer st.gateway v.chatId) := by
  rw [h.2.sessionId_eq_group_iff]
  constructor
  · rintro ⟨hkeeps, hother⟩
    refine ⟨hkeeps, fun hchat hpeer => hother hchat ?_⟩
    exact (h.2.sharesSession_iff h' hkeeps).mpr hpeer
  · rintro ⟨hkeeps, hother⟩
    refine ⟨hkeeps, fun hchat hshares => hother hchat ?_⟩
    exact (h.2.sharesSession_iff h' hkeeps).mp hshares

/-! ## §3  Two groups -/

/-- A message of a group that mentions somebody. -/
def groupMessage (id : Number) (text : String) : WebhookRequest where
  secretToken := none
  payload := Json.toValue (.obj
    [("message", .obj
      [("chat", .obj [("id", .num id), ("type", .str "group")]),
        ("entities", .arr [.obj [("type", .str "mention")]]), ("text", .str text)])])
  settings := ⟨.collect, 0, 0, 10, .old⟩
  receivedMs := 0

def firstGroup : WebhookRequest := groupMessage (.int (-100) (by decide)) "@oclaw hi"
def secondGroup : WebhookRequest := groupMessage (.int (-200) (by decide)) "@oclaw hello"
def firstMessage : Invocation := handleTelegramReply firstGroup (-100) "@oclaw hi"
def secondMessage : Invocation := handleTelegramReply secondGroup (-200) "@oclaw hello"

/-- A gateway without identity links. -/
def withScope (scope : DmScope) : HttpState where
  gateway := ⟨true, scope, none, none⟩
  groupActivation := .mention
  echoTracker := ⟨[], [], 100⟩
  telegramSecret := none

/-- Where direct chats have sessions per channel, so have groups. -/
theorem groups_apart_per_channel :
    firstMessage.sessionId (withScope .perChannelPeer).gateway = "telegram_-100" ∧
      ¬ SharesSession (withScope .perChannelPeer).gateway firstMessage secondMessage := by
  have h : GroupUpdate id (withScope .perChannelPeer) firstGroup firstMessage :=
    ⟨by decide, by decide⟩
  have h' : Accepted id { withScope .perChannelPeer with echoTracker := ⟨[], [], 100⟩ } secondGroup
      secondMessage := by
    decide
  have hkeeps : resolvedPeer (withScope .perChannelPeer).gateway firstMessage.chatId =
      firstMessage.chatId := by
    decide
  obtain ⟨hown, hother⟩ := (group_sessions_iff h h').mpr ⟨hkeeps, fun _ => by decide⟩
  exact ⟨hown, hother fun _ => by decide⟩

/-- With the default scope both groups are queued under `main`. -/
theorem groups_share_main :
    GroupUpdate id (withScope .main) firstGroup firstMessage ∧
    GroupUpdate id (withScope .main) secondGroup secondMessage ∧
    firstMessage.chatId ≠ secondMessage.chatId ∧
    firstMessage.sessionId (withScope .main).gateway ≠
      groupSessionId (withScope .main).gateway firstMessage.chatId ∧
    SharesSession (withScope .main).gateway firstMessage secondMessage := by
  refine ⟨⟨by decide, by decide⟩, ⟨by decide, by decide⟩,
    by decide, by decide, ?_⟩
  exact sharesSession_iff.mpr (by decide)

end Oclaw.Gateway
