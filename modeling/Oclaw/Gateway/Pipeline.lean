import Oclaw.AutoReply.Queue
import Oclaw.Gateway.SessionKey
import Oclaw.Gateway.Turn
import Oclaw.Lib.Transition
import Mathlib.Logic.Function.Basic

/-!
# The inbound pipeline of one session

`process_message` of `crates/gateway-core/src/pipeline.rs` as a machine: any
number of concurrent invocations share one `MessageQueue` and one run lock. An
atomic step of an invocation is one critical section of the queue mutex, one
acquisition or release of the run lock, or the start or end of one
`process_single_message`; every interleaving of such steps is a run. The
environment chooses who moves, the clock and what each turn answers.

Sleeping and polling only delay the next step, so the collect window and the
debounce wait are steps that are refused until they are due.
-/

namespace Oclaw.Gateway

open Oclaw.Lib Oclaw.AutoReply

/-! ## §1  Invocations and their contexts -/

structure QueueRuntimeSettings : Type where
  mode : QueueMode
  collectWindowMs : ℕ
  debounceMs : ℕ
  cap : ℕ
  dropPolicy : QueueDropPolicy
deriving DecidableEq

structure GatewayConfig : Type where
  hasProvider : Bool
  dmScope : DmScope
  identityLinks : Option IdentityLinks
  bindings : Option (List AgentBinding)

/-- The arguments of one `process_message` call, with the queue settings that
`resolve_queue_runtime_settings` gives for its channel and the time it came in. -/
structure Invocation : Type where
  channelName : String
  chatId : String
  text : String
  metadata : Metadata
  settings : QueueRuntimeSettings
  receivedMs : ℕ
deriving DecidableEq

def metadataFlag (md : Metadata) (key : String) : Bool :=
  ((md.get key).map (· == "true")).getD false

def Invocation.sessionId (g : GatewayConfig) (v : Invocation) : String :=
  buildSessionId v.channelName v.chatId (metadataFlag v.metadata "is_group") g.dmScope
    g.identityLinks none

def buildFinalizedContext (channelName chatId text sessionId : String) (md : Metadata)
    (nowMs : ℕ) : FinalizedMsgContext :=
  finalizeInboundContext
    { body := text
      rawBody := some text
      from_ := (md.get "user_id").getD chatId
      fromName := md.get "user_name"
      to_ := chatId
      provider := channelName
      surface := some channelName
      chatType := if metadataFlag md "is_group" then .group else .direct
      sessionKey := sessionId
      messageId := md.get "message_id"
      threadId := md.get "thread_id"
      wasMentioned := metadataFlag md "was_mentioned"
      mediaPaths := []
      timestampMs := nowMs
      raw := md }

/-- Invocations that share one session: their ids agree under the gateway's
scope and identity links. -/
structure Session (ι : Type) : Type where
  gateway : GatewayConfig
  id : String
  inv : ι → Invocation
  sameSession : ∀ i, (inv i).sessionId gateway = id

/-- A finalized context together with the invocation that built it. Two equal
texts from different invocations stay different messages. -/
structure Inbound (ι : Type) : Type where
  origin : ι
  msg : FinalizedMsgContext
deriving DecidableEq

instance {ι : Type} : AgentBody (Inbound ι) := ⟨fun m => m.msg.bodyForAgent⟩

variable {ι : Type}

def Session.message (S : Session ι) (i : ι) : Inbound ι where
  origin := i
  msg := buildFinalizedContext (S.inv i).channelName (S.inv i).chatId (S.inv i).text S.id
    (S.inv i).metadata (S.inv i).receivedMs

/-! ## §2  Turns of a batch -/

def buildCollectPrompt (batch : List FinalizedMsgContext) (summaryPrompt : Option String) :
    String :=
  let head := ["[Queued messages while agent was busy]"]
  let summary := ((summaryPrompt.map trim).filter (fun v => v != "")).toList
  let items := batch.mapIdx (fun idx item =>
    trim ("---\nQueued #" ++ toString (idx + 1) ++ "\n" ++ trim item.bodyForAgent))
  "\n\n".intercalate (head ++ summary ++ items)

def buildCollectContext (batch : List FinalizedMsgContext) (summaryPrompt : Option String) :
    Option FinalizedMsgContext :=
  batch.getLast?.map (fun last =>
    let prompt := buildCollectPrompt batch summaryPrompt
    { last with
      bodyForAgent := prompt
      bodyForCommands := prompt
      commandAuthorized := false })

def prependSummaryPrompt (ctx : FinalizedMsgContext) (summaryPrompt : String) :
    FinalizedMsgContext :=
  let summary := trim summaryPrompt
  if summary = "" then ctx
  else
    let body := trim ctx.bodyForAgent
    if body = "" then { ctx with bodyForAgent := summary }
    else { ctx with bodyForAgent := summary ++ "\n\n" ++ body }

/-- One planned call of `process_single_message`: the context passed to it and
the queued messages that context stands for. -/
structure Planned (ι : Type) : Type where
  ctx : FinalizedMsgContext
  parts : List (Inbound ι)
deriving DecidableEq

def Planned.single (m : Inbound ι) : Planned ι := ⟨m.msg, [m]⟩

/-- The calls one pass of the loop makes for a batch: a single merged call in
collect mode when there is something to merge, else one call per message, the
first of them carrying the overflow summary. -/
def planTurns (mode : QueueMode) (batch : List (Inbound ι)) (summaryPrompt : Option String) :
    List (Planned ι) :=
  let merged :=
    if mode = .collect ∧ (1 < batch.length ∨ summaryPrompt.isSome) then
      buildCollectContext (batch.map Inbound.msg) summaryPrompt
    else none
  match merged with
  | some ctx => [⟨ctx, batch⟩]
  | none =>
      match batch, summaryPrompt with
      | first :: rest, some summary =>
          ⟨prependSummaryPrompt first.msg summary, [first]⟩ :: rest.map Planned.single
      | _, _ => batch.map Planned.single

/-! ## §3  The machine -/

/-- Where an invocation stands. From `top` to `leaving` it holds the run lock;
`first` is the reply of its first turn. -/
inductive Pc (ι : Type) : Type where
  | start
  | created
  | configured
  | waiting (batch : List (Inbound ι))
  | top (batch : List (Inbound ι)) (first : Option String)
  | turns (todo : List (Planned ι)) (first : Option String)
  | calling (turn : Planned ι) (rest : List (Planned ι)) (first : Option String)
  | settled (first : Option String)
  | window (first : Option String)
  | windowTake (first : Option String)
  | nextWait (first : Option String)
  | nextTake (first : Option String)
  | leaving (first : Option String)
  | returned (result : Except String String)

structure Sys (ι : Type) : Type where
  queue : MessageQueue (Inbound ι)
  runLock : Option ι
  pc : ι → Pc ι

/-- The session before its first message. `get_or_create_queue` sets the mode
of the queue it hands out, so the mode of the fresh queue does not matter. -/
def Sys.init (mode : QueueMode) : Sys ι where
  queue := .new mode
  runLock := none
  pc := fun _ => .start

inductive Event (ι : Type) : Type where
  | internal (i : ι)
  | enqueue (i : ι) (m : Inbound ι) (action : QueueAction (Inbound ι))
  | lock (i : ι)
  | call (i : ι) (channelName chatId : String) (turn : Planned ι)
  | finish (i : ι) (turn : Planned ι) (report : TurnReport)
  | openWindow (i : ι)
  | takeBatch (i : ι) (batch : Option (List (Inbound ι)))
  | takeNext (i : ι) (next : Option (Inbound ι))
  | ret (i : ι) (result : Except String String)
deriving DecidableEq

/-- What the environment chooses for one step. -/
structure Env : Type where
  nowMs : ℕ
  turn : TurnEnv

def configureQueue (q : MessageQueue (Inbound ι)) (c : QueueRuntimeSettings) :
    MessageQueue (Inbound ι) :=
  ((((q.setMode c.mode).setCollectWindowMs c.collectWindowMs).setDebounceMs
    c.debounceMs).setCap c.cap).setDropPolicy c.dropPolicy

/-- `wait_for_queue_debounce` returns at this time. -/
def debounceDue (q : MessageQueue (Inbound ι)) (nowMs : ℕ) : Bool :=
  q.debounceMs == 0 || q.pendingCount == 0 ||
    decide (satAdd q.lastEnqueuedAtMs q.debounceMs ≤ nowMs)

def afterEnqueue : QueueAction (Inbound ι) → Pc ι
  | .runNow ctx => .waiting [ctx]
  | .interrupted ctx => .waiting [ctx]
  | .collected batch => .waiting batch
  | .queued => .returned (.ok "queued")

variable [DecidableEq ι]

def Sys.goto (s : Sys ι) (i : ι) (pc : Pc ι) : Sys ι :=
  { s with pc := Function.update s.pc i pc }

/-- One atomic step of invocation `a.1`; `none` when it has to wait or has
returned. -/
def step (S : Session ι) (s : Sys ι) (a : ι × Env) : Option (Event ι × Sys ι) :=
  let i := a.1
  let v := S.inv i
  match s.pc i with
  | .start =>
      if S.gateway.hasProvider then
        some (.internal i, { s with queue := s.queue.setMode v.settings.mode }.goto i .created)
      else
        let result := .error "No LLM provider configured"
        some (.ret i result, s.goto i (.returned result))
  | .created =>
      some (.internal i,
        { s with queue := configureQueue s.queue v.settings }.goto i .configured)
  | .configured =>
      let m := S.message i
      let (action, q) := s.queue.enqueue m a.2.nowMs
      some (.enqueue i m action, { s with queue := q }.goto i (afterEnqueue action))
  | .waiting batch =>
      if s.runLock.isNone then
        some (.lock i, { s with runLock := some i }.goto i (.top batch none))
      else none
  | .top batch first =>
      let (summaryPrompt, q) := s.queue.takeSummaryPrompt "message"
      some (.internal i,
        { s with queue := q }.goto i
          (.turns (planTurns v.settings.mode batch summaryPrompt) first))
  | .turns [] first => some (.internal i, s.goto i (.settled first))
  | .turns (turn :: rest) first =>
      some (.call i v.channelName v.chatId turn, s.goto i (.calling turn rest first))
  | .calling turn rest first =>
      let report := processSingleMessage S.gateway.bindings a.2.turn v.channelName v.chatId
        S.id turn.ctx
      match report.result with
      | .ok reply =>
          some (.finish i turn report, s.goto i (.turns rest (first.or (some reply))))
      | .error e =>
          -- `?` leaves the function: the guard is dropped, the queue is not told.
          some (.finish i turn report,
            { s with runLock := none }.goto i (.returned (.error e)))
  | .settled first =>
      if s.queue.mode = .collect ∧ 0 < s.queue.pendingCount then
        some (.openWindow i, { s with queue := s.queue.markRunComplete }.goto i (.window first))
      else if 0 < s.queue.pendingCount then
        some (.internal i, s.goto i (.nextWait first))
      else some (.internal i, s.goto i (.nextTake first))
  | .window first =>
      if debounceDue s.queue a.2.nowMs then
        some (.internal i, s.goto i (.windowTake first))
      else none
  | .windowTake first =>
      let (batch, q) := s.queue.takeCollectBatch
      let pc := match batch with
        | some ms => .top ms first
        | none => .leaving first
      some (.takeBatch i batch, { s with queue := q }.goto i pc)
  | .nextWait first =>
      if debounceDue s.queue a.2.nowMs then
        some (.internal i, s.goto i (.nextTake first))
      else none
  | .nextTake first =>
      let (next, q) := s.queue.completeAndTakeNext
      let pc := match next with
        | some m => .top [m] first
        | none => .leaving first
      some (.takeNext i next, { s with queue := q }.goto i pc)
  | .leaving first =>
      let result := .ok (first.getD "queued")
      some (.ret i result, { s with runLock := none }.goto i (.returned result))
  | .returned _ => none

/-- The step relation of a session. -/
def Step (S : Session ι) : Sys ι → Event ι → Sys ι → Prop := Induced (step S)

/-- Play a schedule from a fresh session. -/
def play (S : Session ι) (mode : QueueMode) (schedule : List (ι × Env)) :
    Option (List (Event ι) × Sys ι) :=
  exec (step S) (Sys.init mode) schedule

theorem runs_of_play (S : Session ι) (mode : QueueMode) (schedule : List (ι × Env))
    (h : (play S mode schedule).isSome = true) :
    Runs (Step S) (Sys.init mode) ((play S mode schedule).get h).1
      ((play S mode schedule).get h).2 :=
  runs_of_exec_isSome schedule h

/-! ## §4  What one step does

`Move` lists, once, everything an invocation can do to its own position, the
queue and the run lock. Every invariant is proved by cases on it. -/

inductive Move (S : Session ι) (i : ι) :
    Pc ι → MessageQueue (Inbound ι) → Option ι → Event ι →
      Pc ι → MessageQueue (Inbound ι) → Option ι → Prop where
  | noProvider {q l} : S.gateway.hasProvider = false →
      Move S i .start q l (.ret i (.error "No LLM provider configured"))
        (.returned (.error "No LLM provider configured")) q l
  | create {q l} : S.gateway.hasProvider = true →
      Move S i .start q l (.internal i) .created (q.setMode (S.inv i).settings.mode) l
  | configure {q l} : Move S i .created q l (.internal i) .configured
      (configureQueue q (S.inv i).settings) l
  | enqueue {q l} (nowMs : ℕ) :
      Move S i .configured q l
        (.enqueue i (S.message i) (q.enqueue (S.message i) nowMs).1)
        (afterEnqueue (q.enqueue (S.message i) nowMs).1)
        (q.enqueue (S.message i) nowMs).2 l
  | lock {q batch} : Move S i (.waiting batch) q none (.lock i) (.top batch none) q (some i)
  | plan {q l batch first} : Move S i (.top batch first) q l (.internal i)
      (.turns (planTurns (S.inv i).settings.mode batch (q.takeSummaryPrompt "message").1) first)
      (q.takeSummaryPrompt "message").2 l
  | batchDone {q l first} : Move S i (.turns [] first) q l (.internal i) (.settled first) q l
  | call {q l turn rest first} : Move S i (.turns (turn :: rest) first) q l
      (.call i (S.inv i).channelName (S.inv i).chatId turn) (.calling turn rest first) q l
  | answer {q l turn rest first reply} (env : TurnEnv) :
      (processSingleMessage S.gateway.bindings env (S.inv i).channelName (S.inv i).chatId
        S.id turn.ctx).result = .ok reply →
      Move S i (.calling turn rest first) q l
        (.finish i turn (processSingleMessage S.gateway.bindings env (S.inv i).channelName
          (S.inv i).chatId S.id turn.ctx))
        (.turns rest (first.or (some reply))) q l
  | fail {q l turn rest first e} (env : TurnEnv) :
      (processSingleMessage S.gateway.bindings env (S.inv i).channelName (S.inv i).chatId
        S.id turn.ctx).result = .error e →
      Move S i (.calling turn rest first) q l
        (.finish i turn (processSingleMessage S.gateway.bindings env (S.inv i).channelName
          (S.inv i).chatId S.id turn.ctx))
        (.returned (.error e)) q none
  | openWindow {q l first} : q.mode = .collect → 0 < q.pendingCount →
      Move S i (.settled first) q l (.openWindow i) (.window first) q.markRunComplete l
  | wait {q l first} : q.mode ≠ .collect → 0 < q.pendingCount →
      Move S i (.settled first) q l (.internal i) (.nextWait first) q l
  | skipWait {q l first} : q.pendingCount = 0 →
      Move S i (.settled first) q l (.internal i) (.nextTake first) q l
  | windowDue {q l first} : Move S i (.window first) q l (.internal i) (.windowTake first) q l
  | takeBatch {q l first ms} : q.takeCollectBatch.1 = some ms →
      Move S i (.windowTake first) q l (.takeBatch i (some ms)) (.top ms first)
        q.takeCollectBatch.2 l
  | noBatch {q l first} : q.takeCollectBatch.1 = none →
      Move S i (.windowTake first) q l (.takeBatch i none) (.leaving first)
        q.takeCollectBatch.2 l
  | nextDue {q l first} : Move S i (.nextWait first) q l (.internal i) (.nextTake first) q l
  | takeNext {q l first m} : q.completeAndTakeNext.1 = some m →
      Move S i (.nextTake first) q l (.takeNext i (some m)) (.top [m] first)
        q.completeAndTakeNext.2 l
  | noNext {q l first} : q.completeAndTakeNext.1 = none →
      Move S i (.nextTake first) q l (.takeNext i none) (.leaving first)
        q.completeAndTakeNext.2 l
  | leave {q l first} : Move S i (.leaving first) q l (.ret i (.ok (first.getD "queued")))
      (.returned (.ok (first.getD "queued"))) q none

/-- A step is a move of one invocation; nobody else's position changes. -/
theorem Step.move {S : Session ι} {s t : Sys ι} {e : Event ι} (h : Step S s e t) :
    ∃ i pc', Move S i (s.pc i) s.queue s.runLock e pc' t.queue t.runLock ∧
      t.pc = Function.update s.pc i pc' := by
  obtain ⟨⟨i, env⟩, h⟩ := h
  refine ⟨i, ?_⟩
  unfold step at h
  cases hpc : s.pc i with
  | start =>
      simp only [hpc] at h
      split at h
      · rename_i hprov
        cases h
        exact ⟨_, .create hprov, rfl⟩
      · rename_i hprov
        cases h
        exact ⟨_, .noProvider (by simpa using hprov), rfl⟩
  | created =>
      simp only [hpc] at h
      cases h
      exact ⟨_, .configure, rfl⟩
  | configured =>
      simp only [hpc] at h
      cases h
      exact ⟨_, .enqueue env.nowMs, rfl⟩
  | waiting batch =>
      simp only [hpc] at h
      split at h
      · rename_i hlock
        cases h
        rw [Option.isNone_iff_eq_none] at hlock
        rw [hlock]
        exact ⟨_, .lock, rfl⟩
      · cases h
  | top batch first =>
      simp only [hpc] at h
      cases h
      exact ⟨_, .plan, rfl⟩
  | turns todo first =>
      cases todo with
      | nil =>
          simp only [hpc] at h
          cases h
          exact ⟨_, .batchDone, rfl⟩
      | cons turn rest =>
          simp only [hpc] at h
          cases h
          exact ⟨_, .call, rfl⟩
  | calling turn rest first =>
      simp only [hpc] at h
      split at h
      · rename_i reply hres
        cases h
        exact ⟨_, .answer env.turn hres, rfl⟩
      · rename_i err hres
        cases h
        exact ⟨_, .fail env.turn hres, rfl⟩
  | settled first =>
      simp only [hpc] at h
      split at h
      · rename_i hcollect
        cases h
        exact ⟨_, .openWindow hcollect.1 hcollect.2, rfl⟩
      · rename_i hcollect
        split at h
        · rename_i hpos
          cases h
          exact ⟨_, .wait (fun hmode => hcollect ⟨hmode, hpos⟩) hpos, rfl⟩
        · rename_i hzero
          cases h
          exact ⟨_, .skipWait (Nat.eq_zero_of_not_pos hzero), rfl⟩
  | window first =>
      simp only [hpc] at h
      split at h
      · cases h
        exact ⟨_, .windowDue, rfl⟩
      · cases h
  | windowTake first =>
      simp only [hpc] at h
      cases h
      cases hb : s.queue.takeCollectBatch.1 with
      | some ms => exact ⟨_, .takeBatch hb, rfl⟩
      | none => exact ⟨_, .noBatch hb, rfl⟩
  | nextWait first =>
      simp only [hpc] at h
      split at h
      · cases h
        exact ⟨_, .nextDue, rfl⟩
      · cases h
  | nextTake first =>
      simp only [hpc] at h
      cases h
      cases hb : s.queue.completeAndTakeNext.1 with
      | some m => exact ⟨_, .takeNext hb, rfl⟩
      | none => exact ⟨_, .noNext hb, rfl⟩
  | leaving first =>
      simp only [hpc] at h
      cases h
      exact ⟨_, .leave, rfl⟩
  | returned result =>
      simp only [hpc] at h
      cases h

omit [DecidableEq ι] in
/-- Only the two configuration steps change the settings of the queue. -/
theorem Move.settings_effect {S : Session ι} {i : ι} {pc pc' : Pc ι} {e : Event ι}
    {q q' : MessageQueue (Inbound ι)} {l l' : Option ι} (h : Move S i pc q l e pc' q' l') :
    q'.settings = q.settings ∨
      (pc = .start ∧ pc' = .created ∧ q' = q.setMode (S.inv i).settings.mode) ∨
      (pc = .created ∧ pc' = .configured ∧ q' = configureQueue q (S.inv i).settings) := by
  cases h with
  | create _ => exact Or.inr (Or.inl ⟨rfl, rfl, rfl⟩)
  | configure => exact Or.inr (Or.inr ⟨rfl, rfl, rfl⟩)
  | enqueue nowMs => exact Or.inl (MessageQueue.enqueue_settings q (S.message i) nowMs)
  | plan => exact Or.inl (MessageQueue.takeSummaryPrompt_settings q "message")
  | takeBatch _ => exact Or.inl (MessageQueue.takeCollectBatch_settings q)
  | noBatch _ => exact Or.inl (MessageQueue.takeCollectBatch_settings q)
  | takeNext _ => exact Or.inl (MessageQueue.completeAndTakeNext_settings q)
  | noNext _ => exact Or.inl (MessageQueue.completeAndTakeNext_settings q)
  | _ => exact Or.inl rfl

/-- Put invocation `i` at `pc` with the given queue and run lock. -/
def Sys.moved (s : Sys ι) (i : ι) (pc : Pc ι) (q : MessageQueue (Inbound ι))
    (l : Option ι) : Sys ι :=
  ⟨q, l, Function.update s.pc i pc⟩

omit [DecidableEq ι] in
theorem debounceDue_late (q : MessageQueue (Inbound ι)) :
    debounceDue q (satAdd q.lastEnqueuedAtMs q.debounceMs) = true := by
  simp [debounceDue]

/-- Every move is a step, at a suitable clock. -/
theorem Move.step {S : Session ι} {s : Sys ι} {i : ι} {pc pc' : Pc ι} {e : Event ι}
    {q q' : MessageQueue (Inbound ι)} {l l' : Option ι} (h : Move S i pc q l e pc' q' l')
    (hpc : s.pc i = pc) (hq : s.queue = q) (hl : s.runLock = l) :
    Step S s e (s.moved i pc' q' l') := by
  let late := satAdd q.lastEnqueuedAtMs q.debounceMs
  have hlate : debounceDue q late = true := debounceDue_late q
  let quiet : Env := ⟨late, .answering "" ""⟩
  cases h with
  | noProvider hprov =>
      exact ⟨(i, quiet), by simp [Gateway.step, hpc, hq, hl, hprov, Sys.goto, Sys.moved]⟩
  | create hprov =>
      exact ⟨(i, quiet), by simp [Gateway.step, hpc, hq, hl, hprov, Sys.goto, Sys.moved]⟩
  | enqueue nowMs =>
      exact ⟨(i, ⟨nowMs, quiet.turn⟩), by simp [Gateway.step, hpc, hq, hl, Sys.goto, Sys.moved]⟩
  | answer env hres =>
      exact ⟨(i, ⟨late, env⟩), by simp [Gateway.step, hpc, hq, hl, hres, Sys.goto, Sys.moved]⟩
  | fail env hres =>
      exact ⟨(i, ⟨late, env⟩), by simp [Gateway.step, hpc, hq, hres, Sys.goto, Sys.moved]⟩
  | openWindow hmode hpos =>
      exact ⟨(i, quiet), by simp [Gateway.step, hpc, hq, hl, hmode, hpos, Sys.goto, Sys.moved]⟩
  | wait hmode hpos =>
      exact ⟨(i, quiet), by simp [Gateway.step, hpc, hq, hl, hmode, hpos, Sys.goto, Sys.moved]⟩
  | skipWait hzero =>
      exact ⟨(i, quiet), by simp [Gateway.step, hpc, hq, hl, hzero, Sys.goto, Sys.moved]⟩
  | windowDue =>
      exact ⟨(i, quiet), by simp [Gateway.step, hpc, hq, hl, quiet, hlate, Sys.goto, Sys.moved]⟩
  | nextDue =>
      exact ⟨(i, quiet), by simp [Gateway.step, hpc, hq, hl, quiet, hlate, Sys.goto, Sys.moved]⟩
  | takeBatch hb =>
      exact ⟨(i, quiet), by simp [Gateway.step, hpc, hq, hl, hb, Sys.goto, Sys.moved]⟩
  | noBatch hb =>
      exact ⟨(i, quiet), by simp [Gateway.step, hpc, hq, hl, hb, Sys.goto, Sys.moved]⟩
  | takeNext hn =>
      exact ⟨(i, quiet), by simp [Gateway.step, hpc, hq, hl, hn, Sys.goto, Sys.moved]⟩
  | noNext hn =>
      exact ⟨(i, quiet), by simp [Gateway.step, hpc, hq, hl, hn, Sys.goto, Sys.moved]⟩
  | _ => exact ⟨(i, quiet), by simp [Gateway.step, hpc, hq, hl, Sys.goto, Sys.moved]⟩

/-- The part of the state one invocation sees. -/
abbrev View (ι : Type) : Type := Pc ι × MessageQueue (Inbound ι) × Option ι

/-- Steps of one invocation while nobody else moves. -/
def Solo (S : Session ι) (i : ι) (x : View ι) (e : Event ι) (y : View ι) : Prop :=
  Move S i x.1 x.2.1 x.2.2 e y.1 y.2.1 y.2.2

theorem runs_of_solo {S : Session ι} {i : ι} {x y : View ι} {tr : List (Event ι)} {s : Sys ι}
    (run : Runs (Solo S i) x tr y) (hpc : s.pc i = x.1) (hq : s.queue = x.2.1)
    (hl : s.runLock = x.2.2) :
    Runs (Step S) s tr (s.moved i y.1 y.2.1 y.2.2) := by
  induction run with
  | nil =>
      have hs : s.moved i x.1 x.2.1 x.2.2 = s := by
        rw [← hpc, ← hq, ← hl]
        simp [Sys.moved]
      rw [hs]
      exact .nil
  | @snoc tr y z e _ hmove ih =>
      have hstep := hmove.step (s := s.moved i y.1 y.2.1 y.2.2) (by simp [Sys.moved]) rfl rfl
      have heq : (s.moved i y.1 y.2.1 y.2.2).moved i z.1 z.2.1 z.2.2 =
          s.moved i z.1 z.2.1 z.2.2 := by
        simp [Sys.moved]
      rw [heq] at hstep
      exact ih.snoc hstep

/-! ## §5  The run lock -/

def Pc.holdsLock : Pc ι → Bool
  | .top .. | .turns .. | .calling .. | .settled .. | .window .. | .windowTake ..
  | .nextWait .. | .nextTake .. | .leaving .. => true
  | _ => false

/-- The run lock names exactly the invocations that are past its acquisition. -/
def LockInv (s : Sys ι) : Prop := ∀ i, (s.pc i).holdsLock = true ↔ s.runLock = some i

omit [DecidableEq ι] in
theorem Move.lock_effect {S : Session ι} {i : ι} {pc pc' : Pc ι}
    {q q' : MessageQueue (Inbound ι)} {l l' : Option ι} {e : Event ι}
    (h : Move S i pc q l e pc' q' l') :
    (l' = l ∧ pc'.holdsLock = pc.holdsLock) ∨
      (l = none ∧ l' = some i ∧ pc'.holdsLock = true) ∨
      (l' = none ∧ pc.holdsLock = true ∧ pc'.holdsLock = false) := by
  cases h with
  | enqueue nowMs =>
      left
      refine ⟨rfl, ?_⟩
      generalize (q.enqueue (S.message i) nowMs).1 = action
      cases action <;> rfl
  | lock => exact Or.inr (Or.inl ⟨rfl, rfl, rfl⟩)
  | fail env hres => exact Or.inr (Or.inr ⟨rfl, rfl, rfl⟩)
  | leave => exact Or.inr (Or.inr ⟨rfl, rfl, rfl⟩)
  | _ => exact Or.inl ⟨rfl, rfl⟩

omit [DecidableEq ι] in
theorem lockInv_init (mode : QueueMode) : LockInv (Sys.init mode : Sys ι) := by
  intro i
  simp [Sys.init, Pc.holdsLock]

theorem lockInv_step {S : Session ι} {s t : Sys ι} {e : Event ι}
    (hs : LockInv s) (h : Step S s e t) : LockInv t := by
  obtain ⟨i, pc', hmove, hpc⟩ := h.move
  intro j
  rcases hmove.lock_effect with ⟨hl, hholds⟩ | ⟨hfree, hl, hholds⟩ | ⟨hl, hheld, hholds⟩
  · rw [hl, hpc]
    by_cases hji : j = i
    · subst hji
      rw [Function.update_self, hholds]
      exact hs j
    · rw [Function.update_of_ne hji]
      exact hs j
  · rw [hl, hpc]
    by_cases hji : j = i
    · subst hji
      simp [hholds]
    · rw [Function.update_of_ne hji, hs j, hfree]
      simp [Ne.symm hji]
  · rw [hl, hpc]
    by_cases hji : j = i
    · subst hji
      simp [hholds]
    · rw [Function.update_of_ne hji, hs j, (hs i).mp hheld]
      simp [Ne.symm hji]

theorem lockInv_of_runs {S : Session ι} {mode : QueueMode} {tr : List (Event ι)} {s : Sys ι}
    (run : Runs (Step S) (Sys.init mode) tr s) : LockInv s :=
  run.state_invariant (lockInv_init mode) lockInv_step

omit [DecidableEq ι] in
/-- At most one invocation of the session is past the acquisition. -/
theorem LockInv.unique {s : Sys ι} (hs : LockInv s) {i j : ι}
    (hi : (s.pc i).holdsLock = true) (hj : (s.pc j).holdsLock = true) : i = j :=
  Option.some.inj (((hs i).mp hi).symm.trans ((hs j).mp hj))

end Oclaw.Gateway
