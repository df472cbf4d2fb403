import Oclaw.Gateway.ActiveRun
import Mathlib.Data.Set.Insert

/-!
# Where replies go

The loop of `process_message` hands every message it dequeues to
`process_single_message` with the channel and chat of its own invocation. A
message that another invocation queued is therefore answered on the drainer's
channel. This module states when that is harmless: exactly when no message can
change hands, or all invocations of the session have the same address.
-/

namespace Oclaw.Gateway

open Oclaw.Lib Oclaw.AutoReply

variable {ι : Type} {S : Session ι} {s t : Sys ι} {e : Event ι} {tr : List (Event ι)}
  {mode : QueueMode} {i : ι} {pc pc' : Pc ι} {q q' : MessageQueue (Inbound ι)}
  {l l' : Option ι}

/-! ## The messages an invocation holds -/

def Planned.allParts (todo : List (Planned ι)) : List (Inbound ι) :=
  todo.flatMap Planned.parts

/-- Dequeued messages whose turn has not ended. -/
def Pc.held : Pc ι → List (Inbound ι)
  | .waiting batch => batch
  | .top batch _ => batch
  | .turns todo _ => Planned.allParts todo
  | .calling turn rest _ => turn.parts ++ Planned.allParts rest
  | _ => []

theorem Planned.allParts_single (batch : List (Inbound ι)) :
    Planned.allParts (batch.map Planned.single) = batch := by
  induction batch with
  | nil => rfl
  | cons m batch ih =>
      simp only [Planned.allParts, List.map_cons, List.flatMap_cons] at ih ⊢
      rw [ih]
      rfl

/-- Planning neither loses nor reorders the messages of a batch. -/
theorem planTurns_allParts (mode : QueueMode) (batch : List (Inbound ι))
    (summaryPrompt : Option String) :
    Planned.allParts (planTurns mode batch summaryPrompt) = batch := by
  unfold planTurns
  simp only
  split
  · simp [Planned.allParts]
  · cases batch with
    | nil => rfl
    | cons first rest =>
        cases summaryPrompt with
        | none => exact Planned.allParts_single (first :: rest)
        | some summary =>
            have hrest := Planned.allParts_single rest
            simp only [Planned.allParts, List.flatMap_cons] at hrest ⊢
            rw [hrest]
            rfl

theorem afterEnqueue_held {m x : Inbound ι} {nowMs : ℕ}
    (h : x ∈ (afterEnqueue (q.enqueue m nowMs).1).held) : x = m := by
  cases hrun : q.hasActiveRun with
  | false =>
      rw [MessageQueue.enqueue_idle hrun] at h
      simpa [afterEnqueue, Pc.held] using h
  | true =>
      by_cases hmode : q.mode = .interrupt
      · rw [MessageQueue.enqueue_interrupt hrun hmode] at h
        simpa [afterEnqueue, Pc.held] using h
      · rw [MessageQueue.enqueue_queueing hrun hmode] at h
        simp [afterEnqueue, Pc.held] at h

theorem enqueue_pending_mem {m x : Inbound ι} {nowMs : ℕ}
    (h : x ∈ (q.enqueue m nowMs).2.pending) :
    x ∈ q.pending ∨ (x = m ∧ q.mode ≠ .interrupt) := by
  cases hrun : q.hasActiveRun with
  | false =>
      rw [MessageQueue.enqueue_idle hrun] at h
      exact Or.inl h
  | true =>
      by_cases hmode : q.mode = .interrupt
      · rw [MessageQueue.enqueue_interrupt hrun hmode] at h
        simp at h
      · rw [MessageQueue.enqueue_queueing hrun hmode] at h
        simp only [MessageQueue.pushPending_pending, List.mem_append] at h
        rcases h with h | h
        · exact Or.inl (List.mem_of_mem_drop h)
        · split at h
          · simp at h
          · exact Or.inr ⟨by simpa using h, hmode⟩

/-- A move takes messages only from what its invocation held, from `pending`,
or from its own enqueue. -/
theorem Move.held_effect (h : Move S i pc q l e pc' q' l') :
    ∀ m ∈ pc'.held, m ∈ pc.held ∨ m ∈ q.pending ∨ m = S.message i := by
  intro m hm
  cases h with
  | enqueue nowMs => exact Or.inr (Or.inr (afterEnqueue_held hm))
  | plan =>
      rw [Pc.held, planTurns_allParts] at hm
      exact Or.inl hm
  | call => exact Or.inl (by simpa [Pc.held, Planned.allParts] using hm)
  | answer env hres => exact Or.inl (List.mem_append_right _ hm)
  | takeBatch hb =>
      rw [Pc.held, (MessageQueue.takeCollectBatch_some hb).1] at hm
      exact Or.inr (Or.inl hm)
  | takeNext hn =>
      rw [Pc.held, List.mem_singleton] at hm
      rw [(MessageQueue.completeAndTakeNext_some hn).1, hm]
      exact Or.inr (Or.inl List.mem_cons_self)
  | lock => exact Or.inl hm
  | _ => simp [Pc.held] at hm

theorem Move.pending_effect (h : Move S i pc q l e pc' q' l') :
    ∀ m ∈ q'.pending, m ∈ q.pending ∨
      (m = S.message i ∧ q.mode ≠ .interrupt ∧ pc = .configured) := by
  intro m hm
  cases h with
  | enqueue nowMs =>
      rcases enqueue_pending_mem hm with h | ⟨h, hmode⟩
      · exact Or.inl h
      · exact Or.inr ⟨h, hmode, rfl⟩
  | plan =>
      rw [MessageQueue.takeSummaryPrompt_pending] at hm
      exact Or.inl hm
  | takeBatch hb =>
      rw [(MessageQueue.takeCollectBatch_some hb).2.1] at hm
      cases hm
  | noBatch hb =>
      rw [(MessageQueue.takeCollectBatch_none hb).2.1] at hm
      cases hm
  | takeNext hn =>
      rw [(MessageQueue.completeAndTakeNext_some hn).1]
      exact Or.inl (List.mem_cons_of_mem _ hm)
  | noNext hn =>
      rw [(MessageQueue.completeAndTakeNext_none hn).2.1] at hm
      cases hm
  | _ => exact Or.inl hm

/-! ## Addresses -/

/-- The turn of a message is called for, and answered on, the channel and chat
the message came from. -/
def Routed : Event ι → Prop
  | .call _ channelName chatId turn =>
      ∀ m ∈ turn.parts, channelName = m.msg.ctx.provider ∧ chatId = m.msg.ctx.to_
  | .finish _ turn report =>
      ∀ m ∈ turn.parts,
        (∀ c, report.bindingContext = some c → c.channel = m.msg.ctx.provider) ∧
        ∀ msg, report.sent = some msg → msg.channel = m.msg.ctx.provider
  | _ => True

/-- Invocation `i` has the address that the message carries. -/
def Addressed (S : Session ι) (i : ι) (m : Inbound ι) : Prop :=
  (S.inv i).channelName = m.msg.ctx.provider ∧ (S.inv i).chatId = m.msg.ctx.to_

theorem addressed_message (S : Session ι) (i : ι) : Addressed S i (S.message i) :=
  ⟨rfl, rfl⟩

/-- The end of a turn is routed when the turn's messages have its invocation's
address, whatever the environment answered. -/
theorem routed_finish {turn : Planned ι} (env : TurnEnv)
    (haddr : ∀ m ∈ turn.parts, Addressed S i m) :
    Routed (.finish i turn (processSingleMessage S.gateway.bindings env (S.inv i).channelName
      (S.inv i).chatId S.id turn.ctx)) := by
  intro m hm
  refine ⟨?_, ?_⟩
  · intro c hc
    exact (processSingleMessage_binding hc).trans (haddr m hm).1
  · intro msg hmsg
    exact (processSingleMessage_sent hmsg).trans (haddr m hm).1

/-- A move is routed when its invocation only holds messages with its own
address. -/
theorem Move.routed (h : Move S i pc q l e pc' q' l')
    (haddr : ∀ m ∈ pc.held, Addressed S i m) : Routed e := by
  cases h with
  | call =>
      intro m hm
      exact haddr m (by simp [Pc.held, Planned.allParts, hm])
  | answer env hres =>
      exact routed_finish env (fun m hm => haddr m (List.mem_append_left _ hm))
  | fail env hres =>
      exact routed_finish env (fun m hm => haddr m (List.mem_append_left _ hm))
  | _ => trivial

/-- All invocations of the session have one address. -/
def SameAddress (S : Session ι) : Prop :=
  ∀ i j, (S.inv i).channelName = (S.inv j).channelName ∧ (S.inv i).chatId = (S.inv j).chatId

/-- Every message in the session was built by one of its invocations. -/
def FromSession (S : Session ι) (s : Sys ι) : Prop :=
  (∀ m ∈ s.queue.pending, ∃ k, m = S.message k) ∧
    ∀ i, ∀ m ∈ (s.pc i).held, ∃ k, m = S.message k

/-- Under `Interrupt` settings nothing is ever queued, so every invocation
keeps its own message. -/
structure Unshared (S : Session ι) (s : Sys ι) : Prop where
  empty : s.queue.pending = []
  mode : ∀ i, s.pc i = .created ∨ s.pc i = .configured → s.queue.mode = .interrupt
  own : ∀ i, ∀ m ∈ (s.pc i).held, m = S.message i

theorem SameAddress.addressed (hsame : SameAddress S) (hs : FromSession S s) (i : ι) :
    ∀ m ∈ (s.pc i).held, Addressed S i m := by
  intro m hm
  obtain ⟨k, rfl⟩ := hs.2 i m hm
  exact hsame i k

theorem Unshared.addressed (hs : Unshared S s) (i : ι) :
    ∀ m ∈ (s.pc i).held, Addressed S i m := by
  intro m hm
  rw [hs.own i m hm]
  exact addressed_message S i

theorem Move.mode_effect (h : Move S i pc q l e pc' q' l') :
    q'.mode = q.mode ∨ q'.mode = (S.inv i).settings.mode := by
  rcases h.settings_effect with hset | ⟨-, -, rfl⟩ | ⟨-, -, rfl⟩
  · exact Or.inl (congrArg Prod.fst hset)
  · exact Or.inr rfl
  · exact Or.inr rfl

theorem Move.mode_of_setup (h : Move S i pc q l e pc' q' l')
    (hpc' : pc' = .created ∨ pc' = .configured) : q'.mode = (S.inv i).settings.mode := by
  cases h with
  | create _ => rfl
  | configure => rfl
  | enqueue nowMs =>
      generalize (q.enqueue (S.message i) nowMs).1 = action at hpc'
      cases action <;> simp [afterEnqueue] at hpc'
  | _ => simp at hpc'

variable [DecidableEq ι]

omit [DecidableEq ι] in
theorem fromSession_init : FromSession S (Sys.init mode) :=
  ⟨by simp [Sys.init, MessageQueue.new], by simp [Sys.init, Pc.held]⟩

theorem fromSession_step (hs : FromSession S s) (h : Step S s e t) : FromSession S t := by
  obtain ⟨i, pc', hmove, hpc⟩ := h.move
  refine ⟨?_, ?_⟩
  · intro m hm
    rcases hmove.pending_effect m hm with hold | ⟨rfl, -, -⟩
    · exact hs.1 m hold
    · exact ⟨i, rfl⟩
  · intro j m hm
    rw [hpc] at hm
    by_cases hji : j = i
    · subst hji
      rw [Function.update_self] at hm
      rcases hmove.held_effect m hm with hheld | hpend | rfl
      · exact hs.2 j m hheld
      · exact hs.1 m hpend
      · exact ⟨j, rfl⟩
    · rw [Function.update_of_ne hji] at hm
      exact hs.2 j m hm

omit [DecidableEq ι] in
theorem unshared_init : Unshared S (Sys.init mode) where
  empty := rfl
  mode := by simp [Sys.init]
  own := by simp [Sys.init, Pc.held]

theorem unshared_step (hint : ∀ i, (S.inv i).settings.mode = .interrupt)
    (hs : Unshared S s) (h : Step S s e t) : Unshared S t := by
  obtain ⟨i, pc', hmove, hpc⟩ := h.move
  refine ⟨?_, ?_, ?_⟩
  · rw [List.eq_nil_iff_forall_not_mem]
    intro m hm
    rcases hmove.pending_effect m hm with hold | ⟨-, hmode, hat⟩
    · simp [hs.empty] at hold
    · exact hmode (hs.mode i (Or.inr hat))
  · intro j hj
    rw [hpc] at hj
    by_cases hji : j = i
    · subst hji
      rw [Function.update_self] at hj
      exact (hmove.mode_of_setup hj).trans (hint j)
    · rw [Function.update_of_ne hji] at hj
      rcases hmove.mode_effect with hkeep | hset
      · exact hkeep.trans (hs.mode j hj)
      · exact hset.trans (hint i)
  · intro j m hm
    rw [hpc] at hm
    by_cases hji : j = i
    · subst hji
      rw [Function.update_self] at hm
      rcases hmove.held_effect m hm with hheld | hpend | hown
      · exact hs.own j m hheld
      · simp [hs.empty] at hpend
      · exact hown
    · rw [Function.update_of_ne hji] at hm
      exact hs.own j m hm

/-- Without a provider nobody gets past the first check. -/
def Barred (s : Sys ι) : Prop := ∀ i, s.pc i = .start ∨ ∃ r, s.pc i = .returned r

omit [DecidableEq ι] in
theorem Move.barred (hprov : S.gateway.hasProvider = false)
    (h : Move S i pc q l e pc' q' l') (hpc : pc = .start ∨ ∃ r, pc = .returned r) :
    ∃ r, pc' = .returned r := by
  cases h with
  | noProvider _ => exact ⟨_, rfl⟩
  | create htrue =>
      rw [hprov] at htrue
      cases htrue
  | _ => simp at hpc

theorem barred_step (hprov : S.gateway.hasProvider = false) (hs : Barred s)
    (h : Step S s e t) : Barred t := by
  obtain ⟨i, pc', hmove, hpc⟩ := h.move
  intro j
  rw [hpc]
  by_cases hji : j = i
  · subst hji
    rw [Function.update_self]
    exact Or.inr (hmove.barred hprov (hs j))
  · rw [Function.update_of_ne hji]
    exact hs j

omit [DecidableEq ι] in
theorem Barred.held (hs : Barred s) (i : ι) : (s.pc i).held = [] := by
  rcases hs i with h | ⟨r, h⟩
  · rw [h]
    rfl
  · rw [h]
    rfl

/-- Runs are routed as soon as an invariant keeps foreign addresses away from
every invocation. -/
theorem routed_of_invariant {I : Sys ι → Prop} (hinit : I (Sys.init mode))
    (hstep : ∀ {s e t}, I s → Step S s e t → I t)
    (haddr : ∀ {s}, I s → ∀ i, ∀ m ∈ (s.pc i).held, Addressed S i m)
    (run : Runs (Step S) (Sys.init mode) tr s) : ∀ e ∈ tr, Routed e := by
  have hall : I s ∧ ∀ e ∈ tr, Routed e := by
    refine run.invariant (P := fun tr s => I s ∧ ∀ e ∈ tr, Routed e) ⟨hinit, by simp⟩ ?_
    rintro tr t e u - ⟨ht, hrouted⟩ hst
    refine ⟨hstep ht hst, ?_⟩
    intro e' he'
    rcases List.mem_append.mp he' with hold | hnew
    · exact hrouted e' hold
    · rw [List.mem_singleton.mp hnew]
      obtain ⟨i, pc', hmove, -⟩ := hst.move
      exact hmove.routed (haddr ht i)
  exact hall.2

/-! ## Handing a message over

When a mode queues messages and two invocations have different addresses, one
of them can be made to drain the other's message: both configure, the first runs
its own message while the second queues, and the first takes it. -/

/-- A bounded or unbounded queue on which nothing has happened yet. -/
structure Untouched (q : MessageQueue (Inbound ι)) : Prop where
  empty : q.pending = []
  idle : q.hasActiveRun = false
  nothingDropped : q.droppedCount = 0
  roomy : 0 < q.cap

omit [DecidableEq ι] in
theorem untouched_new : Untouched (.new mode : MessageQueue (Inbound ι)) :=
  ⟨rfl, rfl, rfl, by simp [MessageQueue.new, usizeMax]⟩

omit [DecidableEq ι] in
theorem Untouched.configure (hq : Untouched q) (c : QueueRuntimeSettings) :
    Untouched (configureQueue q c) :=
  ⟨hq.empty, hq.idle, hq.nothingDropped, by
    show 0 < max c.cap 1
    omega⟩

/-- The invocations in `done` have configured the queue, the others have not
started. -/
structure Ready (done : Set ι) (s : Sys ι) : Prop where
  untouched : Untouched s.queue
  unlocked : s.runLock = none
  configured : ∀ i ∈ done, s.pc i = .configured
  waiting : ∀ i, i ∉ done → s.pc i = .start

omit [DecidableEq ι] in
theorem ready_init : Ready ∅ (Sys.init mode : Sys ι) :=
  ⟨untouched_new, rfl, by simp, fun _ _ => rfl⟩

/-- One more invocation configures the queue, and its mode is the queue's. -/
theorem ready_setup {done : Set ι} (hprov : S.gateway.hasProvider = true)
    (hs : Ready done s) (hi : i ∉ done) :
    ∃ tr t, Runs (Step S) s tr t ∧ Ready (insert i done) t ∧
      t.queue.mode = (S.inv i).settings.mode := by
  have hcreate : Solo S i (.start, s.queue, s.runLock) (.internal i)
      (.created, s.queue.setMode (S.inv i).settings.mode, s.runLock) := Move.create hprov
  have hconf : Solo S i (.created, s.queue.setMode (S.inv i).settings.mode, s.runLock)
      (.internal i) (.configured, configureQueue s.queue (S.inv i).settings, s.runLock) :=
    Move.configure
  refine ⟨_, _, runs_of_solo ((Runs.single hcreate).snoc hconf) (hs.waiting i hi) rfl rfl,
    ⟨hs.untouched.configure _, hs.unlocked, ?_, ?_⟩, rfl⟩
  · intro j hj
    by_cases hji : j = i
    · subst hji
      exact Function.update_self ..
    · rw [show (s.moved i _ _ _).pc j = s.pc j from Function.update_of_ne hji ..]
      exact hs.configured j (hj.resolve_left hji)
  · intro j hj
    rw [Set.mem_insert_iff, not_or] at hj
    rw [show (s.moved i _ _ _).pc j = s.pc j from Function.update_of_ne hj.1 ..]
    exact hs.waiting j hj.2

omit [DecidableEq ι] in
/-- With nothing dropped, a single message is planned as it is. -/
theorem solo_plan_single {m : Inbound ι} {first : Option String} (hq : q.droppedCount = 0) :
    Solo S i (.top [m] first, q, l) (.internal i) (.turns [Planned.single m] first, q, l) := by
  have hprompt : q.takeSummaryPrompt "message" = (none, q) := by
    simp [MessageQueue.takeSummaryPrompt, hq]
  have hplan : Solo S i (.top [m] first, q, l) (.internal i)
      (.turns (planTurns (S.inv i).settings.mode [m] (q.takeSummaryPrompt "message").1) first,
        (q.takeSummaryPrompt "message").2, l) := Move.plan
  rw [hprompt] at hplan
  simpa [planTurns] using hplan

omit [DecidableEq ι] in
/-- From the run lock to the end of the own turn. -/
theorem solo_own_turn {m : Inbound ι} (hq : q.droppedCount = 0) :
    ∃ tr first, Runs (Solo S i) (.waiting [m], q, none) tr (.settled first, q, some i) := by
  have hlock : Solo S i (.waiting [m], q, none) (.lock i) (.top [m] none, q, some i) :=
    Move.lock
  have hcall : Solo S i (.turns [Planned.single m] none, q, some i)
      (.call i (S.inv i).channelName (S.inv i).chatId (Planned.single m))
      (.calling (Planned.single m) [] none, q, some i) := Move.call
  have hans : Solo S i (.calling (Planned.single m) [] none, q, some i)
      (.finish i (Planned.single m) (processSingleMessage S.gateway.bindings
        (.answering "ok" (S.inv i).channelName) (S.inv i).channelName (S.inv i).chatId S.id
        (Planned.single m).ctx)) (.turns [] (some "ok"), q, some i) :=
    Move.answer _ (processSingleMessage_answering "ok")
  have hdone : Solo S i (.turns [] (some "ok"), q, some i) (.internal i)
      (.settled (some "ok"), q, some i) := Move.batchDone
  exact ⟨_, _, ((((Runs.single hlock).snoc (solo_plan_single hq)).snoc hcall).snoc hans).snoc
    hdone⟩

omit [DecidableEq ι] in
/-- With one message pending, the loop takes it, through the collect window or
directly. -/
theorem solo_take {m : Inbound ι} {first : Option String} (hpend : q.pending = [m]) :
    ∃ tr q', Runs (Solo S i) (.settled first, q, some i) tr (.top [m] first, q', some i) ∧
      q'.droppedCount = q.droppedCount := by
  have hpos : 0 < q.pendingCount := by simp [MessageQueue.pendingCount, hpend]
  by_cases hmode : q.mode = .collect
  -- either way the wait is over at a late enough clock
  · have hopen : Solo S i (.settled first, q, some i) (.openWindow i)
        (.window first, q.markRunComplete, some i) := Move.openWindow hmode hpos
    have hdue : Solo S i (.window first, q.markRunComplete, some i) (.internal i)
        (.windowTake first, q.markRunComplete, some i) := Move.windowDue
    have hbatch : q.markRunComplete.takeCollectBatch.1 = some [m] := by
      simp [MessageQueue.markRunComplete, MessageQueue.takeCollectBatch, hpend]
    have htake : Solo S i (.windowTake first, q.markRunComplete, some i)
        (.takeBatch i (some [m]))
        (.top [m] first, q.markRunComplete.takeCollectBatch.2, some i) :=
      Move.takeBatch hbatch
    refine ⟨_, _, ((Runs.single hopen).snoc hdue).snoc htake, ?_⟩
    simp [MessageQueue.markRunComplete, MessageQueue.takeCollectBatch, hpend]
  · have hwait : Solo S i (.settled first, q, some i) (.internal i)
        (.nextWait first, q, some i) := Move.wait hmode hpos
    have hdue : Solo S i (.nextWait first, q, some i) (.internal i)
        (.nextTake first, q, some i) := Move.nextDue
    have hnext : q.completeAndTakeNext.1 = some m := by
      simp [MessageQueue.completeAndTakeNext, hpend]
    have htake : Solo S i (.nextTake first, q, some i) (.takeNext i (some m))
        (.top [m] first, q.completeAndTakeNext.2, some i) := Move.takeNext hnext
    refine ⟨_, _, ((Runs.single hwait).snoc hdue).snoc htake, ?_⟩
    simp [MessageQueue.completeAndTakeNext, hpend]

/-- Two configured invocations on an untouched, queueing queue: the first ends
up calling the agent for the second's message with its own address. -/
theorem hand_over {j : ι} (hij : i ≠ j) (hi : s.pc i = .configured)
    (hj : s.pc j = .configured) (hq : Untouched s.queue) (hlock : s.runLock = none)
    (hmode : s.queue.mode ≠ .interrupt) :
    ∃ tr t, Runs (Step S) s tr t ∧
      .call i (S.inv i).channelName (S.inv i).chatId (Planned.single (S.message j)) ∈ tr := by
  -- `i` starts a run, `j` is queued behind it.
  have hnow := MessageQueue.enqueue_idle hq.idle (S.message i) 0
  let q₁ : MessageQueue (Inbound ι) := { s.queue with hasActiveRun := true }
  have hroom : ¬ (q₁.stamp 0).isFull = true := by
    have := hq.roomy
    simp [MessageQueue.isFull, MessageQueue.stamp, q₁, hq.empty]
    omega
  have hlater : q₁.enqueue (S.message j) 0 =
      (.queued, (q₁.stamp 0).pushBack (S.message j)) := by
    rw [MessageQueue.enqueue_queueing (q := q₁) rfl hmode]
    simp only [MessageQueue.pushPending, hroom]
    rfl
  let q₂ := (q₁.stamp 0).pushBack (S.message j)
  have hmove₁ := Move.enqueue (S := S) (i := i) (q := s.queue) (l := s.runLock) 0
  rw [hnow] at hmove₁
  have hmove₂ := Move.enqueue (S := S) (i := j) (q := q₁) (l := s.runLock) 0
  rw [hlater] at hmove₂
  have hstep₁ := hmove₁.step hi rfl rfl
  have hstep₂ := hmove₂.step
    (s := s.moved i (afterEnqueue (.runNow (S.message i))) q₁ s.runLock)
    (by simp [Sys.moved, Ne.symm hij, hj]) rfl rfl
  -- `i` finishes its own turn and takes what is pending.
  have hpend : q₂.pending = [S.message j] := by
    simp [q₂, q₁, MessageQueue.pushBack, MessageQueue.stamp, hq.empty]
  have hdrop : q₂.droppedCount = 0 := hq.nothingDropped
  obtain ⟨tr₁, first, hown⟩ := solo_own_turn (S := S) (i := i) (m := S.message i) hdrop
  obtain ⟨tr₂, q₃, htake, hdrop₃⟩ : ∃ tr q', Runs (Solo S i) (.settled first, q₂, some i) tr
      (.top [S.message j] first, q', some i) ∧ q'.droppedCount = q₂.droppedCount :=
    solo_take hpend
  have hcall : Solo S i (.turns [Planned.single (S.message j)] first, q₃, some i)
      (.call i (S.inv i).channelName (S.inv i).chatId (Planned.single (S.message j)))
      (.calling (Planned.single (S.message j)) [] first, q₃, some i) := Move.call
  have hsolo := ((hown.append htake).snoc (solo_plan_single (hdrop₃.trans hdrop))).snoc hcall
  have hrun := (Runs.single hstep₁).snoc hstep₂
  have hlast := hrun.append (runs_of_solo hsolo (by simp [Sys.moved, hij, afterEnqueue]) rfl
    (by simp [Sys.moved, hlock]))
  exact ⟨_, _, hlast, by simp⟩

/-- Two addresses in a session that can queue: some run misroutes. -/
theorem exists_misrouted {j k : ι} (hprov : S.gateway.hasProvider = true)
    (hdiff : ¬ Addressed S i (S.message j)) (hmode : (S.inv k).settings.mode ≠ .interrupt)
    (hki : k ≠ i) :
    ∃ tr s, Runs (Step S) (Sys.init mode) tr s ∧ ∃ e ∈ tr, ¬ Routed e := by
  have hij : i ≠ j := by
    rintro rfl
    exact hdiff (addressed_message S i)
  -- `i`, then `j`, then `k` (unless it is `j`) configure; `k`'s mode stays.
  have hsetup : ∃ tr s, Runs (Step S) (Sys.init mode) tr s ∧ s.pc i = .configured ∧
      s.pc j = .configured ∧ Untouched s.queue ∧ s.runLock = none ∧
      s.queue.mode ≠ .interrupt := by
    obtain ⟨tr₁, s₁, run₁, h₁, -⟩ := ready_setup hprov
      (ready_init : Ready ∅ (Sys.init mode : Sys ι)) (Set.notMem_empty i)
    obtain ⟨tr₂, s₂, run₂, h₂, hm₂⟩ := ready_setup (i := j) hprov h₁ (by simp [Ne.symm hij])
    by_cases hkj : k = j
    · subst hkj
      exact ⟨_, s₂, run₁.append run₂, h₂.configured i (by simp), h₂.configured k (by simp),
        h₂.untouched, h₂.unlocked, by rw [hm₂]; exact hmode⟩
    · obtain ⟨tr₃, s₃, run₃, h₃, hm₃⟩ := ready_setup (i := k) hprov h₂ (by simp [hkj, hki])
      exact ⟨_, s₃, (run₁.append run₂).append run₃, h₃.configured i (by simp),
        h₃.configured j (by simp), h₃.untouched, h₃.unlocked, by rw [hm₃]; exact hmode⟩
  obtain ⟨tr, s, run, hi, hj, hq, hl, hm⟩ := hsetup
  obtain ⟨tr', t, run', hcall⟩ := hand_over (S := S) hij hi hj hq hl hm
  refine ⟨_, t, run.append run', _, List.mem_append_right _ hcall, ?_⟩
  intro hrouted
  exact hdiff (hrouted (S.message j) (by simp [Planned.single]))

/-- **Reply routing.** Every run of the session keeps every reply on the channel
its message came from exactly when no message can change hands: there is no
provider, or every invocation runs under `Interrupt` settings, or all
invocations have the same channel and chat. -/
theorem replies_routed_iff (S : Session ι) (mode : QueueMode) :
    (∀ tr s, Runs (Step S) (Sys.init mode) tr s → ∀ e ∈ tr, Routed e) ↔
      S.gateway.hasProvider = false ∨ (∀ i, (S.inv i).settings.mode = .interrupt) ∨
        SameAddress S := by
  constructor
  · intro hall
    by_contra hcond
    simp only [not_or, not_forall, Bool.not_eq_false, SameAddress] at hcond
    obtain ⟨hprov, ⟨k, hk⟩, i, j, hdiff⟩ := hcond
    -- The queueing invocation may be one of the two; the other one then drains.
    have hmis : ∃ tr s, Runs (Step S) (Sys.init mode) tr s ∧ ∃ e ∈ tr, ¬ Routed e := by
      by_cases hki : k = i
      · subst hki
        apply exists_misrouted (i := j) (j := k) (k := k) hprov
        · exact fun h => hdiff ⟨h.1.symm, h.2.symm⟩
        · exact hk
        · rintro rfl
          exact hdiff ⟨rfl, rfl⟩
      · exact exists_misrouted hprov hdiff hk hki
    obtain ⟨tr, s, run, e, he, hbad⟩ := hmis
    exact hbad (hall tr s run e he)
  · rintro (hprov | hint | hsame) tr s run
    · exact routed_of_invariant (I := Barred) (fun _ => Or.inl rfl) (barred_step hprov)
        (fun hs i m hm => by rw [hs.held i] at hm; cases hm) run
    · exact routed_of_invariant unshared_init (unshared_step hint)
        (fun hs i => hs.addressed i) run
    · exact routed_of_invariant fromSession_init fromSession_step
        (fun hs i => hsame.addressed hs i) run

/-- Slack's message arrives while Telegram's is being answered. -/
def handOverSchedule : List (Bool × Env) :=
  List.replicate 3 (false, okEnv "telegram") ++ List.replicate 3 (true, okEnv "slack") ++
    List.replicate 10 (false, okEnv "telegram")

theorem handOverSchedule_plays :
    (play (telegramAndSlack .followup) .followup handOverSchedule).isSome = true := by
  decide

/-- In the default configuration a Slack message is answered on Telegram. -/
theorem slack_message_answered_on_telegram :
    ∃ tr s, Runs (Step (telegramAndSlack .followup)) (Sys.init .followup) tr s ∧
      .call false "telegram" "42" (Planned.single ((telegramAndSlack .followup).message true))
        ∈ tr ∧
      ((telegramAndSlack .followup).message true).msg.ctx.provider = "slack" ∧
      ¬ ∀ e ∈ tr, Routed e := by
  have hcall : .call false "telegram" "42"
      (Planned.single ((telegramAndSlack .followup).message true)) ∈
      ((play (telegramAndSlack .followup) .followup handOverSchedule).get
        handOverSchedule_plays).1 := by decide
  refine ⟨_, _, runs_of_play _ _ _ handOverSchedule_plays, hcall, rfl, ?_⟩
  intro hrouted
  have haddr := hrouted _ hcall _ List.mem_cons_self
  exact absurd haddr.1 (by decide)

end Oclaw.Gateway
