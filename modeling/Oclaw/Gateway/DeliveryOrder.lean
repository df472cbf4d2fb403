import Oclaw.Gateway.ReplyRouting
import Mathlib.Algebra.BigOperators.Group.Finset.Basic
import Mathlib.Algebra.Order.BigOperators.Group.Finset

/-!
# Delivery order

What an unbounded queue and failure-free turns give: as long as no message
arrives inside an open collect window there is at most one draining invocation,
and the messages handed to the agent, what the drainer still holds and what is
pending make up the enqueue log in order.
-/

namespace Oclaw.Gateway

open Oclaw.Lib Oclaw.AutoReply

variable {ι : Type} {S : Session ι} {s t : Sys ι} {e : Event ι} {tr tr' : List (Event ι)}
  {mode : QueueMode} {i : ι} {pc pc' : Pc ι} {q q' : MessageQueue (Inbound ι)}
  {l l' : Option ι}

/-! ## §1  Logs -/

def Event.enqueued : Event ι → List (Inbound ι)
  | .enqueue _ m _ => [m]
  | _ => []

def Event.called : Event ι → List (Inbound ι)
  | .call _ _ _ turn => turn.parts
  | _ => []

/-- Messages in the order of their enqueue calls. -/
def enqueueLog (tr : List (Event ι)) : List (Inbound ι) := tr.flatMap Event.enqueued

/-- Messages in the order in which they were handed to the agent. -/
def callLog (tr : List (Event ι)) : List (Inbound ι) := tr.flatMap Event.called

theorem enqueueLog_snoc (tr : List (Event ι)) (e : Event ι) :
    enqueueLog (tr ++ [e]) = enqueueLog tr ++ e.enqueued := by
  simp [enqueueLog]

theorem callLog_snoc (tr : List (Event ι)) (e : Event ι) :
    callLog (tr ++ [e]) = callLog tr ++ e.called := by
  simp [callLog]

/-- Dequeued messages that have not been handed to the agent yet. -/
def Pc.backlog : Pc ι → List (Inbound ι)
  | .waiting batch => batch
  | .top batch _ => batch
  | .turns todo _ => Planned.allParts todo
  | .calling _ rest _ => Planned.allParts rest
  | _ => []

/-- Inside the collect window: the flag has been lowered, the batch not taken. -/
def Pc.inWindow : Pc ι → Bool
  | .window .. | .windowTake .. => true
  | _ => false

/-- While an invocation drains, the flag is up unless it sits in its window. -/
def FlagUp (q : MessageQueue (Inbound ι)) (pc : Pc ι) : Prop :=
  q.hasActiveRun = true ∨ pc.inWindow = true

/-! ## §2  What a move does to the logs -/

/-- A move of a draining invocation hands on what it has: its backlog and the
pending messages are what it calls now, its new backlog and the new pending. It
goes on draining, or leaves with everything delivered and the flag down. -/
theorem Move.drain_effect (h : Move S i pc q l e pc' q' l') (hd : pc.draining = true)
    (hflag : FlagUp q pc) (hok : e.isFailure = false) :
    e.enqueued = [] ∧
      pc.backlog ++ q.pending = e.called ++ pc'.backlog ++ q'.pending ∧
      ((pc'.draining = true ∧ FlagUp q' pc') ∨
        (pc'.draining = false ∧ pc'.backlog = [] ∧ q'.pending = [] ∧
          q'.hasActiveRun = false)) := by
  cases h with
  | lock => exact ⟨rfl, rfl, Or.inl ⟨rfl, hflag⟩⟩
  | plan =>
      refine ⟨rfl, ?_, Or.inl ⟨rfl, ?_⟩⟩
      · simp only [Pc.backlog, planTurns_allParts,
          MessageQueue.takeSummaryPrompt_pending]
        rfl
      · unfold FlagUp at hflag ⊢
        rw [MessageQueue.takeSummaryPrompt_hasActiveRun]
        exact hflag
  | batchDone => exact ⟨rfl, rfl, Or.inl ⟨rfl, hflag⟩⟩
  | call =>
      refine ⟨rfl, ?_, Or.inl ⟨rfl, hflag⟩⟩
      simp [Pc.backlog, Planned.allParts, Event.called]
  | answer env hres => exact ⟨rfl, rfl, Or.inl ⟨rfl, hflag⟩⟩
  | fail env hres =>
      simp [Event.isFailure, TurnReport.isOk, hres, Except.isOk, Except.toBool] at hok
  | openWindow hmode hpos => exact ⟨rfl, rfl, Or.inl ⟨rfl, Or.inr rfl⟩⟩
  | wait hmode hpos => exact ⟨rfl, rfl, Or.inl ⟨rfl, hflag⟩⟩
  | skipWait hzero => exact ⟨rfl, rfl, Or.inl ⟨rfl, hflag⟩⟩
  | windowDue => exact ⟨rfl, rfl, Or.inl ⟨rfl, Or.inr rfl⟩⟩
  | nextDue => exact ⟨rfl, rfl, Or.inl ⟨rfl, hflag⟩⟩
  | takeBatch hb =>
      obtain ⟨hms, hempty, hup⟩ := MessageQueue.takeCollectBatch_some hb
      refine ⟨rfl, ?_, Or.inl ⟨rfl, Or.inl hup⟩⟩
      simp [Pc.backlog, Event.called, hms, hempty]
  | noBatch hb =>
      obtain ⟨hpend, hempty, hdown⟩ := MessageQueue.takeCollectBatch_none hb
      refine ⟨rfl, ?_, Or.inr ⟨rfl, rfl, hempty, hdown⟩⟩
      simp [Pc.backlog, Event.called, hpend, hempty]
  | takeNext hn =>
      obtain ⟨hpend, hup⟩ := MessageQueue.completeAndTakeNext_some hn
      refine ⟨rfl, ?_, Or.inl ⟨rfl, Or.inl hup⟩⟩
      rw [hpend]
      rfl
  | noNext hn =>
      obtain ⟨hpend, hempty, hdown⟩ := MessageQueue.completeAndTakeNext_none hn
      refine ⟨rfl, ?_, Or.inr ⟨rfl, rfl, hempty, hdown⟩⟩
      simp [Pc.backlog, Event.called, hpend, hempty]
  | _ => cases hd

/-- A move of an invocation that does not drain is its enqueue, or touches
neither the logs nor the flag. -/
theorem Move.bystander_effect (h : Move S i pc q l e pc' q' l') (hd : pc.draining = false) :
    e.called = [] ∧
      ((e.enqueued = [] ∧ pc'.draining = false ∧ q'.pending = q.pending ∧
          q'.hasActiveRun = q.hasActiveRun) ∨
        ∃ nowMs, pc = .configured ∧ e.enqueued = [S.message i] ∧
          e = .enqueue i (S.message i) (q.enqueue (S.message i) nowMs).1 ∧
          pc' = afterEnqueue (q.enqueue (S.message i) nowMs).1 ∧
          q' = (q.enqueue (S.message i) nowMs).2) := by
  cases h with
  | noProvider _ => exact ⟨rfl, Or.inl ⟨rfl, rfl, rfl, rfl⟩⟩
  | create _ => exact ⟨rfl, Or.inl ⟨rfl, rfl, rfl, rfl⟩⟩
  | configure => exact ⟨rfl, Or.inl ⟨rfl, rfl, rfl, rfl⟩⟩
  | leave => exact ⟨rfl, Or.inl ⟨rfl, rfl, rfl, rfl⟩⟩
  | enqueue nowMs => exact ⟨rfl, Or.inr ⟨nowMs, rfl, rfl, rfl, rfl, rfl⟩⟩
  | _ => cases hd

/-! ## §3  One drainer at a time -/

/-- The queue stays in one queueing mode and is unbounded. -/
def Uncapped (mode : QueueMode) (q : MessageQueue (Inbound ι)) : Prop :=
  q.mode = mode ∧ q.cap = usizeMax

/-- Every invocation of the session asks for that mode and for no cap. -/
def UncappedSession (mode : QueueMode) (S : Session ι) : Prop :=
  ∀ i, (S.inv i).settings.mode = mode ∧ (S.inv i).settings.cap = usizeMax

theorem Uncapped.not_full (hq : Uncapped mode q) : q.isFull = false := by
  simp [MessageQueue.isFull, hq.2]

theorem Move.uncapped (hS : UncappedSession mode S) (h : Move S i pc q l e pc' q' l')
    (hq : Uncapped mode q) : Uncapped mode q' := by
  rcases h.settings_effect with hset | ⟨-, -, rfl⟩ | ⟨-, -, rfl⟩
  · exact ⟨(congrArg Prod.fst hset).trans hq.1, (congrArg (fun x => x.2.1) hset).trans hq.2⟩
  · exact ⟨(hS i).1, hq.2⟩
  · refine ⟨(hS i).1, ?_⟩
    show max (S.inv i).settings.cap 1 = usizeMax
    rw [(hS i).2]
    rfl

/-- An active queue in a queueing mode without a cap stores what it is given. -/
theorem Uncapped.enqueue_active (hq : Uncapped mode q) (hmode : mode ≠ .interrupt)
    (hrun : q.hasActiveRun = true) (m : Inbound ι) (nowMs : ℕ) :
    (q.enqueue m nowMs).1 = .queued ∧ (q.enqueue m nowMs).2.pending = q.pending ++ [m] ∧
      (q.enqueue m nowMs).2.hasActiveRun = true := by
  have hq' : q.mode ≠ .interrupt := by
    rw [hq.1]
    exact hmode
  have hfull : (q.stamp nowMs).isFull = false := hq.not_full
  rw [MessageQueue.enqueue_queueing hrun hq']
  simp only [MessageQueue.pushPending, hfull]
  exact ⟨trivial, rfl, hrun⟩

/-- At any time either one invocation drains, and the enqueue log is what has
been called, what it holds and what is pending; or nobody does, and everything
enqueued has been called. -/
inductive Serial (tr : List (Event ι)) (s : Sys ι) : Prop where
  | drainer (d : ι) (drains : (s.pc d).draining = true)
      (only : ∀ j, (s.pc j).draining = true → j = d)
      (flag : FlagUp s.queue (s.pc d))
      (log : enqueueLog tr = callLog tr ++ (s.pc d).backlog ++ s.queue.pending)
  | nobody (none : ∀ j, (s.pc j).draining = false)
      (flag : s.queue.hasActiveRun = false)
      (empty : s.queue.pending = [])
      (log : enqueueLog tr = callLog tr)

theorem Serial.calls_in_order (h : Serial tr s) : callLog tr <+: enqueueLog tr := by
  cases h with
  | drainer d _ _ _ log => exact ⟨_, by rw [log, List.append_assoc]⟩
  | nobody _ _ _ log => exact ⟨[], by rw [log, List.append_nil]⟩

/-- No message arrives while a collect window is open. -/
def Undisturbed (s : Sys ι) (e : Event ι) : Prop :=
  e.enqueued ≠ [] → ∀ j, (s.pc j).inWindow = false

variable [DecidableEq ι]

omit [DecidableEq ι] in
theorem serial_init : Serial [] (Sys.init mode : Sys ι) :=
  .nobody (fun _ => rfl) rfl rfl rfl

theorem serial_step (hmode : mode ≠ .interrupt) (hq : Uncapped mode s.queue)
    (hs : Serial tr s) (h : Step S s e t) (hok : e.isFailure = false)
    (hcalm : Undisturbed s e) : Serial (tr ++ [e]) t := by
  obtain ⟨i, pc', hmove, hpc⟩ := h.move
  have hself : t.pc i = pc' := by rw [hpc, Function.update_self]
  have hother : ∀ j, j ≠ i → t.pc j = s.pc j := by
    intro j hji
    rw [hpc, Function.update_of_ne hji]
  cases hs with
  | drainer d drains only flag log =>
      by_cases hid : i = d
      · -- The drainer moves.
        subst hid
        obtain ⟨henq, hlog, hnext⟩ := hmove.drain_effect drains flag hok
        have hlog' : enqueueLog (tr ++ [e]) =
            callLog (tr ++ [e]) ++ pc'.backlog ++ t.queue.pending := by
          rw [enqueueLog_snoc, callLog_snoc, henq, log, List.append_nil, List.append_assoc, hlog]
          simp [List.append_assoc]
        have honly : ∀ j, (t.pc j).draining = true → j = i := by
          intro j hj
          by_contra hji
          rw [hother j hji] at hj
          exact hji (only j hj)
        rcases hnext with ⟨hd, hup⟩ | ⟨hd, hback, hpend, hdown⟩
        -- it goes on, or it has emptied the queue and lowered the flag
        · exact .drainer i (by rw [hself]; exact hd) honly (by rw [hself]; exact hup)
            (by rw [hself]; exact hlog')
        · refine .nobody ?_ hdown hpend ?_
          · intro j
            by_cases hji : j = i
            · rw [hji, hself]
              exact hd
            · rw [Bool.eq_false_iff]
              exact fun hj => hji (honly j hj)
          · rw [hlog', hback, hpend]
            simp
      · -- Somebody else moves: at most its message joins the pending ones.
        have hnd : (s.pc i).draining = false := by
          rw [Bool.eq_false_iff]
          exact fun hi => hid (only i hi)
        have hdi : t.pc d = s.pc d := hother d (Ne.symm hid)
        obtain ⟨hcall, heff⟩ := hmove.bystander_effect hnd
        have honly : pc'.draining = false → ∀ j, (t.pc j).draining = true → j = d := by
          intro hd' j hj
          by_cases hji : j = i
          · rw [hji, hself, hd'] at hj
            cases hj
          · rw [hother j hji] at hj
            exact only j hj
        rcases heff with ⟨henq, hd', hpend, hrun⟩ | ⟨nowMs, -, henq, -, hpc', hq'⟩
        · refine .drainer d (by rw [hdi]; exact drains) (honly hd') ?_ ?_
          · rw [hdi]
            unfold FlagUp at flag ⊢
            rw [hrun]
            exact flag
          · rw [hdi, enqueueLog_snoc, callLog_snoc, henq, hcall, hpend, List.append_nil,
              List.append_nil]
            exact log
        · -- no window is open, so the flag is up and the message is stored
          have hrun : s.queue.hasActiveRun = true := by
            rcases flag with hup | hwin
            · exact hup
            · have hclosed := hcalm (by rw [henq]; simp) d
              rw [hwin] at hclosed
              cases hclosed
          obtain ⟨haction, hpend, hrun'⟩ := hq.enqueue_active hmode hrun (S.message i) nowMs
          rw [haction] at hpc'
          refine .drainer d (by rw [hdi]; exact drains) (honly (by rw [hpc']; rfl)) ?_ ?_
          · exact Or.inl (by rw [hq']; exact hrun')
          · rw [hdi, enqueueLog_snoc, callLog_snoc, henq, hcall, hq', hpend, log]
            simp [List.append_assoc]
  | nobody none flag empty log =>
      obtain ⟨hcall, heff⟩ := hmove.bystander_effect (none i)
      rcases heff with ⟨henq, hd', hpend, hrun⟩ | ⟨nowMs, -, henq, -, hpc', hq'⟩
      · refine .nobody ?_ (hrun.trans flag) (hpend.trans empty) ?_
        · intro j
          by_cases hji : j = i
          · rw [hji, hself]
            exact hd'
          · rw [hother j hji]
            exact none j
        · rw [enqueueLog_snoc, callLog_snoc, henq, hcall, log]
      · -- An idle session: the message starts a run of its own.
        have hidle := MessageQueue.enqueue_idle flag (S.message i) nowMs
        rw [hidle] at hpc' hq'
        refine .drainer i (by rw [hself, hpc']; rfl) ?_ (Or.inl (by rw [hq'])) ?_
        · intro j hj
          by_contra hji
          rw [hother j hji, none j] at hj
          cases hj
        · rw [enqueueLog_snoc, callLog_snoc, henq, hcall, hself, hpc', hq', log, empty]
          simp [afterEnqueue, Pc.backlog]

/-! ## §4  Every invocation returns

Each step brings its invocation nearer to its return, or takes a message out of
the queue. So a session of `n` invocations makes at most `13 * n` steps, and it
stops only when all of them have returned. -/

/-- Steps an invocation can still make without taking from the queue; a taken
message is paid for by `pending`, at ten steps each. -/
def Pc.weight : Pc ι → ℕ
  | .start => 13
  | .created => 12
  | .configured => 11
  | .waiting batch => 7 + 2 * batch.length
  | .top batch _ => 6 + 2 * batch.length
  | .turns todo _ => 5 + 2 * todo.length
  | .calling _ rest _ => 6 + 2 * rest.length
  | .settled _ => 4
  | .window _ => 3
  | .nextWait _ => 3
  | .windowTake _ => 2
  | .nextTake _ => 2
  | .leaving _ => 1
  | .returned _ => 0

omit [DecidableEq ι] in
theorem planTurns_length (mode : QueueMode) (batch : List (Inbound ι))
    (summaryPrompt : Option String) :
    (planTurns mode batch summaryPrompt).length ≤ batch.length := by
  unfold planTurns
  simp only
  split
  · rename_i ctx hmerged
    split at hmerged
    · cases batch with
      | nil => simp [buildCollectContext] at hmerged
      | cons m rest => simp
    · cases hmerged
  · cases batch with
    | nil => simp
    | cons first rest =>
        cases summaryPrompt with
        | none => simp
        | some summary => simp

omit [DecidableEq ι] in
theorem enqueue_weight (q : MessageQueue (Inbound ι)) (m : Inbound ι) (nowMs : ℕ) :
    (afterEnqueue (q.enqueue m nowMs).1).weight + 10 * (q.enqueue m nowMs).2.pending.length <
      11 + 10 * q.pending.length := by
  cases hrun : q.hasActiveRun with
  | false =>
      rw [MessageQueue.enqueue_idle hrun]
      simp only [afterEnqueue, Pc.weight, List.length_cons, List.length_nil]
      omega
  | true =>
      by_cases hmode : q.mode = .interrupt
      · rw [MessageQueue.enqueue_interrupt hrun hmode]
        simp only [afterEnqueue, Pc.weight, List.length_cons, List.length_nil]
        omega
      · -- the caller returns at once and pays for the message it leaves behind
        rw [MessageQueue.enqueue_queueing hrun hmode]
        simp only [afterEnqueue, Pc.weight, MessageQueue.pushPending_pending,
          List.length_append, List.length_drop]
        split
        · simp only [List.length_nil]
          omega
        · simp only [List.length_cons, List.length_nil]
          omega

omit [DecidableEq ι] in
theorem Move.weight_decreases (h : Move S i pc q l e pc' q' l') :
    pc'.weight + 10 * q'.pending.length < pc.weight + 10 * q.pending.length := by
  cases h with
  | enqueue nowMs => exact enqueue_weight q (S.message i) nowMs
  | @plan _ _ batch _ =>
      have hlen := planTurns_length (S.inv i).settings.mode batch
        (q.takeSummaryPrompt "message").1
      rw [MessageQueue.takeSummaryPrompt_pending]
      simp only [Pc.weight]
      omega
  | takeBatch hb =>
      obtain ⟨hms, hempty, -⟩ := MessageQueue.takeCollectBatch_some hb
      have hne : q.pending ≠ [] := by
        intro hnil
        simp [MessageQueue.takeCollectBatch, hnil] at hb
      have hpos := List.length_pos_iff.mpr hne
      simp only [Pc.weight, hms, hempty, List.length_nil]
      omega
  | noBatch hb =>
      obtain ⟨hpend, hempty, -⟩ := MessageQueue.takeCollectBatch_none hb
      simp [Pc.weight, hpend, hempty]
  | takeNext hn =>
      rw [(MessageQueue.completeAndTakeNext_some hn).1]
      simp only [Pc.weight, List.length_cons, List.length_nil]
      omega
  | noNext hn =>
      obtain ⟨hpend, hempty, -⟩ := MessageQueue.completeAndTakeNext_none hn
      simp [Pc.weight, hpend, hempty]
  | _ =>
      simp only [Pc.weight, List.length_cons, List.length_nil, MessageQueue.setMode,
        configureQueue, MessageQueue.setCap, MessageQueue.setDropPolicy,
        MessageQueue.setDebounceMs, MessageQueue.setCollectWindowMs,
        MessageQueue.markRunComplete]
      omega

/-- What is left to do in the whole session. -/
def Sys.weight [Fintype ι] (s : Sys ι) : ℕ :=
  10 * s.queue.pending.length + ∑ i, (s.pc i).weight

theorem step_weight [Fintype ι] (h : Step S s e t) : t.weight < s.weight := by
  obtain ⟨i, pc', hmove, hpc⟩ := h.move
  have hdec := hmove.weight_decreases
  have hsum : ∑ j, (t.pc j).weight = pc'.weight + ∑ j ∈ Finset.univ.erase i, (s.pc j).weight := by
    rw [← Finset.add_sum_erase _ _ (Finset.mem_univ i), hpc, Function.update_self]
    congr 1
    apply Finset.sum_congr rfl
    intro j hj
    rw [Function.update_of_ne (Finset.ne_of_mem_erase hj)]
  have hsum' : ∑ j, (s.pc j).weight =
      (s.pc i).weight + ∑ j ∈ Finset.univ.erase i, (s.pc j).weight :=
    (Finset.add_sum_erase _ _ (Finset.mem_univ i)).symm
  unfold Sys.weight
  omega

theorem runs_length_le [Fintype ι] (run : Runs (Step S) (Sys.init mode) tr s) :
    tr.length ≤ 13 * Fintype.card ι := by
  have hbound : tr.length + s.weight ≤ (Sys.init mode : Sys ι).weight := by
    refine run.invariant
      (P := fun tr s => tr.length + s.weight ≤ (Sys.init mode : Sys ι).weight) (by simp) ?_
    intro tr t e u _ hle hst
    have hlt := step_weight hst
    rw [List.length_append, List.length_singleton]
    omega
  have hinit : (Sys.init mode : Sys ι).weight = 13 * Fintype.card ι := by
    simp [Sys.weight, Sys.init, MessageQueue.new, Pc.weight, mul_comm]
  omega

def Pc.isReturned : Pc ι → Bool
  | .returned _ => true
  | _ => false

omit [DecidableEq ι] in
/-- A holder of the run lock can always move. -/
theorem exists_move_of_holdsLock (h : pc.holdsLock = true) (q : MessageQueue (Inbound ι))
    (l : Option ι) : ∃ e pc' q' l', Move S i pc q l e pc' q' l' := by
  cases pc with
  | top batch first => exact ⟨_, _, _, _, .plan⟩
  | turns todo first =>
      cases todo with
      | nil => exact ⟨_, _, _, _, .batchDone⟩
      | cons turn rest => exact ⟨_, _, _, _, .call⟩
  | calling turn rest first =>
      exact ⟨_, _, _, _, .answer _ (processSingleMessage_answering "ok")⟩
  | settled first =>
      rcases Nat.eq_zero_or_pos q.pendingCount with hzero | hpos
      · exact ⟨_, _, _, _, .skipWait hzero⟩
      · by_cases hmode : q.mode = .collect
        · exact ⟨_, _, _, _, .openWindow hmode hpos⟩
        · exact ⟨_, _, _, _, .wait hmode hpos⟩
  | window first => exact ⟨_, _, _, _, .windowDue⟩
  | windowTake first =>
      cases hb : q.takeCollectBatch.1 with
      | none => exact ⟨_, _, _, _, .noBatch hb⟩
      | some ms => exact ⟨_, _, _, _, .takeBatch hb⟩
  | nextWait first => exact ⟨_, _, _, _, .nextDue⟩
  | nextTake first =>
      cases hn : q.completeAndTakeNext.1 with
      | none => exact ⟨_, _, _, _, .noNext hn⟩
      | some m => exact ⟨_, _, _, _, .takeNext hn⟩
  | leaving first => exact ⟨_, _, _, _, .leave⟩
  | _ => cases h

/-- Nobody can move. -/
def Quiescent (S : Session ι) (s : Sys ι) : Prop := ∀ e t, ¬ Step S s e t

theorem Quiescent.all_returned (hlock : LockInv s) (hq : Quiescent S s) (i : ι) :
    (s.pc i).isReturned = true := by
  have hstuck : ∀ {j pc' e q' l'}, ¬ Move S j (s.pc j) s.queue s.runLock e pc' q' l' :=
    fun hmove => hq _ _ (hmove.step rfl rfl rfl)
  have hfree : ∀ j, (s.pc j).holdsLock = false := by
    intro j
    rw [Bool.eq_false_iff]
    intro hj
    obtain ⟨e, pc', q', l', hmove⟩ := exists_move_of_holdsLock hj s.queue s.runLock
    exact hstuck hmove
  -- so the lock is free, and nobody waits for it either
  have hnone : s.runLock = none := by
    cases hl : s.runLock with
    | none => rfl
    | some j =>
        have hj := (hlock j).mpr hl
        rw [hfree j] at hj
        cases hj
  cases hpc : s.pc i with
  | returned result => rfl
  | start =>
      exfalso
      cases hprov : S.gateway.hasProvider with
      | true => exact hstuck (by rw [hpc]; exact .create hprov)
      | false => exact hstuck (by rw [hpc]; exact .noProvider hprov)
  | created => exact absurd (by rw [hpc]; exact .configure) (@hstuck i _ _ _ _)
  | configured => exact absurd (by rw [hpc]; exact .enqueue 0) (@hstuck i _ _ _ _)
  | waiting batch => exact absurd (by rw [hpc, hnone]; exact .lock) (@hstuck i _ _ _ _)
  | _ =>
      have hi := hfree i
      rw [hpc] at hi
      cases hi

/-! ## §5  Followup: exactly once, one at a time, in order -/

/-- Still before its enqueue. -/
def Pc.inSetup : Pc ι → Bool
  | .start | .created | .configured => true
  | _ => false

omit [DecidableEq ι] in
theorem Move.setup_effect (h : Move S i pc q l e pc' q' l') :
    (pc'.inSetup = true → pc.inSetup = true) ∧
      (e.enqueued = [] ∨
        (e.enqueued = [S.message i] ∧ pc.inSetup = true ∧ pc'.inSetup = false)) := by
  cases h with
  | enqueue nowMs =>
      refine ⟨fun _ => rfl, Or.inr ⟨rfl, rfl, ?_⟩⟩
      generalize (q.enqueue (S.message i) nowMs).1 = action
      cases action <;> rfl
  | noProvider _ => exact ⟨fun h => (by cases h), Or.inl rfl⟩
  | create _ => exact ⟨fun _ => rfl, Or.inl rfl⟩
  | configure => exact ⟨fun _ => rfl, Or.inl rfl⟩
  | _ => exact ⟨fun h => (by cases h), Or.inl rfl⟩

/-- An invocation that has enqueued does not go back to its setup. -/
theorem inSetup_stays (h : Step S s e t) {j : ι} (hj : (s.pc j).inSetup = false) :
    (t.pc j).inSetup = false := by
  obtain ⟨k, pc', hmove, hpc⟩ := h.move
  rw [hpc]
  by_cases hjk : j = k
  · subst hjk
    rw [Function.update_self, Bool.eq_false_iff]
    intro hsetup
    rw [hmove.setup_effect.1 hsetup] at hj
    cases hj
  · rw [Function.update_of_ne hjk]
    exact hj

/-- Every invocation enqueues at most once, so the log repeats nothing. -/
structure Distinct (S : Session ι) (tr : List (Event ι)) (s : Sys ι) : Prop where
  nodup : (enqueueLog tr).Nodup
  past : ∀ m ∈ enqueueLog tr, ∃ j, m = S.message j ∧ (s.pc j).inSetup = false

omit [DecidableEq ι] in
theorem message_injective : Function.Injective S.message := by
  intro i j h
  exact congrArg Inbound.origin h

theorem distinct_step (hs : Distinct S tr s) (h : Step S s e t) : Distinct S (tr ++ [e]) t := by
  obtain ⟨i, pc', hmove, hpc⟩ := h.move
  obtain ⟨-, henq⟩ := hmove.setup_effect
  rcases henq with hnone | ⟨hsome, hsetup, hgone⟩
  · refine ⟨?_, ?_⟩
    · rw [enqueueLog_snoc, hnone, List.append_nil]
      exact hs.nodup
    · intro m hm
      rw [enqueueLog_snoc, hnone, List.append_nil] at hm
      obtain ⟨j, hj, hpast⟩ := hs.past m hm
      exact ⟨j, hj, inSetup_stays h hpast⟩
  · refine ⟨?_, ?_⟩
    · rw [enqueueLog_snoc, hsome, List.nodup_append]
      refine ⟨hs.nodup, List.nodup_singleton _, ?_⟩
      -- a message of the log has left its setup, the new one has not
      intro m hm m' hm' heq
      obtain ⟨j, hj, hpast⟩ := hs.past m hm
      rw [List.mem_singleton] at hm'
      have hji : j = i := message_injective (hj.symm.trans (heq.trans hm'))
      rw [hji, hsetup] at hpast
      cases hpast
    · intro m hm
      rw [enqueueLog_snoc, hsome, List.mem_append, List.mem_singleton] at hm
      rcases hm with hm | rfl
      · obtain ⟨j, hj, hpast⟩ := hs.past m hm
        exact ⟨j, hj, inSetup_stays h hpast⟩
      · exact ⟨i, rfl, by rw [hpc, Function.update_self]; exact hgone⟩

theorem distinct_of_runs (run : Runs (Step S) (Sys.init mode) tr s) : Distinct S tr s :=
  run.invariant ⟨List.nodup_nil, by simp [enqueueLog]⟩ (fun _ => distinct_step)

/-- The turns an invocation is about to make or is making. -/
def Pc.planned : Pc ι → List (Planned ι)
  | .turns todo _ => todo
  | .calling turn rest _ => turn :: rest
  | _ => []

/-- Nothing was dropped and every planned turn is one message as it came. -/
def Plain (q : MessageQueue (Inbound ι)) (pc : Pc ι) : Prop :=
  q.droppedCount = 0 ∧ ∀ turn ∈ pc.planned, ∃ m, turn = Planned.single m

omit [DecidableEq ι] in
theorem Uncapped.enqueue_droppedCount (hq : Uncapped mode q) (m : Inbound ι) (nowMs : ℕ) :
    (q.enqueue m nowMs).2.droppedCount = q.droppedCount := by
  have hfull : (q.stamp nowMs).isFull = false := hq.not_full
  cases hrun : q.hasActiveRun with
  | false => rw [MessageQueue.enqueue_idle hrun]
  | true =>
      by_cases hmode : q.mode = .interrupt
      · rw [MessageQueue.enqueue_interrupt hrun hmode]
      · rw [MessageQueue.enqueue_queueing hrun hmode]
        simp only [MessageQueue.pushPending, hfull]
        rfl

omit [DecidableEq ι] in
theorem planTurns_plain (hmode : mode ≠ .collect) (batch : List (Inbound ι)) :
    planTurns mode batch none = batch.map Planned.single := by
  simp [planTurns, hmode]

omit [DecidableEq ι] in
theorem Move.dropped_effect (hq : Uncapped mode q) (h : Move S i pc q l e pc' q' l')
    (hzero : q.droppedCount = 0) : q'.droppedCount = 0 := by
  cases h with
  | enqueue nowMs => rw [hq.enqueue_droppedCount, hzero]
  | plan => simp [MessageQueue.takeSummaryPrompt, hzero]
  | takeBatch hb =>
      unfold MessageQueue.takeCollectBatch
      split <;> exact hzero
  | noBatch hb =>
      unfold MessageQueue.takeCollectBatch
      split <;> exact hzero
  | takeNext hn =>
      unfold MessageQueue.completeAndTakeNext
      split <;> exact hzero
  | noNext hn =>
      unfold MessageQueue.completeAndTakeNext
      split <;> exact hzero
  | _ => exact hzero

omit [DecidableEq ι] in
theorem Move.planned_effect (hmode : (S.inv i).settings.mode ≠ .collect)
    (h : Move S i pc q l e pc' q' l') (hplain : Plain q pc) :
    ∀ turn ∈ pc'.planned, ∃ m, turn = Planned.single m := by
  intro turn hturn
  cases h with
  | enqueue nowMs =>
      generalize (q.enqueue (S.message i) nowMs).1 = action at hturn
      cases action <;> simp [afterEnqueue, Pc.planned] at hturn
  | plan =>
      have hprompt : (q.takeSummaryPrompt "message").1 = none := by
        simp [MessageQueue.takeSummaryPrompt, hplain.1]
      rw [hprompt, planTurns_plain hmode] at hturn
      obtain ⟨m, -, rfl⟩ := List.mem_map.mp hturn
      exact ⟨m, rfl⟩
  | call => exact hplain.2 turn hturn
  | answer env hres => exact hplain.2 turn (List.mem_cons_of_mem _ hturn)
  | _ => simp [Pc.planned] at hturn

omit [DecidableEq ι] in
theorem Move.call_planned {channelName chatId : String} {turn : Planned ι} {j : ι}
    (h : Move S i pc q l (.call j channelName chatId turn) pc' q' l') :
    turn ∈ pc.planned := by
  cases h with
  | call => exact List.mem_cons_self

omit [DecidableEq ι] in
/-- Windows open in collect mode only. -/
theorem Move.window_effect (h : Move S i pc q l e pc' q' l') (hmode : q.mode ≠ .collect)
    (hpc : pc.inWindow = false) : pc'.inWindow = false := by
  cases h with
  | enqueue nowMs =>
      generalize (q.enqueue (S.message i) nowMs).1 = action
      cases action <;> rfl
  | openWindow hcollect _ => exact absurd hcollect hmode
  | windowDue => cases hpc
  | _ => rfl

/-- What a session of followup invocations keeps at all times. -/
structure FollowupInv (tr : List (Event ι)) (s : Sys ι) : Prop where
  uncapped : Uncapped .followup s.queue
  serial : Serial tr s
  noWindow : ∀ j, (s.pc j).inWindow = false
  plain : ∀ j, Plain s.queue (s.pc j)
  singles : ∀ i channelName chatId turn, .call i channelName chatId turn ∈ tr →
    ∃ m, turn = Planned.single m

omit [DecidableEq ι] in
theorem followupInv_init : FollowupInv [] (Sys.init .followup : Sys ι) where
  uncapped := ⟨rfl, rfl⟩
  serial := serial_init
  noWindow := fun _ => rfl
  plain := fun _ => ⟨rfl, by simp [Sys.init, Pc.planned]⟩
  singles := by simp

theorem followupInv_step (hS : UncappedSession .followup S) (hs : FollowupInv tr s)
    (h : Step S s e t) (hok : e.isFailure = false) : FollowupInv (tr ++ [e]) t := by
  obtain ⟨i, pc', hmove, hpc⟩ := h.move
  have hmode : (S.inv i).settings.mode ≠ .collect := by
    rw [(hS i).1]
    decide
  refine ⟨hmove.uncapped hS hs.uncapped, ?_, ?_, ?_, ?_⟩
  · exact serial_step (by decide) hs.uncapped hs.serial h hok (fun _ => hs.noWindow)
  · intro j
    rw [hpc]
    by_cases hji : j = i
    · subst hji
      rw [Function.update_self]
      apply hmove.window_effect
      · rw [hs.uncapped.1]
        decide
      · exact hs.noWindow j
    · rw [Function.update_of_ne hji]
      exact hs.noWindow j
  · intro j
    refine ⟨hmove.dropped_effect hs.uncapped (hs.plain i).1, ?_⟩
    rw [hpc]
    by_cases hji : j = i
    · subst hji
      rw [Function.update_self]
      exact hmove.planned_effect hmode (hs.plain j)
    · rw [Function.update_of_ne hji]
      exact (hs.plain j).2
  · intro k channelName chatId turn hcall
    rcases List.mem_append.mp hcall with hold | hnew
    · exact hs.singles k channelName chatId turn hold
    · rw [← List.mem_singleton.mp hnew] at hmove
      exact (hs.plain i).2 turn hmove.call_planned

theorem followupInv_of_runs (hS : UncappedSession .followup S)
    (run : Runs (Step S) (Sys.init .followup) tr s)
    (hok : ∀ e ∈ tr, e.isFailure = false) : FollowupInv tr s := by
  revert hok
  refine run.invariant (P := fun tr s => (∀ e ∈ tr, e.isFailure = false) → FollowupInv tr s)
    (fun _ => followupInv_init) ?_
  intro tr t e u _ ih hst hok
  exact followupInv_step hS (ih fun e he => hok e (List.mem_append_left _ he)) hst
    (hok e (by simp))

def Pc.isCalling : Pc ι → Bool
  | .calling .. => true
  | _ => false

omit [DecidableEq ι] in
theorem Pc.isCalling_holdsLock (h : pc.isCalling = true) : pc.holdsLock = true := by
  cases pc <;> first | rfl | cases h

omit [DecidableEq ι] in
theorem Serial.delivered (h : Serial tr s) (hret : ∀ i, (s.pc i).isReturned = true) :
    callLog tr = enqueueLog tr := by
  cases h with
  | nobody _ _ _ log => exact log.symm
  | drainer d drains _ _ _ =>
      have hd := hret d
      cases hpc : s.pc d <;> rw [hpc] at hd drains <;> cases hd
      cases drains

/-- **Exactly-once FIFO delivery.** In followup mode, without a cap and without
failing turns: every turn is one message, no two turns overlap, no message is
enqueued or handed over twice, messages are handed over in enqueue order, every
run of finitely many invocations ends, and where nobody can move any more every
invocation has returned and every message has been handed over. -/
theorem followup_exactly_once_in_order (S : Session ι) (hS : UncappedSession .followup S)
    (tr : List (Event ι)) (s : Sys ι) (run : Runs (Step S) (Sys.init .followup) tr s)
    (hok : ∀ e ∈ tr, e.isFailure = false) :
    (∀ i channelName chatId turn, .call i channelName chatId turn ∈ tr →
      ∃ m, turn = Planned.single m) ∧
    (∀ i j, (s.pc i).isCalling = true → (s.pc j).isCalling = true → i = j) ∧
    (enqueueLog tr).Nodup ∧ callLog tr <+: enqueueLog tr ∧
    (∀ _ : Fintype ι, tr.length ≤ 13 * Fintype.card ι) ∧
    (Quiescent S s → (∀ i, (s.pc i).isReturned = true) ∧ callLog tr = enqueueLog tr) := by
  have hinv := followupInv_of_runs hS run hok
  have hlock := lockInv_of_runs run
  refine ⟨hinv.singles, ?_, (distinct_of_runs run).nodup, hinv.serial.calls_in_order,
    fun _ => runs_length_le run, ?_⟩
  · intro i j hi hj
    exact hlock.unique (Pc.isCalling_holdsLock hi) (Pc.isCalling_holdsLock hj)
  · intro hquiet
    have hret := hquiet.all_returned hlock
    exact ⟨hret, hinv.serial.delivered hret⟩

/-- Telegram's message, with Slack's taken over by the same run. -/
def twoMessageSchedule : List (Bool × Env) :=
  List.replicate 3 (false, okEnv "telegram") ++ List.replicate 3 (true, okEnv "slack") ++
    List.replicate 15 (false, okEnv "telegram")

theorem twoMessageSchedule_plays :
    (play (telegramAndSlack .followup) .followup twoMessageSchedule).isSome = true := by
  decide

theorem two_messages_delivered_in_order :
    ∃ tr s, Runs (Step (telegramAndSlack .followup)) (Sys.init .followup) tr s ∧
      (callLog tr).length = 2 ∧ callLog tr <+: enqueueLog tr := by
  have hok : ∀ e ∈ ((play (telegramAndSlack .followup) .followup twoMessageSchedule).get
      twoMessageSchedule_plays).1, e.isFailure = false := by decide
  have hlen : (callLog ((play (telegramAndSlack .followup) .followup twoMessageSchedule).get
      twoMessageSchedule_plays).1).length = 2 := by decide
  have run := runs_of_play _ _ _ twoMessageSchedule_plays
  have hS : UncappedSession .followup (telegramAndSlack .followup) := by
    intro b
    cases b <;> exact ⟨rfl, rfl⟩
  exact ⟨_, _, run, hlen, (followup_exactly_once_in_order _ hS _ _ run hok).2.2.2.1⟩

end Oclaw.Gateway
