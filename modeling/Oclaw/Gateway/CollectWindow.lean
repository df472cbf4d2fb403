import Oclaw.Gateway.DeliveryOrder

/-!
# The collect window

The window is opened by lowering the flag, and `enqueue` looks at the flag only.
So the first message that arrives inside a window starts a run of its own and
waits for the run lock; later ones are queued again and overtake it. A window
keeps its arrivals exactly when it has none.
-/

namespace Oclaw.Gateway

open Oclaw.Lib Oclaw.AutoReply

variable {ι : Type} {S : Session ι} {s t : Sys ι} {e : Event ι} {tr mid : List (Event ι)}
  {mode : QueueMode} {i k : ι} {pc pc' : Pc ι} {q q' : MessageQueue (Inbound ι)}
  {l l' : Option ι} {batch : Option (List (Inbound ι))}

/-! ## §1  Windows of a trace -/

/-- Invocation `i` opened a window and has not taken its batch; `mid` happened since. -/
def OpenWindow (tr : List (Event ι)) (i : ι) (mid : List (Event ι)) : Prop :=
  ∃ pre, tr = pre ++ .openWindow i :: mid ∧ ∀ b, .takeBatch i b ∉ mid

/-- A window of `i` that ended with `batch`; `mid` happened inside it. -/
def ClosedWindow (tr : List (Event ι)) (i : ι) (mid : List (Event ι))
    (batch : Option (List (Inbound ι))) : Prop :=
  ∃ pre post, tr = pre ++ .openWindow i :: (mid ++ .takeBatch i batch :: post) ∧
    ∀ b, .takeBatch i b ∉ mid

/-- What is enqueued inside a window is in the batch that ends it. -/
def WindowsKept (tr : List (Event ι)) : Prop :=
  ∀ i mid batch, ClosedWindow tr i mid batch → ∀ m ∈ enqueueLog mid, m ∈ batch.getD []

/-- Nothing is enqueued inside a window. -/
def WindowsQuiet (tr : List (Event ι)) : Prop :=
  ∀ i mid batch, ClosedWindow tr i mid batch → enqueueLog mid = []

theorem OpenWindow.snoc (h : OpenWindow tr i mid) (he : ∀ b, e ≠ .takeBatch i b) :
    OpenWindow (tr ++ [e]) i (mid ++ [e]) := by
  obtain ⟨pre, rfl, hmid⟩ := h
  refine ⟨pre, by simp, ?_⟩
  intro b hb
  rcases List.mem_append.mp hb with hb | hb
  · exact hmid b hb
  · exact he b (List.mem_singleton.mp hb).symm

theorem OpenWindow.close (h : OpenWindow tr i mid) :
    ClosedWindow (tr ++ [.takeBatch i batch]) i mid batch := by
  obtain ⟨pre, rfl, hmid⟩ := h
  exact ⟨pre, [], by simp, hmid⟩

theorem WindowsQuiet.of_snoc (h : WindowsQuiet (tr ++ [e])) : WindowsQuiet tr := by
  rintro i mid batch ⟨pre, post, rfl, hmid⟩
  exact h i mid batch ⟨pre, post ++ [e], by simp, hmid⟩

/-! ## §2  While a window is open -/

theorem Pc.inWindow_holdsLock (h : pc.inWindow = true) : pc.holdsLock = true := by
  cases pc <;> first | rfl | cases h

/-- Being in a window comes from opening it, or from having been in it. -/
theorem Move.enter_window (h : Move S i pc q l e pc' q' l') (hw : pc'.inWindow = true) :
    e = .openWindow i ∨ (pc.inWindow = true ∧ e = .internal i) := by
  cases h with
  | enqueue nowMs =>
      generalize (q.enqueue (S.message i) nowMs).1 = action at hw
      cases action <;> cases hw
  | openWindow _ _ => exact Or.inl rfl
  | windowDue => exact Or.inr ⟨rfl, rfl⟩
  | _ => cases hw

/-- A window is left by taking the batch, which is all that is pending. -/
theorem Move.leave_window (h : Move S i pc q l e pc' q' l') (hw : pc.inWindow = true) :
    (e = .internal i ∧ pc'.inWindow = true ∧ q' = q) ∨
      ∃ batch, e = .takeBatch i batch ∧ batch.getD [] = q.pending := by
  cases h with
  | windowDue => exact Or.inl ⟨rfl, rfl, rfl⟩
  | takeBatch hb =>
      exact Or.inr ⟨_, rfl, (MessageQueue.takeCollectBatch_some hb).1⟩
  | noBatch hb =>
      exact Or.inr ⟨_, rfl, (MessageQueue.takeCollectBatch_none hb).1.symm⟩
  | _ => cases hw

theorem Move.takeBatch_inv (h : Move S k pc q l (.takeBatch i batch) pc' q' l') :
    k = i ∧ pc.inWindow = true := by
  cases h with
  | takeBatch _ => exact ⟨rfl, rfl⟩
  | noBatch _ => exact ⟨rfl, rfl⟩

theorem Move.openWindow_inv (h : Move S k pc q l (.openWindow i) pc' q' l') :
    k = i ∧ pc'.inWindow = true ∧ q' = q.markRunComplete := by
  cases h with
  | openWindow _ _ => exact ⟨rfl, rfl, rfl⟩

/-- With the run lock taken, whoever moves without it is still setting up. -/
theorem Move.blocked (h : Move S k pc q (some i) e pc' q' l') (hk : pc.holdsLock = false) :
    pc.draining = false := by
  cases h with
  | noProvider _ => rfl
  | create _ => rfl
  | configure => rfl
  | enqueue _ => rfl
  | _ => cases hk

variable [DecidableEq ι]

/-- The open windows of the state are the open windows of the trace. -/
def Opened (tr : List (Event ι)) (s : Sys ι) : Prop :=
  ∀ i, (s.pc i).inWindow = true → ∃ mid, OpenWindow tr i mid

theorem opened_step (hs : Opened tr s) (h : Step S s e t) : Opened (tr ++ [e]) t := by
  obtain ⟨k, pc', hmove, hpc⟩ := h.move
  intro i hi
  rw [hpc] at hi
  by_cases hik : i = k
  · subst hik
    rw [Function.update_self] at hi
    rcases hmove.enter_window hi with rfl | ⟨hw, rfl⟩
    · exact ⟨[], tr, rfl, by simp⟩
    · obtain ⟨mid, hopen⟩ := hs i hw
      exact ⟨_, hopen.snoc (by simp)⟩
  · rw [Function.update_of_ne hik] at hi
    obtain ⟨mid, hopen⟩ := hs i hi
    refine ⟨_, hopen.snoc ?_⟩
    rintro b rfl
    exact hik hmove.takeBatch_inv.1.symm

theorem opened_of_runs (run : Runs (Step S) (Sys.init mode) tr s) : Opened tr s :=
  run.invariant (fun _ hi => by cases hi) (fun _ => opened_step)

omit [DecidableEq ι] in
/-- While `i` sits in its window nobody else can drain. -/
theorem not_draining_of_window (hlock : LockInv s) (hi : (s.pc i).inWindow = true)
    (hmove : Move S k (s.pc k) s.queue s.runLock e pc' t.queue t.runLock) (hki : k ≠ i) :
    (s.pc k).draining = false := by
  have hheld := Pc.inWindow_holdsLock hi
  rw [(hlock i).mp hheld] at hmove
  apply hmove.blocked
  rw [Bool.eq_false_iff]
  intro hk
  exact hki (hlock.unique hk hheld)

/-! ## §3  Quiet windows keep the order -/

/-- Either no window has been disturbed so far, or one is open that has been: its
owner holds the run lock, so nothing is handed to the agent in the meantime. -/
inductive QuietSoFar (tr : List (Event ι)) (s : Sys ι) : Prop where
  | serial (h : Serial tr s)
  | disturbed (order : callLog tr <+: enqueueLog tr) (i : ι) (mid : List (Event ι))
      (opened : OpenWindow tr i mid) (inside : (s.pc i).inWindow = true)
      (arrivals : enqueueLog mid ≠ [])

omit [DecidableEq ι] in
theorem QuietSoFar.calls_in_order (h : QuietSoFar tr s) : callLog tr <+: enqueueLog tr := by
  cases h with
  | serial h => exact h.calls_in_order
  | disturbed order _ _ _ _ _ => exact order

omit [DecidableEq ι] in
theorem calls_in_order_snoc (h : callLog tr <+: enqueueLog tr) (he : e.called = []) :
    callLog (tr ++ [e]) <+: enqueueLog (tr ++ [e]) := by
  rw [callLog_snoc, enqueueLog_snoc, he, List.append_nil]
  exact h.trans (List.prefix_append _ _)

theorem quietSoFar_step (hmode : mode ≠ .interrupt) (hq : Uncapped mode s.queue)
    (hlock : LockInv s) (hopen : Opened tr s) (hs : QuietSoFar tr s) (h : Step S s e t)
    (hok : e.isFailure = false) (hquiet : WindowsQuiet (tr ++ [e])) :
    QuietSoFar (tr ++ [e]) t := by
  obtain ⟨k, pc', hmove, hpc⟩ := h.move
  cases hs with
  | serial hserial =>
      by_cases hcalm : Undisturbed s e
      · exact .serial (serial_step hmode hq hserial h hok hcalm)
      · -- The first arrival in an open window.
        simp only [Undisturbed, not_forall, Bool.not_eq_false] at hcalm
        obtain ⟨henq, i, hi⟩ := hcalm
        obtain ⟨mid, hmid⟩ := hopen i hi
        have hki : k ≠ i := by
          rintro rfl
          rcases hmove.leave_window hi with ⟨rfl, -, -⟩ | ⟨b, rfl, -⟩ <;> exact henq rfl
        have hcall := (hmove.bystander_effect (not_draining_of_window hlock hi hmove hki)).1
        refine .disturbed (calls_in_order_snoc hserial.calls_in_order hcall) i (mid ++ [e])
          (hmid.snoc ?_) ?_ ?_
        · rintro b rfl
          exact henq rfl
        · rw [hpc, Function.update_of_ne (Ne.symm hki)]
          exact hi
        · rw [enqueueLog_snoc]
          simp [henq]
  | disturbed order i mid hmid hi harr =>
      have harr' : enqueueLog (mid ++ [e]) ≠ [] := by
        rw [enqueueLog_snoc]
        simp [harr]
      by_cases hki : k = i
      · subst hki
        rcases hmove.leave_window hi with ⟨rfl, hw, -⟩ | ⟨batch, rfl, -⟩
        · refine .disturbed (calls_in_order_snoc order rfl) k _ (hmid.snoc (by simp)) ?_ harr'
          rw [hpc, Function.update_self]
          exact hw
        · -- closing a window that had arrivals is what `hquiet` excludes
          exact absurd (hquiet k mid batch hmid.close) harr
      · have hcall := (hmove.bystander_effect (not_draining_of_window hlock hi hmove hki)).1
        refine .disturbed (calls_in_order_snoc order hcall) i _ (hmid.snoc ?_) ?_ harr'
        · rintro b rfl
          exact hki hmove.takeBatch_inv.1
        · rw [hpc, Function.update_of_ne (Ne.symm hki)]
          exact hi

theorem uncapped_of_runs (hS : UncappedSession mode S)
    (run : Runs (Step S) (Sys.init mode) tr s) : Uncapped mode s.queue := by
  refine run.state_invariant (P := fun s => Uncapped mode s.queue) ⟨rfl, rfl⟩ ?_
  intro t e u hq h
  obtain ⟨k, pc', hmove, -⟩ := h.move
  exact hmove.uncapped hS hq

theorem quietSoFar_of_runs (hmode : mode ≠ .interrupt) (hS : UncappedSession mode S)
    (run : Runs (Step S) (Sys.init mode) tr s) (hok : ∀ e ∈ tr, e.isFailure = false)
    (hquiet : WindowsQuiet tr) : QuietSoFar tr s := by
  revert hok hquiet
  refine run.invariant (P := fun tr s => (∀ e ∈ tr, e.isFailure = false) →
    WindowsQuiet tr → QuietSoFar tr s) (fun _ _ => .serial serial_init) ?_
  intro tr t e u run ih hst hok hquiet
  have hs := ih (fun e he => hok e (List.mem_append_left _ he)) hquiet.of_snoc
  exact quietSoFar_step hmode (uncapped_of_runs hS run) (lockInv_of_runs run)
    (opened_of_runs run) hs hst (hok e (by simp)) hquiet

/-! ## §4  The first arrival of a window is not in its batch -/

/-- Pending messages belong to invocations that have enqueued. -/
def PendingPast (S : Session ι) (s : Sys ι) : Prop :=
  ∀ m ∈ s.queue.pending, ∃ j, m = S.message j ∧ (s.pc j).inSetup = false

omit [DecidableEq ι] in
theorem Move.leave_setup (h : Move S i .configured q l e pc' q' l') : pc'.inSetup = false := by
  cases h with
  | enqueue nowMs =>
      generalize (q.enqueue (S.message i) nowMs).1 = action
      cases action <;> rfl

/-- A message whose invocation has enqueued never enters the queue again. -/
theorem not_pending_stays (h : Step S s e t) {j : ι} (hj : (s.pc j).inSetup = false)
    (hout : S.message j ∉ s.queue.pending) : S.message j ∉ t.queue.pending := by
  obtain ⟨k, pc', hmove, -⟩ := h.move
  intro hin
  rcases hmove.pending_effect _ hin with hold | ⟨heq, -, hsetup⟩
  · exact hout hold
  · rw [message_injective heq, hsetup] at hj
    cases hj

theorem pendingPast_step (hs : PendingPast S s) (h : Step S s e t) : PendingPast S t := by
  obtain ⟨k, pc', hmove, hpc⟩ := h.move
  intro m hm
  rcases hmove.pending_effect m hm with hold | ⟨rfl, -, hsetup⟩
  · obtain ⟨j, rfl, hj⟩ := hs m hold
    exact ⟨j, rfl, inSetup_stays h hj⟩
  · refine ⟨k, rfl, ?_⟩
    rw [hpc, Function.update_self]
    rw [hsetup] at hmove
    exact hmove.leave_setup

/-- What an open window keeps: its owner stays inside and the flag stays down until
a message arrives; that message is then in nobody's batch. -/
structure Overtaken (S : Session ι) (i : ι) (mid : List (Event ι)) (s : Sys ι) : Prop where
  lock : LockInv s
  past : PendingPast S s
  inside : (s.pc i).inWindow = true
  calm : enqueueLog mid = [] → s.queue.hasActiveRun = false
  first : ∀ m rest, enqueueLog mid = m :: rest →
    ∃ j, m = S.message j ∧ (s.pc j).inSetup = false ∧ m ∉ s.queue.pending

theorem overtaken_step (hs : Overtaken S i mid s) (h : Step S s e t)
    (he : ∀ b, e ≠ .takeBatch i b) : Overtaken S i (mid ++ [e]) t := by
  obtain ⟨k, pc', hmove, hpc⟩ := h.move
  have hfirst : ∀ m rest, enqueueLog mid = m :: rest →
      ∃ j, m = S.message j ∧ (t.pc j).inSetup = false ∧ m ∉ t.queue.pending := by
    intro m rest hlog
    obtain ⟨j, rfl, hj, hout⟩ := hs.first m rest hlog
    exact ⟨j, rfl, inSetup_stays h hj, not_pending_stays h hj hout⟩
  by_cases hki : k = i
  · subst hki
    rcases hmove.leave_window hs.inside with ⟨rfl, hw, hq⟩ | ⟨b, rfl, -⟩
    · have hlog : enqueueLog (mid ++ [.internal k]) = enqueueLog mid := by
        rw [enqueueLog_snoc]
        exact List.append_nil _
      refine ⟨lockInv_step hs.lock h, pendingPast_step hs.past h, ?_, ?_, ?_⟩
      · rw [hpc, Function.update_self]
        exact hw
      · rw [hlog, hq]
        exact hs.calm
      · rw [hlog]
        exact hfirst
    · exact absurd rfl (he b)
  · have hin : (t.pc i).inWindow = true := by
      rw [hpc, Function.update_of_ne (Ne.symm hki)]
      exact hs.inside
    have hnd := not_draining_of_window hs.lock hs.inside hmove hki
    refine ⟨lockInv_step hs.lock h, pendingPast_step hs.past h, hin, ?_, ?_⟩
    · intro hlog
      rw [enqueueLog_snoc, List.append_eq_nil_iff] at hlog
      rcases (hmove.bystander_effect hnd).2 with ⟨-, -, -, hflag⟩ | ⟨nowMs, -, henq, -⟩
      · rw [hflag]
        exact hs.calm hlog.1
      · rw [henq] at hlog
        cases hlog.2
    · intro m rest hlog
      rw [enqueueLog_snoc] at hlog
      cases hmid : enqueueLog mid with
      | cons m' rest' =>
          rw [hmid, List.cons_append, List.cons.injEq] at hlog
          rw [← hlog.1]
          exact hfirst m' rest' hmid
      | nil =>
          rw [hmid, List.nil_append] at hlog
          rcases (hmove.bystander_effect hnd).2 with ⟨henq, -⟩ |
            ⟨nowMs, hsetup, henq, -, -, hq⟩
          · rw [henq] at hlog
            cases hlog
          · -- The flag is down: the message is not stored but runs on its own.
            rw [henq, List.cons.injEq] at hlog
            obtain ⟨rfl, -⟩ := hlog
            refine ⟨k, rfl, ?_, ?_⟩
            · rw [hpc, Function.update_self]
              rw [hsetup] at hmove
              exact hmove.leave_setup
            · rw [hq, MessageQueue.enqueue_idle (hs.calm hmid)]
              intro hpend
              obtain ⟨j, heq, hj⟩ := hs.past _ hpend
              rw [← message_injective heq, hsetup] at hj
              cases hj

theorem pendingPast_of_runs (run : Runs (Step S) (Sys.init mode) tr s) : PendingPast S s :=
  run.state_invariant (fun _ hm => by cases hm) pendingPast_step

/-- A window that has arrivals misses the first of them. -/
theorem first_arrival_missed (run : Runs (Step S) (Sys.init mode) tr s)
    (hwin : ClosedWindow tr i mid batch) {m : Inbound ι} {rest : List (Inbound ι)}
    (hlog : enqueueLog mid = m :: rest) : m ∉ batch.getD [] := by
  obtain ⟨pre, post, rfl, hmid⟩ := hwin
  -- cut the run where the window opens and where its batch is taken
  obtain ⟨s₀, run₀, run⟩ := run.split
  obtain ⟨s₁, hopen, run⟩ := run.uncons
  obtain ⟨s₂, run₁, run⟩ := run.split
  obtain ⟨s₃, htake, -⟩ := run.uncons
  have hstart : Overtaken S i [] s₁ := by
    have run₁ := run₀.snoc hopen
    obtain ⟨k, pc', hmove, hpc⟩ := hopen.move
    obtain ⟨rfl, hw, hq⟩ := hmove.openWindow_inv
    refine ⟨lockInv_of_runs run₁, pendingPast_of_runs run₁, ?_, ?_, ?_⟩
    · rw [hpc, Function.update_self]
      exact hw
    · intro _
      rw [hq]
      rfl
    · intro m rest hnil
      cases hnil
  have hend : Overtaken S i mid s₂ := by
    revert hmid
    refine run₁.invariant (P := fun mid s => (∀ b, .takeBatch i b ∉ mid) → Overtaken S i mid s)
      (fun _ => hstart) ?_
    intro mid t e u _ ih hst hmid
    refine overtaken_step (ih fun b hb => hmid b (List.mem_append_left _ hb)) hst ?_
    rintro b rfl
    exact hmid b (by simp)
  obtain ⟨j, rfl, -, hout⟩ := hend.first m rest hlog
  obtain ⟨k, pc', hmove, -⟩ := htake.move
  obtain ⟨rfl, hw⟩ := hmove.takeBatch_inv
  rcases hmove.leave_window hw with ⟨hint, -, -⟩ | ⟨b, hb, hpend⟩
  · cases hint
  · cases hb
    rw [hpend]
    exact hout

/-- **The collect window.** In collect mode, without a cap and without failing
turns, every window keeps what arrives in it and messages are handed over in
enqueue order, if and only if nothing arrives in a window. -/
theorem collect_windows_kept_iff_quiet (S : Session ι) (hS : UncappedSession .collect S)
    (tr : List (Event ι)) (s : Sys ι) (run : Runs (Step S) (Sys.init .collect) tr s)
    (hok : ∀ e ∈ tr, e.isFailure = false) :
    WindowsKept tr ∧ callLog tr <+: enqueueLog tr ↔ WindowsQuiet tr := by
  constructor
  · rintro ⟨hkept, -⟩ i mid batch hwin
    cases hlog : enqueueLog mid with
    | nil => rfl
    | cons m rest =>
        have hm : m ∈ enqueueLog mid := by
          rw [hlog]
          exact List.mem_cons_self
        exact absurd (hkept i mid batch hwin m hm) (first_arrival_missed run hwin hlog)
  · intro hquiet
    refine ⟨?_, (quietSoFar_of_runs (by decide) hS run hok hquiet).calls_in_order⟩
    intro i mid batch hwin m hm
    rw [hquiet i mid batch hwin] at hm
    cases hm

/-! ## §5  Four messages of one chat -/

/-- Four messages of one Telegram chat in collect mode. -/
def fourMessages : Session (Fin 4) where
  gateway := ⟨true, .main, none, none⟩
  id := "main"
  inv := fun _ => sampleInvocation "telegram" "42" .collect
  sameSession := fun _ => rfl

theorem fourMessages_uncapped : UncappedSession .collect fourMessages :=
  fun _ => ⟨rfl, rfl⟩

def steps (i : Fin 4) (n : ℕ) : List (Fin 4 × Env) := List.replicate n (i, okEnv "telegram")

/-- Message 1 is queued behind message 0, and messages 2 and 3 arrive inside the
window that message 0 opens for it. -/
def overtakenSchedule : List (Fin 4 × Env) :=
  steps 0 6 ++ steps 1 3 ++ steps 0 3 ++ steps 2 3 ++ steps 3 3 ++ steps 0 9 ++ steps 2 3

theorem overtakenSchedule_plays :
    (play fourMessages .collect overtakenSchedule).isSome = true := by
  decide

/-- The trace of that schedule. -/
def overtakenTrace : List (Event (Fin 4)) :=
  ((play fourMessages .collect overtakenSchedule).get overtakenSchedule_plays).1

theorem overtakenTrace_windows :
    ClosedWindow overtakenTrace 0 ((overtakenTrace.drop 12).take 7)
      (some [fourMessages.message 1, fourMessages.message 3]) :=
  ⟨overtakenTrace.take 11, overtakenTrace.drop 20, by decide, by
    intro b hb
    have hnone : ∀ e ∈ (overtakenTrace.drop 12).take 7, e.enqueued ≠ [] ∨
        e = .internal 0 ∨ e = .internal 2 ∨ e = .internal 3 := by decide
    rcases hnone _ hb with h | h | h | h
    · exact h rfl
    all_goals cases h⟩

/-- The first message that arrives inside the window misses its batch, and is
handed to the agent after the message that came behind it. -/
theorem window_arrival_overtaken :
    ∃ tr s, Runs (Step fourMessages) (Sys.init .collect) tr s ∧
      UncappedSession .collect fourMessages ∧ (∀ e ∈ tr, e.isFailure = false) ∧
      ¬ WindowsKept tr ∧ ¬ callLog tr <+: enqueueLog tr := by
  refine ⟨overtakenTrace, _, runs_of_play _ _ _ overtakenSchedule_plays,
    fourMessages_uncapped, by decide, ?_, by decide⟩
  intro hkept
  have hin := hkept 0 _ _ overtakenTrace_windows (fourMessages.message 2) (by decide)
  revert hin
  decide

/-- Message 1 is queued before the window opens; the others come after it closed. -/
def quietSchedule : List (Fin 4 × Env) :=
  steps 0 6 ++ steps 1 3 ++ steps 0 5 ++ steps 2 3 ++ steps 0 4 ++ steps 3 3

theorem quietSchedule_plays : (play fourMessages .collect quietSchedule).isSome = true := by
  decide

def quietTrace : List (Event (Fin 4)) :=
  ((play fourMessages .collect quietSchedule).get quietSchedule_plays).1

theorem quietTrace_quiet : WindowsQuiet quietTrace := by
  rintro i mid batch ⟨pre, post, heq, hmid⟩
  have hopens : ∀ n < 24, ∀ i, quietTrace[n]? = some (.openWindow i) → n = 11 ∧ i = 0 := by
    decide
  have hlen : pre.length < 24 := by
    have hle : quietTrace.length = 24 := by decide
    rw [heq] at hle
    simp at hle
    omega
  obtain ⟨hpre, rfl⟩ := hopens pre.length hlen i (by rw [heq]; simp)
  have hrest : quietTrace.drop 12 = mid ++ .takeBatch 0 batch :: post := by
    rw [heq, show 12 = pre.length + 1 by omega]
    simp
  have htrace : quietTrace.drop 12 = .internal 0 ::
      .takeBatch 0 (some [fourMessages.message 1]) :: quietTrace.drop 14 := by
    decide
  rw [htrace] at hrest
  cases mid with
  | nil => cases hrest
  | cons x mid =>
      rw [List.cons_append, List.cons.injEq] at hrest
      obtain ⟨rfl, hrest⟩ := hrest
      cases mid with
      | nil => rfl
      | cons y mid =>
          rw [List.cons_append, List.cons.injEq] at hrest
          obtain ⟨rfl, -⟩ := hrest
          exact absurd (by simp) (hmid (some [fourMessages.message 1]))

theorem quiet_window_kept :
    ∃ tr s, Runs (Step fourMessages) (Sys.init .collect) tr s ∧
      .takeBatch 0 (some [fourMessages.message 1]) ∈ tr ∧
      WindowsKept tr ∧ callLog tr <+: enqueueLog tr := by
  have hok : ∀ e ∈ quietTrace, e.isFailure = false := by decide
  have run := runs_of_play _ _ _ quietSchedule_plays
  exact ⟨quietTrace, _, run, by decide,
    (collect_windows_kept_iff_quiet _ fourMessages_uncapped _ _ run hok).mpr quietTrace_quiet⟩

end Oclaw.Gateway
