import Oclaw.Gateway.Pipeline

/-!
# The active-run flag of a session

`has_active_run` is raised by `enqueue` and lowered by the takes of the run
loop. The loop leaves through `?` when a turn fails, and that path tells the
queue nothing. The flag is therefore attended exactly as long as no turn fails
while its invocation is the only one that would still lower it.
-/

namespace Oclaw.Gateway

open Oclaw.Lib Oclaw.AutoReply

variable {ι : Type} {S : Session ι} {s t : Sys ι} {e : Event ι} {tr : List (Event ι)}
  {mode : QueueMode}

/-- The invocation will take from the queue again before it returns. -/
def Pc.draining : Pc ι → Bool
  | .waiting .. | .top .. | .turns .. | .calling .. | .settled .. | .window ..
  | .windowTake .. | .nextWait .. | .nextTake .. => true
  | _ => false

/-- Between an enqueue that made it run and its return. -/
def Pc.inRun : Pc ι → Bool
  | .leaving .. => true
  | pc => pc.draining

/-- When no invocation of the session is running, the flag is down. -/
def IdleCleared (s : Sys ι) : Prop :=
  (∀ i, (s.pc i).inRun = false) → s.queue.hasActiveRun = false

/-- A raised flag has somebody who will lower it. -/
def Attended (s : Sys ι) : Prop :=
  s.queue.hasActiveRun = true → ∃ i, (s.pc i).draining = true

/-- A turn fails only while the flag is down or somebody else is draining. -/
def ErrorCovered (s : Sys ι) : Event ι → Prop
  | .finish i _ report =>
      report.isOk = true ∨ s.queue.hasActiveRun = false ∨
        ∃ j, j ≠ i ∧ (s.pc j).draining = true
  | _ => True

theorem Pc.draining_inRun {pc : Pc ι} (h : pc.draining = true) : pc.inRun = true := by
  cases pc <;> first | exact h | rfl

/-- Enqueueing either makes the invocation drain or leaves the flag as it was. -/
theorem afterEnqueue_draining (q : MessageQueue (Inbound ι)) (m : Inbound ι) (nowMs : ℕ) :
    (afterEnqueue (q.enqueue m nowMs).1).draining = true ∨ q.hasActiveRun = true := by
  cases hrun : q.hasActiveRun with
  | false =>
      left
      rw [MessageQueue.enqueue_idle hrun]
      rfl
  | true => exact Or.inr rfl

/-- What a move does to the flag: the mover goes on draining, or it leaves the
flag down, or it was not draining and the flag was up before, or it fails. -/
theorem Move.flag_effect {i : ι} {pc pc' : Pc ι} {q q' : MessageQueue (Inbound ι)}
    {l l' : Option ι} (h : Move S i pc q l e pc' q' l') :
    pc'.draining = true ∨ q'.hasActiveRun = false ∨
      (pc.draining = false ∧ (q'.hasActiveRun = true → q.hasActiveRun = true)) ∨
      ∃ turn report, e = .finish i turn report ∧ report.isOk = false ∧
        q' = q ∧ pc'.inRun = false := by
  cases h with
  | enqueue nowMs =>
      rcases afterEnqueue_draining q (S.message i) nowMs with hd | hq
      · exact Or.inl hd
      · exact Or.inr (Or.inr (Or.inl ⟨rfl, fun _ => hq⟩))
  | fail env hres =>
      refine Or.inr (Or.inr (Or.inr ⟨_, _, rfl, ?_, rfl, rfl⟩))
      simp [TurnReport.isOk, hres, Except.isOk, Except.toBool]
  | noBatch hb => exact Or.inr (Or.inl (MessageQueue.takeCollectBatch_none hb).2.2)
  | noNext hn => exact Or.inr (Or.inl (MessageQueue.completeAndTakeNext_none hn).2.2)
  | noProvider _ => exact Or.inr (Or.inr (Or.inl ⟨rfl, id⟩))
  | create _ => exact Or.inr (Or.inr (Or.inl ⟨rfl, id⟩))
  | configure => exact Or.inr (Or.inr (Or.inl ⟨rfl, id⟩))
  | leave => exact Or.inr (Or.inr (Or.inl ⟨rfl, id⟩))
  | _ => exact Or.inl rfl

theorem Move.finish_inv {i k : ι} {turn : Planned ι} {report : TurnReport} {pc pc' : Pc ι}
    {q q' : MessageQueue (Inbound ι)} {l l' : Option ι}
    (h : Move S k pc q l (.finish i turn report) pc' q' l') :
    k = i ∧ pc.holdsLock = true ∧ q' = q ∧ (report.isOk = false → pc'.inRun = false) := by
  cases h with
  | answer env hres =>
      refine ⟨rfl, rfl, rfl, ?_⟩
      intro hnok
      simp [TurnReport.isOk, hres, Except.isOk, Except.toBool] at hnok
  | fail env hres => exact ⟨rfl, rfl, rfl, fun _ => rfl⟩

theorem Move.queued_inv {i k : ι} {m : Inbound ι} {pc pc' : Pc ι}
    {q q' : MessageQueue (Inbound ι)} {l l' : Option ι}
    (h : Move S k pc q l (.enqueue i m .queued) pc' q' l') :
    pc.draining = false ∧ q.hasActiveRun = true := by
  generalize haction : QueueAction.queued = action at h
  cases h with
  | enqueue nowMs =>
      refine ⟨rfl, ?_⟩
      cases hrun : q.hasActiveRun with
      | true => rfl
      | false =>
          rw [MessageQueue.enqueue_idle hrun] at haction
          cases haction

theorem Pc.inRun_eq_false {pc : Pc ι} (hd : pc.draining = false)
    (hl : pc.holdsLock = false) : pc.inRun = false := by
  cases pc <;> first | exact hd | cases hl

theorem attended_init (mode : QueueMode) : Attended (Sys.init mode : Sys ι) := by
  intro h
  cases h

theorem Attended.idleCleared (hs : Attended s) : IdleCleared s := by
  intro hidle
  cases hflag : s.queue.hasActiveRun with
  | false => rfl
  | true =>
      obtain ⟨i, hi⟩ := hs hflag
      have hrun := Pc.draining_inRun hi
      rw [hidle i] at hrun
      cases hrun

/-! ## Runs -/

variable [DecidableEq ι]

/-- Steps in which no failure strands the flag. -/
def CoveredStep (S : Session ι) (s : Sys ι) (e : Event ι) (t : Sys ι) : Prop :=
  Step S s e t ∧ ErrorCovered s e

theorem attended_step (hs : Attended s) (h : CoveredStep S s e t) : Attended t := by
  obtain ⟨hstep, hcov⟩ := h
  obtain ⟨i, pc', hmove, hpc⟩ := hstep.move
  intro hflag
  rcases hmove.flag_effect with hd | hq | ⟨hnd, hq⟩ | ⟨turn, report, rfl, hnok, hqq, -⟩
  · exact ⟨i, by rw [hpc, Function.update_self]; exact hd⟩
  · rw [hq] at hflag
    cases hflag
  · -- The drainer of the state before is not the mover, so it is still there.
    obtain ⟨j, hj⟩ := hs (hq hflag)
    have hji : j ≠ i := by
      rintro rfl
      rw [hnd] at hj
      cases hj
    exact ⟨j, by rw [hpc, Function.update_of_ne hji]; exact hj⟩
  · -- a failing turn leaves the flag as it was
    rw [hqq] at hflag
    rcases hcov with hok | hdown | ⟨j, hji, hj⟩
    · rw [hnok] at hok
      cases hok
    · rw [hdown] at hflag
      cases hflag
    · exact ⟨j, by rw [hpc, Function.update_of_ne hji]; exact hj⟩

theorem attended_of_runs (run : Runs (CoveredStep S) (Sys.init mode) tr s) : Attended s :=
  run.state_invariant (attended_init mode) attended_step

/-- An uncovered failure leaves the flag up with nobody running: the failing
invocation held the run lock, so nobody is between its last take and its return
either. -/
theorem not_idleCleared_of_uncovered (hlock : LockInv s) (h : Step S s e t)
    (hcov : ¬ ErrorCovered s e) : ¬ IdleCleared t := by
  intro hidle
  cases e with
  | finish i turn report =>
      simp only [ErrorCovered, not_or, not_exists, not_and, Bool.not_eq_true,
        Bool.not_eq_false] at hcov
      obtain ⟨hnok, hflag, hnobody⟩ := hcov
      obtain ⟨k, pc', hmove, hpc⟩ := h.move
      obtain ⟨rfl, hheld, hq, hret⟩ := hmove.finish_inv
      have hdown : t.queue.hasActiveRun = false := by
        apply hidle
        intro j
        rw [hpc]
        by_cases hji : j = k
        · subst hji
          rw [Function.update_self]
          exact hret hnok
        · rw [Function.update_of_ne hji]
          apply Pc.inRun_eq_false (hnobody j hji)
          rw [Bool.eq_false_iff]
          intro hj
          exact hji (hlock.unique hj hheld)
      rw [hq, hflag] at hdown
      cases hdown
  | _ => exact hcov trivial

theorem Attended.queued_has_drainer (hs : Attended s) {i : ι} {m : Inbound ι}
    (h : Step S s (.enqueue i m .queued) t) : ∃ j, (t.pc j).draining = true := by
  obtain ⟨k, pc', hmove, hpc⟩ := h.move
  obtain ⟨hnd, hflag⟩ := hmove.queued_inv
  obtain ⟨j, hj⟩ := hs hflag
  have hjk : j ≠ k := by
    rintro rfl
    rw [hnd] at hj
    cases hj
  exact ⟨j, by rw [hpc, Function.update_of_ne hjk]; exact hj⟩

/-- **The flag is attended.** In every run whose failing turns are all covered,
an idle session has its flag down and a message is answered `queued` only while
somebody is left to drain it; and the first uncovered failure of any run breaks
this at once. -/
theorem idle_session_cleared_iff_errors_covered (S : Session ι) (mode : QueueMode) :
    (∀ tr s, Runs (CoveredStep S) (Sys.init mode) tr s →
      IdleCleared s ∧
      ∀ i m t, Step S s (.enqueue i m .queued) t → ∃ j, (t.pc j).draining = true) ∧
    (∀ tr s e t, Runs (Step S) (Sys.init mode) tr s → Step S s e t →
      ¬ ErrorCovered s e → ¬ IdleCleared t) := by
  refine ⟨?_, ?_⟩
  · intro tr s run
    have hs := attended_of_runs run
    refine ⟨hs.idleCleared, ?_⟩
    intro i m t hstep
    exact hs.queued_has_drainer hstep
  · intro tr s e t run hstep hcov
    exact not_idleCleared_of_uncovered (lockInv_of_runs run) hstep hcov

/-! ## Two direct chats in the shared session -/

def sampleSettings (mode : QueueMode) : QueueRuntimeSettings where
  mode := mode
  collectWindowMs := 2000
  debounceMs := 0
  cap := usizeMax
  dropPolicy := .summarize

def sampleInvocation (channelName chatId : String) (mode : QueueMode) : Invocation where
  channelName := channelName
  chatId := chatId
  text := "hi"
  metadata := []
  settings := sampleSettings mode
  receivedMs := 0

/-- A Telegram chat and a Slack chat under the default scope. -/
def telegramAndSlack (mode : QueueMode) : Session Bool where
  gateway := ⟨true, .main, none, none⟩
  id := "main"
  inv := fun b => if b then sampleInvocation "slack" "C1" mode
    else sampleInvocation "telegram" "42" mode
  sameSession := by
    intro b
    cases b <;> rfl

def okEnv (channelName : String) : Env := ⟨0, .answering "ok" channelName⟩

def llmDown (channelName : String) : Env :=
  ⟨0, { TurnEnv.answering "ok" channelName with agent := .error "LLM unavailable" }⟩

/-- The Telegram message fails in its first turn; the Slack message that comes
next is answered `queued`. -/
def strandedSchedule : List (Bool × Env) :=
  List.replicate 6 (false, okEnv "telegram") ++ [(false, llmDown "telegram")] ++
    List.replicate 3 (true, okEnv "slack")

/-- After a failed turn the session is idle, its flag is up, and the next
message waits in a queue that nobody drains. -/
theorem failed_turn_strands_session :
    ∃ tr s, Runs (Step (telegramAndSlack .followup)) (Sys.init .followup) tr s ∧
      (∀ i, (s.pc i).inRun = false) ∧ s.queue.hasActiveRun = true ∧
      s.queue.pending = [(telegramAndSlack .followup).message true] :=
  ⟨_, _, runs_of_play _ _ strandedSchedule (by decide),
    by decide, by decide, by decide⟩

/-- One answered message, alone in the session. -/
def answeredSchedule : List (Bool × Env) := List.replicate 11 (false, okEnv "telegram")

def Event.isFailure : Event ι → Bool
  | .finish _ _ report => !report.isOk
  | _ => false

theorem coveredStep_of_not_failure (he : e.isFailure = false) (h : Step S s e t) :
    CoveredStep S s e t := by
  refine ⟨h, ?_⟩
  cases e with
  | finish i turn report => exact Or.inl (by simpa [Event.isFailure] using he)
  | _ => trivial

theorem answeredSchedule_plays :
    (play (telegramAndSlack .followup) .followup answeredSchedule).isSome = true := by
  decide

theorem answered_session_is_cleared :
    ∃ tr s, Runs (CoveredStep (telegramAndSlack .followup)) (Sys.init .followup) tr s ∧
      (∀ i, (s.pc i).inRun = false) ∧ s.queue.hasActiveRun = false := by
  have hok : ∀ e ∈ ((play (telegramAndSlack .followup) .followup answeredSchedule).get
      answeredSchedule_plays).1, e.isFailure = false := by decide
  have hidle : ∀ i, (((play (telegramAndSlack .followup) .followup answeredSchedule).get
      answeredSchedule_plays).2.pc i).inRun = false := by decide
  have run : Runs (CoveredStep (telegramAndSlack .followup)) (Sys.init .followup) _ _ :=
    (runs_of_play _ _ answeredSchedule answeredSchedule_plays).mono
      (fun e he _ _ h => coveredStep_of_not_failure (hok e he) h)
  exact ⟨_, _, run, hidle,
    ((idle_session_cleared_iff_errors_covered _ _).1 _ _ run).1 hidle⟩

end Oclaw.Gateway
