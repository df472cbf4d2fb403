import Oclaw.AutoReply.Context
import Mathlib.Logic.Function.Iterate
import Mathlib.Data.List.Induction

/-!
# The per-session message queue

`crates/auto-reply/src/queue.rs`. The queue never looks inside a message except
for the one-line overflow summary, so the message type is a parameter: the
gateway uses finalized contexts, the concurrent model tags them with the
invocation that built them.

§1 is the queue as the source computes it. §2 states which messages an
operation lets go and proves the accounting of `pending` over every sequence of
calls.
-/

namespace Oclaw.AutoReply

open Oclaw.Lib

/-! ## §1  The queue -/

inductive QueueMode : Type where
  | interrupt
  | steer
  | followup
  | collect
  | steerBacklog
deriving DecidableEq

inductive QueueDropPolicy : Type where
  | summarize
  | old
  | new
deriving DecidableEq

/-- What `enqueue` answers. `collected` is part of the source's enumeration;
no queue method produces it. -/
inductive QueueAction (M : Type) : Type where
  | runNow (ctx : M)
  | queued
  | interrupted (ctx : M)
  | collected (batch : List M)
deriving DecidableEq

/-- Messages with the body that the overflow summary quotes. -/
class AgentBody (M : Type) : Type where
  bodyForAgent : M → String

instance : AgentBody FinalizedMsgContext := ⟨FinalizedMsgContext.bodyForAgent⟩

structure MessageQueue (M : Type) : Type where
  mode : QueueMode
  pending : List M
  hasActiveRun : Bool
  collectWindowMs : ℕ
  debounceMs : ℕ
  cap : ℕ
  dropPolicy : QueueDropPolicy
  droppedCount : ℕ
  summaryLines : List String
  lastEnqueuedAtMs : ℕ

/-- One line of at most `limit` characters, whitespace runs collapsed. -/
def summarizeQueueText (text : String) (limit : ℕ) : String :=
  let compact := [' '].intercalate (splitWhitespace text.toList)
  if compact.length ≤ limit then String.ofList compact
  else String.ofList (compact.take (limit - 1) ++ ['…'])

namespace MessageQueue

variable {M : Type} [AgentBody M]

def new (mode : QueueMode) : MessageQueue M where
  mode := mode
  pending := []
  hasActiveRun := false
  collectWindowMs := 2000
  debounceMs := 0
  cap := usizeMax
  dropPolicy := .summarize
  droppedCount := 0
  summaryLines := []
  lastEnqueuedAtMs := 0

def setCollectWindowMs (q : MessageQueue M) (ms : ℕ) : MessageQueue M :=
  { q with collectWindowMs := max ms 1 }

def setDebounceMs (q : MessageQueue M) (ms : ℕ) : MessageQueue M :=
  { q with debounceMs := ms }

def setCap (q : MessageQueue M) (cap : ℕ) : MessageQueue M :=
  { q with cap := max cap 1 }

def setDropPolicy (q : MessageQueue M) (policy : QueueDropPolicy) : MessageQueue M :=
  { q with dropPolicy := policy }

def setMode (q : MessageQueue M) (mode : QueueMode) : MessageQueue M :=
  { q with mode := mode }

def pendingCount (q : MessageQueue M) : ℕ := q.pending.length

/-- Body of the eviction loop of `push_pending`: pop the oldest message and,
under `Summarize`, count and quote it. The `while` loop of the source keeps the
newest `min cap 256` lines. -/
def dropOldest (q : MessageQueue M) : MessageQueue M :=
  match q.pending with
  | [] => q
  | dropped :: rest =>
      let q := { q with pending := rest }
      if q.dropPolicy = .summarize then
        let lines := q.summaryLines ++
          [summarizeQueueText (AgentBody.bodyForAgent dropped) 160]
        { q with
          droppedCount := satAdd q.droppedCount 1
          summaryLines := lines.drop (lines.length - min q.cap 256) }
      else q

/-- The queue is bounded and full. -/
def isFull (q : MessageQueue M) : Bool :=
  q.cap != usizeMax && decide (q.cap ≤ q.pending.length)

/-- How many messages `push_pending` evicts when the queue is full. -/
def dropCount (q : MessageQueue M) : ℕ := satAdd (q.pending.length - q.cap) 1

def stamp (q : MessageQueue M) (nowMs : ℕ) : MessageQueue M :=
  { q with lastEnqueuedAtMs := nowMs }

def pushBack (q : MessageQueue M) (ctx : M) : MessageQueue M :=
  { q with pending := q.pending ++ [ctx] }

def pushPending (q : MessageQueue M) (ctx : M) (nowMs : ℕ) : Bool × MessageQueue M :=
  let q := q.stamp nowMs
  if q.isFull = true then
    if q.dropPolicy = .new then (false, q)
    else (true, (dropOldest^[q.dropCount] q).pushBack ctx)
  else (true, q.pushBack ctx)

/-- Enqueue a message. Every queueing mode discards the boolean of
`push_pending` and answers `Queued`. -/
def enqueue (q : MessageQueue M) (ctx : M) (nowMs : ℕ) :
    QueueAction M × MessageQueue M :=
  if q.hasActiveRun = false then (.runNow ctx, { q with hasActiveRun := true })
  else
    match q.mode with
    | .interrupt => (.interrupted ctx, { q with pending := [] })
    | .steer | .steerBacklog => (.queued, (q.pushPending ctx nowMs).2)
    | .followup => (.queued, (q.pushPending ctx nowMs).2)
    | .collect => (.queued, (q.pushPending ctx nowMs).2)

def drain (q : MessageQueue M) : List M × MessageQueue M :=
  (q.pending, { q with hasActiveRun := false, pending := [] })

def markRunComplete (q : MessageQueue M) : MessageQueue M :=
  { q with hasActiveRun := false }

def completeAndTakeNext (q : MessageQueue M) : Option M × MessageQueue M :=
  match q.pending with
  | next :: rest => (some next, { q with hasActiveRun := true, pending := rest })
  | [] => (none, { q with hasActiveRun := false })

def takeCollectBatch (q : MessageQueue M) : Option (List M) × MessageQueue M :=
  if q.pending.isEmpty then (none, { q with hasActiveRun := false })
  else (some q.pending, { q with hasActiveRun := true, pending := [] })

def takeSummaryPrompt (q : MessageQueue M) (noun : String) :
    Option String × MessageQueue M :=
  if q.dropPolicy ≠ .summarize ∨ q.droppedCount = 0 then (none, q)
  else
    let plural := if q.droppedCount = 1 then "" else "s"
    let head := "[Queue overflow] Dropped " ++ toString q.droppedCount ++ " " ++ noun ++
      plural ++ " due to queue cap."
    let lines :=
      if q.summaryLines.isEmpty then [head]
      else head :: "Summary:" :: q.summaryLines.map (fun line => "- " ++ line)
    (some ("\n".intercalate lines),
      { q with droppedCount := 0, summaryLines := [] })

/-! ## What the operations do to `pending` and to the settings -/

theorem dropOldest_pending (q : MessageQueue M) :
    q.dropOldest.pending = q.pending.drop 1 := by
  unfold dropOldest
  split
  · rename_i h
    simp [h]
  · rename_i dropped rest h
    simp only [h, List.drop_succ_cons, List.drop_zero]
    split <;> rfl

theorem dropOldest_iterate_pending (n : ℕ) (q : MessageQueue M) :
    (dropOldest^[n] q).pending = q.pending.drop n := by
  induction n generalizing q with
  | zero => rfl
  | succ n ih =>
      rw [Function.iterate_succ_apply, ih, dropOldest_pending, List.drop_drop,
        Nat.add_comm]

omit [AgentBody M] in
theorem completeAndTakeNext_some {q : MessageQueue M} {m : M}
    (h : q.completeAndTakeNext.1 = some m) :
    q.pending = m :: q.completeAndTakeNext.2.pending ∧
      q.completeAndTakeNext.2.hasActiveRun = true := by
  unfold completeAndTakeNext at h ⊢
  cases hp : q.pending with
  | nil => simp [hp] at h
  | cons next rest =>
      simp only [hp, Option.some.injEq] at h
      simp [h]

omit [AgentBody M] in
theorem completeAndTakeNext_none {q : MessageQueue M} (h : q.completeAndTakeNext.1 = none) :
    q.pending = [] ∧ q.completeAndTakeNext.2.pending = [] ∧
      q.completeAndTakeNext.2.hasActiveRun = false := by
  unfold completeAndTakeNext at h ⊢
  cases hp : q.pending with
  | nil => simp
  | cons next rest => simp [hp] at h

omit [AgentBody M] in
theorem takeCollectBatch_some {q : MessageQueue M} {ms : List M}
    (h : q.takeCollectBatch.1 = some ms) :
    ms = q.pending ∧ q.takeCollectBatch.2.pending = [] ∧
      q.takeCollectBatch.2.hasActiveRun = true := by
  unfold takeCollectBatch at h ⊢
  split at h
  · cases h
  · rename_i hp
    cases h
    simp [hp]

omit [AgentBody M] in
theorem takeCollectBatch_none {q : MessageQueue M} (h : q.takeCollectBatch.1 = none) :
    q.pending = [] ∧ q.takeCollectBatch.2.pending = [] ∧
      q.takeCollectBatch.2.hasActiveRun = false := by
  unfold takeCollectBatch at h ⊢
  split at h
  · rename_i hp
    simp_all
  · cases h

omit [AgentBody M] in
theorem takeSummaryPrompt_hasActiveRun (q : MessageQueue M) (noun : String) :
    (q.takeSummaryPrompt noun).2.hasActiveRun = q.hasActiveRun := by
  unfold takeSummaryPrompt
  split <;> rfl

omit [AgentBody M] in
theorem takeSummaryPrompt_pending (q : MessageQueue M) (noun : String) :
    (q.takeSummaryPrompt noun).2.pending = q.pending := by
  unfold takeSummaryPrompt
  split <;> rfl

/-- The part of the queue that only the setters change. -/
def settings (q : MessageQueue M) : QueueMode × ℕ × QueueDropPolicy :=
  (q.mode, q.cap, q.dropPolicy)

theorem dropOldest_settings (q : MessageQueue M) : q.dropOldest.settings = q.settings := by
  unfold dropOldest
  split
  · rfl
  · simp only
    split <;> rfl

theorem dropOldest_iterate_settings (n : ℕ) (q : MessageQueue M) :
    (dropOldest^[n] q).settings = q.settings := by
  induction n generalizing q with
  | zero => rfl
  | succ n ih => rw [Function.iterate_succ_apply, ih, dropOldest_settings]

theorem pushPending_settings (q : MessageQueue M) (ctx : M) (nowMs : ℕ) :
    (q.pushPending ctx nowMs).2.settings = q.settings := by
  unfold pushPending
  simp only
  split
  · split
    · rfl
    · exact dropOldest_iterate_settings (q.stamp nowMs).dropCount (q.stamp nowMs)
  · rfl

theorem enqueue_settings (q : MessageQueue M) (ctx : M) (nowMs : ℕ) :
    (q.enqueue ctx nowMs).2.settings = q.settings := by
  unfold enqueue
  split
  · rfl
  · split
    · rfl
    all_goals exact pushPending_settings q ctx nowMs

omit [AgentBody M] in
theorem completeAndTakeNext_settings (q : MessageQueue M) :
    q.completeAndTakeNext.2.settings = q.settings := by
  unfold completeAndTakeNext
  split <;> rfl

omit [AgentBody M] in
theorem takeCollectBatch_settings (q : MessageQueue M) :
    q.takeCollectBatch.2.settings = q.settings := by
  unfold takeCollectBatch
  split <;> rfl

omit [AgentBody M] in
theorem takeSummaryPrompt_settings (q : MessageQueue M) (noun : String) :
    (q.takeSummaryPrompt noun).2.settings = q.settings := by
  unfold takeSummaryPrompt
  split <;> rfl

/-- Queueing a message is refused: the queue is full and keeps what it has. -/
def refuses (q : MessageQueue M) : Bool :=
  q.isFull && decide (q.dropPolicy = .new)

/-- Number of oldest messages that a push lets go. -/
def overflow (q : MessageQueue M) : ℕ :=
  if q.isFull = true ∧ q.dropPolicy ≠ .new then q.dropCount else 0

theorem pushPending_pending (q : MessageQueue M) (ctx : M) (nowMs : ℕ) :
    (q.pushPending ctx nowMs).2.pending =
      q.pending.drop q.overflow ++ (if q.refuses = true then [] else [ctx]) := by
  have hfull : (q.stamp nowMs).isFull = q.isFull := rfl
  have hpolicy : (q.stamp nowMs).dropPolicy = q.dropPolicy := rfl
  have hcount : (q.stamp nowMs).dropCount = q.dropCount := rfl
  simp only [pushPending, overflow, refuses, hfull, hpolicy, hcount]
  by_cases h : q.isFull = true
  · by_cases hnew : q.dropPolicy = .new
    · simp [h, hnew, stamp]
    · simp [h, hnew, pushBack, dropOldest_iterate_pending, stamp]
  · simp [h, pushBack, stamp]

/-! ## §2  Accounting

A message leaves `pending` in one of three ways. `departures` says which
messages an operation lets go and why; the theorems below show that nothing
else leaves, that nothing leaves twice, and that departures are in queueing
order. -/

/-- The calls the accounting ranges over. -/
inductive Op (M : Type) : Type where
  | enqueue (ctx : M) (nowMs : ℕ)
  | completeAndTakeNext
  | takeCollectBatch
  | drain
  | markRunComplete
  | setCap (cap : ℕ)
  | setDropPolicy (policy : QueueDropPolicy)
  | setMode (mode : QueueMode)
  | takeSummaryPrompt (noun : String)

inductive Reply (M : Type) : Type where
  | action (a : QueueAction M)
  | next (m : Option M)
  | batch (ms : Option (List M))
  | drained (ms : List M)
  | prompt (p : Option String)
  | unit

/-- One call on the queue. -/
def call (q : MessageQueue M) : Op M → Reply M × MessageQueue M
  | .enqueue ctx nowMs => (q.enqueue ctx nowMs).map .action id
  | .completeAndTakeNext => q.completeAndTakeNext.map .next id
  | .takeCollectBatch => q.takeCollectBatch.map .batch id
  | .drain => q.drain.map .drained id
  | .markRunComplete => (.unit, q.markRunComplete)
  | .setCap cap => (.unit, q.setCap cap)
  | .setDropPolicy policy => (.unit, q.setDropPolicy policy)
  | .setMode mode => (.unit, q.setMode mode)
  | .takeSummaryPrompt noun => (q.takeSummaryPrompt noun).map .prompt id

/-- The message for which a call answered `Queued`, if it did. -/
def queuedBy (q : MessageQueue M) : Op M → List M
  | .enqueue ctx nowMs =>
      match (q.enqueue ctx nowMs).1 with
      | .queued => [ctx]
      | _ => []
  | _ => []

/-- The messages a call hands back to its caller from `pending`. -/
def returnedBy (q : MessageQueue M) (op : Op M) : List M :=
  match (q.call op).1 with
  | .next m => m.toList
  | .batch ms => ms.getD []
  | .drained ms => ms
  | _ => []

inductive Fate : Type where
  | returned
  | evicted
  | cleared
deriving DecidableEq

/-- The messages that leave `pending` during a call, oldest first: evicted by
the overflow of a push, cleared by an interrupting enqueue, or returned by a
take or drain. -/
def departures (q : MessageQueue M) : Op M → List (M × Fate)
  | .enqueue _ _ =>
      if q.hasActiveRun = false then []
      else if q.mode = .interrupt then q.pending.map (·, .cleared)
      else (q.pending.take q.overflow).map (·, .evicted)
  | .completeAndTakeNext => (q.pending.take 1).map (·, .returned)
  | .takeCollectBatch | .drain => q.pending.map (·, .returned)
  | _ => []

def returnedOnly (left : List (M × Fate)) : List M :=
  (left.filter (fun d => decide (d.2 = .returned))).map Prod.fst

/-- The call is an enqueue that answers `Queued` without storing its message:
the run is active, the mode queues, and a full queue drops the newcomer. -/
def dropsNewcomer (q : MessageQueue M) : Op M → Bool
  | .enqueue _ _ => q.hasActiveRun && decide (q.mode ≠ .interrupt) && q.refuses
  | _ => false

theorem enqueue_queueing {q : MessageQueue M} (hrun : q.hasActiveRun = true)
    (hmode : q.mode ≠ .interrupt) (ctx : M) (nowMs : ℕ) :
    q.enqueue ctx nowMs = (.queued, (q.pushPending ctx nowMs).2) := by
  unfold enqueue
  rw [if_neg (by simp [hrun])]
  cases h : q.mode with
  | interrupt => exact absurd h hmode
  | steer => rfl
  | followup => rfl
  | collect => rfl
  | steerBacklog => rfl

theorem enqueue_interrupt {q : MessageQueue M} (hrun : q.hasActiveRun = true)
    (hmode : q.mode = .interrupt) (ctx : M) (nowMs : ℕ) :
    q.enqueue ctx nowMs = (.interrupted ctx, { q with pending := [] }) := by
  unfold enqueue
  rw [if_neg (by simp [hrun])]
  simp [hmode]

theorem enqueue_idle {q : MessageQueue M} (hrun : q.hasActiveRun = false)
    (ctx : M) (nowMs : ℕ) :
    q.enqueue ctx nowMs = (.runNow ctx, { q with hasActiveRun := true }) := by
  unfold enqueue
  rw [if_pos hrun]

/-- One call: what was pending, with the message it claims to have queued, is
what departs followed by what is still pending. A call that drops the newcomer
falls one message short. -/
theorem call_pending (q : MessageQueue M) (op : Op M) :
    q.pending ++ (if q.dropsNewcomer op = true then [] else q.queuedBy op) =
      (q.departures op).map Prod.fst ++ (q.call op).2.pending := by
  cases op with
  | enqueue ctx nowMs =>
      cases hrun : q.hasActiveRun with
      | false => simp [queuedBy, departures, call, enqueue_idle hrun, hrun]
      | true =>
          by_cases hmode : q.mode = .interrupt
          · simp [queuedBy, departures, call, enqueue_interrupt hrun hmode, hrun, hmode,
              Function.comp_def]
          · -- a push evicts at the front and stores at the back, unless it refuses
            cases href : q.refuses with
            | true =>
                simp [departures, call, enqueue_queueing hrun hmode, hrun, hmode,
                  href, dropsNewcomer, pushPending_pending, Function.comp_def]
            | false =>
                simp only [queuedBy, departures, call, enqueue_queueing hrun hmode, hrun,
                  hmode, href, dropsNewcomer, pushPending_pending, Bool.and_false,
                  Bool.false_eq_true, if_false, Prod.map_snd, id_eq, List.map_map,
                  Function.comp_def, List.map_id', Bool.true_eq_false]
                rw [← List.append_assoc, List.take_append_drop]
  | completeAndTakeNext =>
      cases hp : q.pending with
      | nil => simp [queuedBy, departures, call, completeAndTakeNext, hp]
      | cons m rest => simp [queuedBy, departures, call, completeAndTakeNext, hp]
  | takeCollectBatch =>
      cases hp : q.pending with
      | nil => simp [queuedBy, departures, call, takeCollectBatch, hp]
      | cons m rest =>
          simp [queuedBy, departures, call, takeCollectBatch, hp, Function.comp_def]
  | drain => simp [queuedBy, departures, call, drain, Function.comp_def]
  | markRunComplete => simp [queuedBy, departures, call, markRunComplete]
  | setCap cap => simp [queuedBy, departures, call, setCap]
  | setDropPolicy policy => simp [queuedBy, departures, call, setDropPolicy]
  | setMode mode => simp [queuedBy, departures, call, setMode]
  | takeSummaryPrompt noun =>
      simp [queuedBy, departures, call, takeSummaryPrompt_pending]

omit [AgentBody M] in
theorem returnedOnly_append (xs ys : List (M × Fate)) :
    returnedOnly (xs ++ ys) = returnedOnly xs ++ returnedOnly ys := by
  simp [returnedOnly]

omit [AgentBody M] in
theorem returnedOnly_map_returned (ms : List M) :
    returnedOnly (ms.map (·, Fate.returned)) = ms := by
  induction ms with
  | nil => rfl
  | cons m ms ih => simpa [returnedOnly] using ih

omit [AgentBody M] in
theorem returnedOnly_map_of_ne {fate : Fate} (hne : fate ≠ .returned) (ms : List M) :
    returnedOnly (ms.map (·, fate)) = [] := by
  induction ms with
  | nil => rfl
  | cons m ms ih =>
      rw [List.map_cons, ← List.singleton_append, returnedOnly_append, ih]
      simp [returnedOnly, hne]

/-- One call hands back exactly the departures whose fate is `returned`. -/
theorem call_returned (q : MessageQueue M) (op : Op M) :
    q.returnedBy op = returnedOnly (q.departures op) := by
  cases op with
  | enqueue ctx nowMs =>
      simp only [returnedBy, call, Prod.map_fst, departures]
      split_ifs
      · rfl
      · exact (returnedOnly_map_of_ne (by decide) _).symm
      · exact (returnedOnly_map_of_ne (by decide) _).symm
  | completeAndTakeNext =>
      rw [departures, returnedOnly_map_returned]
      cases hp : q.pending with
      | nil => simp [returnedBy, call, completeAndTakeNext, hp]
      | cons m rest => simp [returnedBy, call, completeAndTakeNext, hp]
  | takeCollectBatch =>
      rw [departures, returnedOnly_map_returned]
      cases hp : q.pending with
      | nil => simp [returnedBy, call, takeCollectBatch, hp]
      | cons m rest => simp [returnedBy, call, takeCollectBatch, hp]
  | drain =>
      rw [departures, returnedOnly_map_returned]
      rfl
  | markRunComplete => rfl
  | setCap cap => rfl
  | setDropPolicy policy => rfl
  | setMode mode => rfl
  | takeSummaryPrompt noun => rfl

/-- What a sequence of calls has queued, handed back and let go so far. -/
structure Ledger (M : Type) : Type where
  queue : MessageQueue M
  queued : List M
  returned : List M
  left : List (M × Fate)

def Ledger.record (l : Ledger M) (op : Op M) : Ledger M where
  queue := (l.queue.call op).2
  queued := l.queued ++ l.queue.queuedBy op
  returned := l.returned ++ l.queue.returnedBy op
  left := l.left ++ l.queue.departures op

def ledger (q : MessageQueue M) (ops : List (Op M)) : Ledger M :=
  ops.foldl Ledger.record ⟨q, [], [], []⟩

theorem ledger_snoc (q : MessageQueue M) (ops : List (Op M)) (op : Op M) :
    ledger q (ops ++ [op]) = (ledger q ops).record op := by
  unfold ledger
  rw [List.foldl_append]
  rfl

/-- Every message queued so far, oldest first, has left with exactly one fate
or is still pending, and the messages handed back are the departures with fate
`returned`, in the same order. -/
def Accounted (q : MessageQueue M) (l : Ledger M) : Prop :=
  q.pending ++ l.queued = l.left.map Prod.fst ++ l.queue.pending ∧
    l.returned = returnedOnly l.left

/-- A call that answers `Queued` has stored its message at the back. -/
def Stores (q : MessageQueue M) (op : Op M) : Prop :=
  ∀ m ∈ q.queuedBy op, (q.call op).2.pending.getLast? = some m

/-- The accounting contract at every point of a sequence of calls. -/
def KeepsAccount (q : MessageQueue M) (ops : List (Op M)) : Prop :=
  (∀ pre post, ops = pre ++ post → Accounted q (ledger q pre)) ∧
    ∀ pre op post, ops = pre ++ op :: post → Stores (ledger q pre).queue op

theorem stores_of_not_dropsNewcomer {q : MessageQueue M} {op : Op M}
    (h : q.dropsNewcomer op = false) : Stores q op := by
  intro m hm
  cases op with
  | enqueue ctx nowMs =>
      cases hrun : q.hasActiveRun with
      | false => simp [queuedBy, enqueue_idle hrun] at hm
      | true =>
          by_cases hmode : q.mode = .interrupt
          · simp [queuedBy, enqueue_interrupt hrun hmode] at hm
          · have href : q.refuses = false := by
              simpa [dropsNewcomer, hrun, hmode] using h
            have hm' : m = ctx := by
              simpa [queuedBy, enqueue_queueing hrun hmode] using hm
            subst hm'
            simp [call, enqueue_queueing hrun hmode, pushPending_pending, href]
  | _ => simp [queuedBy] at hm

theorem dropsNewcomer_queuedBy {q : MessageQueue M} {op : Op M}
    (h : q.dropsNewcomer op = true) : ∃ m, q.queuedBy op = [m] := by
  cases op with
  | enqueue ctx nowMs =>
      simp only [dropsNewcomer, Bool.and_eq_true, decide_eq_true_eq] at h
      obtain ⟨⟨hrun, hmode⟩, -⟩ := h
      exact ⟨ctx, by simp [queuedBy, enqueue_queueing hrun hmode]⟩
  | _ => simp [dropsNewcomer] at h

theorem accounted_record {q : MessageQueue M} {l : Ledger M} {op : Op M}
    (hl : Accounted q l) (hop : l.queue.dropsNewcomer op = false) :
    Accounted q (l.record op) := by
  obtain ⟨hpend, hret⟩ := hl
  have hcall := call_pending l.queue op
  rw [if_neg (by simp [hop])] at hcall
  refine ⟨?_, ?_⟩
  · calc q.pending ++ (l.queued ++ l.queue.queuedBy op)
        = (q.pending ++ l.queued) ++ l.queue.queuedBy op := by rw [List.append_assoc]
      _ = l.left.map Prod.fst ++ (l.queue.pending ++ l.queue.queuedBy op) := by
          rw [hpend, List.append_assoc]
      _ = l.left.map Prod.fst ++
            ((l.queue.departures op).map Prod.fst ++ (l.queue.call op).2.pending) := by
          rw [hcall]
      _ = (l.left ++ l.queue.departures op).map Prod.fst ++
            (l.queue.call op).2.pending := by
          rw [List.map_append, List.append_assoc]
  · show l.returned ++ l.queue.returnedBy op = _
    rw [hret, call_returned, ← returnedOnly_append]
    rfl

/-- A dropped newcomer is on neither side of the account, so the account is one
message short from then on. -/
theorem not_accounted_record {q : MessageQueue M} {l : Ledger M} {op : Op M}
    (hl : Accounted q l) (hop : l.queue.dropsNewcomer op = true) :
    ¬ Accounted q (l.record op) := by
  rintro ⟨hpend', -⟩
  obtain ⟨m, hm⟩ := dropsNewcomer_queuedBy hop
  -- counting is enough: one message more on the left, none on the right
  have hcall := congrArg List.length (call_pending l.queue op)
  have hbefore := congrArg List.length hl.1
  have hafter := congrArg List.length hpend'
  simp only [Ledger.record, hm, List.length_append, List.length_map, List.length_cons,
    List.length_nil] at hafter
  simp only [hop, if_true, List.length_append, List.length_map, List.length_nil] at hcall
  simp only [List.length_append, List.length_map] at hbefore
  omega

theorem accounted_nil (q : MessageQueue M) : Accounted q (ledger q []) :=
  ⟨by simp [ledger], rfl⟩

theorem accounted_of_no_drop {q : MessageQueue M} : ∀ {ops : List (Op M)},
    (∀ pre op post, ops = pre ++ op :: post →
      (ledger q pre).queue.dropsNewcomer op = false) →
    Accounted q (ledger q ops) := by
  intro ops
  induction ops using List.reverseRecOn with
  | nil =>
      intro _
      exact accounted_nil q
  | append_singleton ops op ih =>
      intro h
      rw [ledger_snoc]
      apply accounted_record
      · apply ih
        intro pre op' post heq
        exact h pre op' (post ++ [op]) (by rw [heq]; simp)
      · exact h ops op [] (by simp)

/-- **Message accounting.** Along a sequence of calls on any queue the account
is kept at every point exactly when no enqueue of the sequence meets a full
queue whose policy drops the newcomer. -/
theorem keepsAccount_iff_no_newcomer_dropped (q : MessageQueue M) (ops : List (Op M)) :
    KeepsAccount q ops ↔
      ∀ pre op post, ops = pre ++ op :: post →
        (ledger q pre).queue.dropsNewcomer op = false := by
  constructor
  · intro h pre op post heq
    have hpre := h.1 pre (op :: post) heq
    have hop := h.1 (pre ++ [op]) post (by rw [heq]; simp)
    rw [ledger_snoc] at hop
    cases hdrop : (ledger q pre).queue.dropsNewcomer op with
    | false => rfl
    | true => exact absurd hop (not_accounted_record hpre hdrop)
  · intro h
    refine ⟨?_, ?_⟩
    · intro pre post heq
      apply accounted_of_no_drop
      intro pre' op' post' heq'
      exact h pre' op' (post' ++ post) (by rw [heq, heq']; simp)
    · intro pre op post heq
      exact stores_of_not_dropsNewcomer (h pre op post heq)

end MessageQueue

/-- A direct message with a given text, as a test channel builds it. -/
def sampleContext (text : String) : FinalizedMsgContext :=
  finalizeInboundContext
    { body := text, rawBody := none, from_ := "u", fromName := some "U", to_ := "chat"
      provider := "telegram", surface := some "telegram", chatType := .direct
      sessionKey := "s", messageId := none, threadId := none, wasMentioned := false
      mediaPaths := [], timestampMs := 0, raw := [] }

/-- Cap 1, policy `New`: the third enqueue answers `Queued` and stores nothing. -/
theorem full_queue_answers_queued_without_storing :
    ¬ MessageQueue.KeepsAccount (MessageQueue.new .followup)
      [.setCap 1, .setDropPolicy .new, .enqueue (sampleContext "a") 0,
        .enqueue (sampleContext "b") 0, .enqueue (sampleContext "c") 0] := by
  intro h
  have hstore := h.2
    [.setCap 1, .setDropPolicy .new, .enqueue (sampleContext "a") 0,
      .enqueue (sampleContext "b") 0]
    (.enqueue (sampleContext "c") 0) [] rfl (sampleContext "c") (by decide)
  exact absurd hstore (by decide)

end Oclaw.AutoReply
