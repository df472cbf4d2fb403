import Oclaw.Lib.HashMap
import Oclaw.Lib.Text
import Oclaw.Lib.Transition

/-!
# The announce queues of finished subagents

Results of subagents are announced through one queue for each requester session. A task
that drains the queue is spawned by the first item; it waits out a debounce time, chooses
what to send under the lock, sends without the lock, and then takes the lock again to
remove as many items as it had chosen. Items come in at any time in between, and an item
that comes in above the cap pushes others out at the front.

Every critical section is one step here, and every task that runs has its own position,
so the runs are the interleavings of the callers and the drain tasks of all the queues.
-/

namespace Oclaw.Gateway.Announce

open Oclaw.Lib

/-! ## §1  Data -/

inductive QueueMode : Type where
  | steer
  | followup
  | collect
  | steerBacklog
  | interrupt

inductive DropPolicy : Type where
  | old
  | new
  | summarize
deriving DecidableEq

structure QueueSettings : Type where
  mode : QueueMode
  debounceMs : ℤ
  cap : ℕ
  dropPolicy : DropPolicy

structure AnnounceTarget : Type where
  channel : String
  toId : String
  accountId : Option String
  threadId : Option String
deriving DecidableEq

structure QueueItem : Type where
  runId : String
  prompt : String
  summaryLine : Option String
  enqueuedAtMs : ℤ
  sessionKey : String
  target : Option AnnounceTarget
  originKey : Option String
deriving DecidableEq

structure QueueState : Type where
  items : List QueueItem
  draining : Bool
  lastEnqueuedAtMs : ℤ
  mode : QueueMode
  debounceMs : ℤ
  cap : ℕ
  dropPolicy : DropPolicy
  droppedCount : ℕ
  summaryLines : List String

def QueueState.new (settings : QueueSettings) : QueueState where
  items := []
  draining := false
  lastEnqueuedAtMs := 0
  mode := settings.mode
  debounceMs := settings.debounceMs
  cap := settings.cap
  dropPolicy := settings.dropPolicy
  droppedCount := 0
  summaryLines := []

/-! ## §2  Texts -/

def buildAnnounceOriginKey : Option AnnounceTarget → Option String
  | none => none
  | some t =>
      some (toAsciiLowercase (trim t.channel) ++ "|" ++ toAsciiLowercase (trim t.toId) ++ "|" ++
        toAsciiLowercase (trim (t.accountId.getD "")) ++ "|" ++
        toAsciiLowercase (trim (t.threadId.getD "")))

def elideAnnounceText (text : String) (limit : ℕ) : String :=
  let trimmed := trim text
  if trimmed.toList.length ≤ limit then trimmed
  else String.ofList (trimmed.toList.take (limit - 1)) ++ "…"

def buildAnnounceSummaryLine (text : String) : String :=
  let compact := " ".intercalate ((splitWhitespace text.toList).map String.ofList)
  elideAnnounceText compact 160

def buildAnnounceQueueSummaryPrompt (queue : QueueState) : Option String :=
  if queue.dropPolicy ≠ .summarize ∨ queue.droppedCount = 0 then none
  else
    let first := "[Queue overflow] Dropped " ++ toString queue.droppedCount ++ " announce" ++
      (if queue.droppedCount = 1 then "" else "s") ++ " due to cap."
    let lines :=
      if queue.summaryLines.isEmpty then [first]
      else [first, "Summary:"] ++ queue.summaryLines.map (fun line => "- " ++ line)
    some ("\n".intercalate lines)

/-- One block of the prompt. `stamp` is `DateTime::from_timestamp_millis` with `to_rfc3339`. -/
def collectBlock (stamp : ℤ → Option String) (idx : ℕ) (item : QueueItem) : String :=
  let sourceSession := trim item.sessionKey
  let header := "Queued #" ++ toString (idx + 1) ++
    (if sourceSession.isEmpty then "" else " | source_session=" ++ sourceSession) ++
    (if 0 < item.enqueuedAtMs then
      match stamp item.enqueuedAtMs with
      | some ts => " | enqueued_at=" ++ ts
      | none => " | enqueued_at_ms=" ++ toString item.enqueuedAtMs
    else "")
  "---\n" ++ header ++ "\n" ++ item.prompt

def buildAnnounceCollectPrompt (stamp : ℤ → Option String) (items : List QueueItem)
    (summary : Option String) : Option String :=
  if items.isEmpty then none
  else
    let summaryBlock := ((summary.map trim).filter (fun v => !v.isEmpty)).toList
    some ("\n\n".intercalate
      (["[Queued announce messages while agent was busy]"] ++ summaryBlock ++
        items.mapIdx (collectBlock stamp)))

/-- The loop over the items, with the first key seen and whether one had none. -/
def crossChannelLoop : List QueueItem → Option String → Bool → Bool
  | [], seenKey, hasUnkeyed => seenKey.isSome && hasUnkeyed
  | item :: items, seenKey, hasUnkeyed =>
      match item.originKey with
      | some key =>
          match seenKey with
          | some existing =>
              if existing ≠ key then true else crossChannelLoop items seenKey hasUnkeyed
          | none => crossChannelLoop items (some key) hasUnkeyed
      | none => crossChannelLoop items seenKey true

def announceItemsCrossChannel (items : List QueueItem) : Bool :=
  crossChannelLoop items none false

/-! ## §3  Entering an item -/

namespace QueueState

def configure (queue : QueueState) (settings : QueueSettings) (nowMs : ℤ) : QueueState :=
  { queue with
    mode := settings.mode
    debounceMs := max settings.debounceMs 0
    cap := max settings.cap 1
    dropPolicy := settings.dropPolicy
    lastEnqueuedAtMs := nowMs }

/-- The line that stands for a dropped item in the summary. -/
def summaryOf (dropped : QueueItem) : String :=
  let summary := ((dropped.summaryLine.filter (fun v => !(trim v).isEmpty)).map trim).getD
    (trim dropped.prompt)
  buildAnnounceSummaryLine summary

/-- `for _ in 0..drop_count`: drop at the front, and take note under `summarize`. -/
def dropLoop : ℕ → QueueState → QueueState
  | 0, queue => queue
  | n + 1, queue =>
      match queue.items with
      | [] => dropLoop n queue
      | dropped :: items =>
          dropLoop n
            (if queue.dropPolicy = .summarize then
              { queue with
                items := items
                droppedCount := satAdd queue.droppedCount 1
                summaryLines := queue.summaryLines ++ [summaryOf dropped] }
            else { queue with items := items })

/-- `while lines.len() > cap`: remove the oldest line. -/
def trimLines (cap : ℕ) : List String → List String
  | [] => []
  | line :: lines => if cap < (line :: lines).length then trimLines cap lines else line :: lines

/-- How many items the next one pushes out. -/
def overflow (queue : QueueState) : ℕ :=
  if queue.dropPolicy ≠ .new ∧ queue.cap ≤ queue.items.length then
    queue.items.length - queue.cap + 1
  else 0

/-- The next one is refused. -/
def refuses (queue : QueueState) : Bool :=
  decide (queue.dropPolicy = .new ∧ queue.cap ≤ queue.items.length)

def makeRoom (queue : QueueState) : QueueState :=
  if queue.cap ≤ queue.items.length then
    match queue.dropPolicy with
    | .new => queue
    | .old | .summarize =>
        let queue := dropLoop (queue.items.length - queue.cap + 1) queue
        { queue with summaryLines := trimLines queue.cap queue.summaryLines }
  else queue

/-- The critical section of `enqueue_subagent_announce` up to the `draining` flag. -/
def enqueue (queue : QueueState) (item : QueueItem) (settings : QueueSettings) (nowMs : ℤ) :
    QueueState × Bool :=
  let queue := queue.configure settings nowMs
  if queue.refuses then (queue, false)
  else
    let queue := queue.makeRoom
    ({ queue with items := queue.items ++ [item] }, true)

end QueueState

/-! ## §4  Choosing what to send -/

/-- What `DrainWork::Single` and `DrainWork::Collect` carry. -/
structure Payload : Type where
  item : QueueItem
  prompt : String
  consumeCount : ℕ
  clearSummary : Bool
deriving DecidableEq

inductive DrainWork : Type where
  | single (payload : Payload)
  | collect (payload : Payload)
  | idle

namespace QueueState

def isDone (queue : QueueState) : Bool := queue.items.isEmpty && queue.droppedCount == 0

/-- The first item alone; a summary is sent in place of its prompt. -/
def singleWork (queue : QueueState) : DrainWork :=
  let summaryPrompt := buildAnnounceQueueSummaryPrompt queue
  match queue.items.head? with
  | some item => .single ⟨item, summaryPrompt.getD item.prompt, 1, summaryPrompt.isSome⟩
  | none => .idle

/-- `none` is the `continue` of the loop. -/
def drainWork (stamp : ℤ → Option String) (queue : QueueState) : Option DrainWork :=
  if queue.isDone then some .idle
  else
    match queue.mode with
    | .collect =>
        if announceItemsCrossChannel queue.items then some queue.singleWork
        else
          match queue.items.getLast? with
          | none => none
          | some last =>
              let summaryPrompt := buildAnnounceQueueSummaryPrompt queue
              let prompt := (buildAnnounceCollectPrompt stamp queue.items summaryPrompt).getD
                last.prompt
              some (.collect ⟨last, prompt, queue.items.length, summaryPrompt.isSome⟩)
    | _ => some queue.singleWork

/-- After a send that succeeded. -/
def consume (queue : QueueState) (payload : Payload) : QueueState :=
  let queue := { queue with items := queue.items.drop payload.consumeCount }
  if payload.clearSummary then { queue with droppedCount := 0, summaryLines := [] } else queue

/-! ## §5  What the operations do to the items -/

variable {queue : QueueState} {item : QueueItem} {settings : QueueSettings} {nowMs : ℤ} {n : ℕ}

@[simp] theorem configure_items : (queue.configure settings nowMs).items = queue.items := rfl

@[simp] theorem configure_draining :
    (queue.configure settings nowMs).draining = queue.draining := rfl

@[simp] theorem configure_dropPolicy :
    (queue.configure settings nowMs).dropPolicy = settings.dropPolicy := rfl

@[simp] theorem configure_droppedCount :
    (queue.configure settings nowMs).droppedCount = queue.droppedCount := rfl

theorem configure_cap_pos (queue : QueueState) (settings : QueueSettings) (nowMs : ℤ) :
    0 < (queue.configure settings nowMs).cap := by
  show 0 < max settings.cap 1
  omega

@[simp] theorem dropLoop_items : (dropLoop n queue).items = queue.items.drop n := by
  induction n generalizing queue with
  | zero => rfl
  | succ n ih =>
      cases hitems : queue.items with
      | nil => simp [dropLoop, hitems, ih]
      | cons dropped items =>
          simp only [dropLoop, hitems, ih]
          split <;> simp

@[simp] theorem dropLoop_draining : (dropLoop n queue).draining = queue.draining := by
  induction n generalizing queue with
  | zero => rfl
  | succ n ih =>
      cases hitems : queue.items with
      | nil => simp [dropLoop, hitems, ih]
      | cons dropped items =>
          simp only [dropLoop, hitems, ih]
          split <;> simp

@[simp] theorem makeRoom_items : queue.makeRoom.items = queue.items.drop queue.overflow := by
  unfold makeRoom overflow
  by_cases hfull : queue.cap ≤ queue.items.length
  · cases hpolicy : queue.dropPolicy <;> simp [hfull]
  · simp [hfull]

@[simp] theorem makeRoom_draining : queue.makeRoom.draining = queue.draining := by
  unfold makeRoom
  by_cases hfull : queue.cap ≤ queue.items.length
  · cases hpolicy : queue.dropPolicy <;> simp [hfull]
  · simp [hfull]

/-- Without an overflow nothing is noted either. -/
theorem makeRoom_of_overflow (h : queue.overflow = 0) : queue.makeRoom = queue := by
  unfold overflow at h
  unfold makeRoom
  by_cases hfull : queue.cap ≤ queue.items.length
  · cases hpolicy : queue.dropPolicy <;> simp_all
  · simp [hfull]

theorem overflow_of_refuses (h : queue.refuses = true) : queue.overflow = 0 := by
  have hrefuses := of_decide_eq_true h
  simp [overflow, hrefuses.1]

/-- An item comes in at the end, after those that it pushes out at the front have gone. -/
theorem enqueue_items :
    (queue.enqueue item settings nowMs).1.items =
      queue.items.drop (queue.configure settings nowMs).overflow ++
        if (queue.enqueue item settings nowMs).2 then [item] else [] := by
  unfold enqueue
  by_cases hrefuses : (queue.configure settings nowMs).refuses = true
  · simp [hrefuses, overflow_of_refuses hrefuses]
  · simp [hrefuses]

@[simp] theorem enqueue_draining :
    (queue.enqueue item settings nowMs).1.draining = queue.draining := by
  unfold enqueue
  by_cases hrefuses : (queue.configure settings nowMs).refuses = true <;> simp [hrefuses]

/-- Only a queue with items refuses one, so none is empty afterwards. -/
theorem enqueue_items_ne_nil : (queue.enqueue item settings nowMs).1.items ≠ [] := by
  unfold enqueue
  by_cases hrefuses : (queue.configure settings nowMs).refuses = true
  · have hfull := (of_decide_eq_true hrefuses).2
    have hcap := configure_cap_pos queue settings nowMs
    simp only [hrefuses, if_true]
    intro hnil
    rw [hnil] at hfull
    simp only [List.length_nil] at hfull
    omega
  · simp [hrefuses]

/-- What is reported as dropped stays the same when nothing is pushed out. -/
theorem enqueue_droppedCount (h : (queue.configure settings nowMs).overflow = 0) :
    (queue.enqueue item settings nowMs).1.droppedCount = queue.droppedCount := by
  unfold enqueue
  by_cases hrefuses : (queue.configure settings nowMs).refuses = true
  · simp [hrefuses]
  · simp [hrefuses, makeRoom_of_overflow h]

end QueueState

end Oclaw.Gateway.Announce
