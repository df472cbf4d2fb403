import Oclaw.Gateway.AnnounceQueue

/-!
# Drain tasks

The tasks that drain the queues, step by step, and what all of them do together. A queue
that is in the map has exactly one task, and the task finds its queue whenever it looks.
So two of the branches of the loop are never taken, and each queue can be seen as a line
of its own: the queue and the position of its task.
-/

namespace Oclaw.Gateway.Announce

open Oclaw.Lib

/-! ## §1  A drain task -/

/-- `i64::saturating_sub` -/
def satSub (a b : ℤ) : ℤ := max (-0x8000000000000000) (min 0x7FFFFFFFFFFFFFFF (a - b))

/-- `SUBAGENT_ANNOUNCE_IDEMPOTENCY_TTL_MS.max(SUBAGENT_ANNOUNCE_EXPIRY_MS)` -/
def deliveredTtlMs : ℤ := max (10 * 60000) (5 * 60000)

/-- `SUBAGENT_ANNOUNCE_DELIVERED` -/
abbrev Delivered : Type := HashMap String ℤ

/-- `sweep_subagent_announce_delivered_map` -/
def sweepDelivered (delivered : Delivered) (nowMs : ℤ) : Delivered :=
  delivered.retain (fun _ at' => decide (0 < at') && decide (satSub nowMs at' ≤ deliveredTtlMs))

/-- Where `run_subagent_announce_queue_drain` is between two critical sections. -/
inductive Stage : Type where
  | head
  /-- The guard was dropped, to be taken again for the removal. -/
  | relock
  /-- The sleep; the task may be resumed at any time after it. -/
  | choose (waitMs : ℤ)
  | sweep (payload : Payload)
  | look (payload : Payload)
  | send (payload : Payload)
  | markSweep (payload : Payload)
  | mark (payload : Payload)
  | settle (payload : Payload) (sendOk : Bool)
  | idle

def Payload.key (payload : Payload) : String := trim payload.item.runId

/-- The branches after `was_subagent_announce_delivered` returned false. -/
def Payload.deliver (payload : Payload) : Stage :=
  if payload.item.target.isSome then .send payload else .settle payload false

/-- A blank key is never delivered. -/
def Payload.ask (payload : Payload) : Stage :=
  if payload.key.isEmpty then payload.deliver else .sweep payload

def Payload.note (payload : Payload) : Stage :=
  if payload.key.isEmpty then .settle payload true else .markSweep payload

inductive Event : Type where
  | enqueue (key : String) (item : QueueItem) (policy : DropPolicy) (entered : Bool)
      (dropped : List QueueItem)
  /-- What is going to be sent stands for `chosen`, and reports `told` dropped items. -/
  | choose (key : String) (chosen : List QueueItem) (told : ℕ)
  | known (key : String) (payload : Payload)
  | send (key : String) (payload : Payload) (sent : Bool)
  | settle (key : String) (sendOk : Bool) (popped : List QueueItem) (forgotten : ℕ)
  | remove (key : String) (lost : List QueueItem)
  | internal (key : String)
deriving DecidableEq

def Event.key : Event → String
  | .enqueue key _ _ _ _ => key
  | .choose key _ _ => key
  | .known key _ => key
  | .send key _ _ => key
  | .settle key _ _ _ => key
  | .remove key _ => key
  | .internal key => key

/-- What one step of a task leaves: its queue, the delivered runs, and where it goes on. -/
structure Outcome : Type where
  event : Event
  queue : Option QueueState
  delivered : Delivered
  stage : Option Stage

section Task

variable (stamp : ℤ → Option String)

/-- How many dropped items the text reports. -/
def Payload.told (payload : Payload) (queue : QueueState) : ℕ :=
  if payload.clearSummary then queue.droppedCount else 0

def chooseStep (key : String) (queue : QueueState) (delivered : Delivered) : Outcome :=
  match queue.drainWork stamp with
  | none => ⟨.internal key, some queue, delivered, some .head⟩
  | some (.single payload) =>
      ⟨.choose key (queue.items.take payload.consumeCount) (payload.told queue), some queue,
        delivered, some payload.ask⟩
  | some (.collect payload) =>
      ⟨.choose key (queue.items.take payload.consumeCount) (payload.told queue), some queue,
        delivered, some payload.ask⟩
  | some .idle => ⟨.internal key, some queue, delivered, some .idle⟩

def settleEvent (key : String) (queue : QueueState) (payload : Payload) (sendOk : Bool) : Event :=
  if sendOk then .settle key true (queue.items.take payload.consumeCount) (payload.told queue)
  else .settle key false [] 0

def settleQueue (queue : QueueState) (nowMs : ℤ) (payload : Payload) (sendOk : Bool) :
    QueueState :=
  if sendOk then queue.consume payload else { queue with lastEnqueuedAtMs := nowMs }

/-- The last critical section of the loop. -/
def settleStep (key : String) (queue : QueueState) (delivered : Delivered) (nowMs : ℤ)
    (payload : Payload) (sendOk : Bool) : Outcome :=
  if (settleQueue queue nowMs payload sendOk).isDone then
    ⟨settleEvent key queue payload sendOk, none, delivered, none⟩
  else
    ⟨settleEvent key queue payload sendOk, some (settleQueue queue nowMs payload sendOk),
      delivered, some .head⟩

/-- One step of the drain task of `key`. `queue` is the entry of the map, and `sent` tells
whether `send_announce_to_target` succeeds. -/
def drainStep (key : String) (queue : Option QueueState) (delivered : Delivered)
    (nowMs : ℤ) (sent : Bool) : Stage → Outcome
  | .head =>
      match queue with
      | none => ⟨.internal key, none, delivered, none⟩
      | some queue =>
          if queue.isDone then ⟨.internal key, some queue, delivered, some .relock⟩
          else
            let debounceMs := max queue.debounceMs 0
            let since := satSub nowMs queue.lastEnqueuedAtMs
            let waitMs :=
              if 0 < debounceMs ∧ since < debounceMs then max (satSub debounceMs since) 1 else 0
            ⟨.internal key, some queue, delivered, some (.choose waitMs)⟩
  | .relock => ⟨.remove key ((queue.map QueueState.items).getD []), none, delivered, none⟩
  | .choose _ =>
      match queue with
      | none => ⟨.internal key, none, delivered, none⟩
      | some queue => chooseStep stamp key queue delivered
  | .sweep payload =>
      ⟨.internal key, queue, sweepDelivered delivered nowMs, some (.look payload)⟩
  | .look payload =>
      if (delivered.lookup payload.key).isSome then
        ⟨.known key payload, queue, delivered, some (.settle payload true)⟩
      else ⟨.internal key, queue, delivered, some payload.deliver⟩
  | .send payload =>
      ⟨.send key payload sent, queue, delivered,
        some (if sent then payload.note else .settle payload false)⟩
  | .markSweep payload =>
      ⟨.internal key, queue, sweepDelivered delivered nowMs, some (.mark payload)⟩
  | .mark payload =>
      ⟨.internal key, queue, delivered.insert payload.key nowMs, some (.settle payload true)⟩
  | .settle payload sendOk =>
      match queue with
      | none => ⟨.internal key, none, delivered, none⟩
      | some queue => settleStep key queue delivered nowMs payload sendOk
  | .idle => ⟨.remove key ((queue.map QueueState.items).getD []), none, delivered, none⟩

end Task

/-! ## §2  All the queues -/

/-- The statics, and the tasks that run: the queue each was spawned for and where it is. -/
structure World : Type where
  queues : HashMap String QueueState
  delivered : Delivered
  drains : ℕ → Option (String × Stage)

def World.init : World := ⟨∅, ∅, fun _ => none⟩

/-- Whose turn it is. `t` is the identity of the task in case one is spawned. -/
inductive Turn : Type where
  | enqueue (key : String) (item : QueueItem) (settings : QueueSettings) (nowMs : ℤ) (t : ℕ)
  | run (t : ℕ) (nowMs : ℤ) (sent : Bool)

/-- An entry of the map, new if there was none. -/
def World.entry (w : World) (key : String) (settings : QueueSettings) : QueueState :=
  (w.queues.lookup key).getD (.new settings)

/-- What `enqueue_subagent_announce` records of an item that comes in. -/
def enqueueEvent (key : String) (queue : QueueState) (item : QueueItem)
    (settings : QueueSettings) (nowMs : ℤ) : Event :=
  .enqueue key item settings.dropPolicy (queue.enqueue item settings nowMs).2
    (queue.items.take (queue.configure settings nowMs).overflow)

def QueueItem.withOrigin (item : QueueItem) : QueueItem :=
  { item with originKey := buildAnnounceOriginKey item.target }

/-- `enqueue_subagent_announce` -/
def World.enqueue (w : World) (key : String) (item : QueueItem) (settings : QueueSettings)
    (nowMs : ℤ) (t : ℕ) : World :=
  let queue := ((w.entry key settings).enqueue item.withOrigin settings nowMs).1
  if queue.draining then { w with queues := w.queues.insert key queue }
  else
    { w with
      queues := w.queues.insert key { queue with draining := true }
      drains := Function.update w.drains t (some (key, .head)) }

def World.settle (w : World) (t : ℕ) (key : String) (o : Outcome) : World where
  queues :=
    match o.queue with
    | some queue => w.queues.insert key queue
    | none => w.queues.erase key
  delivered := o.delivered
  drains := Function.update w.drains t (o.stage.map (fun st => (key, st)))

/-- The machine, labelled by the clock and what happened. -/
def World.next (stamp : ℤ → Option String) (w : World) : Turn → Option ((ℤ × Event) × World)
  | .enqueue key item settings nowMs t =>
      if w.drains t = none then
        some ((nowMs, enqueueEvent key (w.entry key settings) item.withOrigin settings nowMs),
          w.enqueue key item settings nowMs t)
      else none
  | .run t nowMs sent =>
      match w.drains t with
      | none => none
      | some (key, st) =>
          let o := drainStep stamp key (w.queues.lookup key) w.delivered nowMs sent st
          some ((nowMs, o.event), w.settle t key o)

def World.Step (stamp : ℤ → Option String) : World → ℤ × Event → World → Prop :=
  Induced (World.next stamp)

/-! ## §3  Each queue as a line of its own -/

/-- A queue and the position of the one task that drains it. -/
abbrev Line : Type := QueueState × Stage

structure Lines : Type where
  line : String → Option Line
  delivered : Delivered

def Lines.init : Lines := ⟨fun _ => none, ∅⟩

def Lines.set (a : Lines) (key : String) (l : Option Line) (delivered : Delivered) : Lines :=
  ⟨Function.update a.line key l, delivered⟩

/-- What may happen to the lines. -/
inductive Lines.Step (stamp : ℤ → Option String) : Lines → ℤ × Event → Lines → Prop where
  | opened {a : Lines} {key : String} {item : QueueItem} {settings : QueueSettings} {nowMs : ℤ}
      (hnone : a.line key = none) :
      Step stamp a (nowMs, enqueueEvent key (.new settings) item settings nowMs)
        (a.set key (some ({ ((QueueState.new settings).enqueue item settings nowMs).1 with
          draining := true }, .head)) a.delivered)
  | joined {a : Lines} {key : String} {item : QueueItem} {settings : QueueSettings} {nowMs : ℤ}
      {queue : QueueState} {st : Stage} (hsome : a.line key = some (queue, st)) :
      Step stamp a (nowMs, enqueueEvent key queue item settings nowMs)
        (a.set key (some ((queue.enqueue item settings nowMs).1, st)) a.delivered)
  | run {a : Lines} {key : String} {nowMs : ℤ} {sent : Bool} {queue : QueueState} {st : Stage}
      {o : Outcome} (hsome : a.line key = some (queue, st))
      (ho : drainStep stamp key (some queue) a.delivered nowMs sent st = o) :
      Step stamp a (nowMs, o.event)
        (a.set key (o.queue.bind (fun q => o.stage.map (fun s => (q, s)))) o.delivered)

/-- A queue in the map is drained, has something to send, and its task is not at the
second lock of the early removal. -/
structure Line.Live (l : Line) : Prop where
  draining : l.1.draining = true
  pending : l.1.isDone = false
  stage : l.2 ≠ .relock

def Lines.Live (a : Lines) : Prop := ∀ {key l}, a.line key = some l → Line.Live l

/-- The tasks and the map are those of the lines. -/
structure World.Serves (w : World) (a : Lines) : Prop where
  delivered : w.delivered = a.delivered
  queue : ∀ key, w.queues.lookup key = (a.line key).map Prod.fst
  task : ∀ {t key st}, w.drains t = some (key, st) → ∃ queue, a.line key = some (queue, st)
  alone : ∀ {t t' key st st'}, w.drains t = some (key, st) → w.drains t' = some (key, st') →
    t = t'
  present : ∀ {key queue st}, a.line key = some (queue, st) → ∃ t, w.drains t = some (key, st)

/-! ## §4  One task for each queue -/

section Serving

variable {stamp : ℤ → Option String} {w w' : World} {a a' : Lines} {key : String}
  {queue : QueueState} {st : Stage} {item : QueueItem} {settings : QueueSettings}
  {nowMs : ℤ} {sent : Bool} {delivered : Delivered} {payload : Payload} {t : ℕ}
  {e : ℤ × Event} {tr : List (ℤ × Event)}

@[simp] theorem QueueState.consume_draining :
    (queue.consume payload).draining = queue.draining := by
  unfold QueueState.consume
  dsimp only
  split <;> rfl

@[simp] theorem QueueState.consume_items :
    (queue.consume payload).items = queue.items.drop payload.consumeCount := by
  unfold QueueState.consume
  dsimp only
  split <;> rfl

theorem Payload.deliver_ne_relock : payload.deliver ≠ .relock := by
  unfold Payload.deliver
  split <;> simp

theorem Payload.ask_ne_relock : payload.ask ≠ .relock := by
  unfold Payload.ask
  split
  · exact Payload.deliver_ne_relock
  · simp

theorem Payload.note_ne_relock : payload.note ≠ .relock := by
  unfold Payload.note
  split <;> simp

theorem QueueState.isDone_of_items (h : queue.items ≠ []) : queue.isDone = false := by
  simp [QueueState.isDone, h]

/-- A step of the task of a live line ends the line, or leaves one that is live. -/
theorem drainStep_live {o : Outcome} (hlive : Line.Live (queue, st))
    (ho : drainStep stamp key (some queue) delivered nowMs sent st = o) :
    (o.queue = none ∧ o.stage = none) ∨
      ∃ q s, o.queue = some q ∧ o.stage = some s ∧ Line.Live (q, s) := by
  have keep {s : Stage} (hs : s ≠ .relock) : Line.Live (queue, s) :=
    ⟨hlive.draining, hlive.pending, hs⟩
  subst ho
  cases st with
  | relock => exact absurd rfl hlive.stage
  | idle => exact Or.inl ⟨rfl, rfl⟩
  | head =>
      have hpending : queue.isDone = false := hlive.pending
      simp only [drainStep, hpending, Bool.false_eq_true, if_false]
      exact Or.inr ⟨queue, _, rfl, rfl, keep (by simp)⟩
  | choose waitMs =>
      refine Or.inr ?_
      simp only [drainStep, chooseStep]
      cases hwork : queue.drainWork stamp with
      | none => exact ⟨queue, _, rfl, rfl, keep (by simp)⟩
      | some work =>
          cases work with
          | single p => exact ⟨queue, _, rfl, rfl, keep Payload.ask_ne_relock⟩
          | collect p => exact ⟨queue, _, rfl, rfl, keep Payload.ask_ne_relock⟩
          | idle => exact ⟨queue, _, rfl, rfl, keep (by simp)⟩
  | sweep p => exact Or.inr ⟨queue, _, rfl, rfl, keep (by simp)⟩
  | look p =>
      refine Or.inr ?_
      simp only [drainStep]
      split
      · exact ⟨queue, _, rfl, rfl, keep (by simp)⟩
      · exact ⟨queue, _, rfl, rfl, keep Payload.deliver_ne_relock⟩
  | send p =>
      refine Or.inr ⟨queue, _, rfl, rfl, keep ?_⟩
      cases sent
      · simp
      · exact Payload.note_ne_relock
  | markSweep p => exact Or.inr ⟨queue, _, rfl, rfl, keep (by simp)⟩
  | mark p => exact Or.inr ⟨queue, _, rfl, rfl, keep (by simp)⟩
  | settle p sendOk =>
      simp only [drainStep, settleStep]
      split
      · exact Or.inl ⟨rfl, rfl⟩
      · rename_i hdone
        refine Or.inr ⟨_, _, rfl, rfl, ⟨?_, by simpa using hdone, by simp⟩⟩
        have hdraining : queue.draining = true := hlive.draining
        cases sendOk <;> simp [settleQueue, hdraining]

theorem enqueue_live (h : queue.draining = true) (hst : st ≠ .relock) :
    Line.Live ((queue.enqueue item settings nowMs).1, st) :=
  ⟨by simpa using h, QueueState.isDone_of_items QueueState.enqueue_items_ne_nil, hst⟩

theorem Lines.Live.set {l : Option Line} (h : a.Live) (hl : ∀ x, l = some x → Line.Live x) :
    (a.set key l delivered).Live := by
  intro key' x hx
  by_cases heq : key' = key
  · subst heq
    exact hl x (by simpa [Lines.set] using hx)
  · exact h (by simpa [Lines.set, Function.update_of_ne heq] using hx)

theorem Lines.live_init : Lines.init.Live := by
  intro key l h
  cases h

theorem Lines.live_step (h : a.Live) (hstep : Lines.Step stamp a e a') : a'.Live := by
  cases hstep with
  | opened hnone =>
      refine h.set ?_
      rintro x ⟨⟩
      exact ⟨rfl, QueueState.isDone_of_items QueueState.enqueue_items_ne_nil, by simp⟩
  | joined hsome =>
      refine h.set ?_
      rintro x ⟨⟩
      exact enqueue_live (h hsome).draining (h hsome).stage
  | run hsome ho =>
      refine h.set ?_
      rcases drainStep_live (h hsome) ho with ⟨hq, -⟩ | ⟨q, s, hq, hs, hlive⟩
      · simp [hq]
      · rw [hq, hs]
        rintro x ⟨⟩
        exact hlive

namespace World.Serves

theorem init : World.init.Serves .init where
  delivered := rfl
  queue _ := rfl
  task h := by cases h
  alone h := by cases h
  present h := by cases h

/-- One line is changed together with its queue and its task. -/
theorem put (h : w.Serves a) {l : Option Line}
    (honly : ∀ {t' st}, w.drains t' = some (key, st) → t' = t)
    (hown : ∀ {k st}, w.drains t = some (k, st) → k = key)
    {queues : HashMap String QueueState}
    (hqueues : ∀ k, queues.lookup k = if k = key then l.map Prod.fst else w.queues.lookup k) :
    World.Serves ⟨queues, delivered, Function.update w.drains t (l.map (fun x => (key, x.2)))⟩
      (a.set key l delivered) := by
  have hdrains {t' : ℕ} {k : String} {st : Stage}
      (ht' : Function.update w.drains t (l.map (fun x => (key, x.2))) t' = some (k, st)) :
      (t' = t ∧ k = key ∧ ∃ queue, l = some (queue, st)) ∨
        (t' ≠ t ∧ k ≠ key ∧ w.drains t' = some (k, st)) := by
    by_cases heq : t' = t
    · subst heq
      rw [Function.update_self] at ht'
      obtain ⟨⟨queue, st'⟩, rfl, hx⟩ := Option.map_eq_some_iff.mp ht'
      cases hx
      exact Or.inl ⟨rfl, rfl, queue, rfl⟩
    · rw [Function.update_of_ne heq] at ht'
      refine Or.inr ⟨heq, ?_, ht'⟩
      rintro rfl
      exact heq (honly ht')
  refine ⟨rfl, ?_, ?_, ?_, ?_⟩
  · intro k
    by_cases hk : k = key
    · simp [hqueues, hk, Lines.set]
    · simp [hqueues, hk, Lines.set, h.queue]
  · intro t' k st ht'
    rcases hdrains ht' with ⟨-, rfl, queue, hl⟩ | ⟨-, hk, hold⟩
    · exact ⟨queue, by simp [Lines.set, hl]⟩
    · simpa [Lines.set, hk] using h.task hold
  · intro t₁ t₂ k st₁ st₂ h₁ h₂
    rcases hdrains h₁ with ⟨rfl, hk₁, -⟩ | ⟨-, hk₁, hold₁⟩ <;>
      rcases hdrains h₂ with ⟨rfl, hk₂, -⟩ | ⟨-, hk₂, hold₂⟩
    · rfl
    · exact absurd hk₁ hk₂
    · exact absurd hk₂ hk₁
    · exact h.alone hold₁ hold₂
  · intro k queue st hline
    by_cases hk : k = key
    · subst hk
      have hl : l = some (queue, st) := by simpa [Lines.set] using hline
      exact ⟨t, by simp [hl]⟩
    · obtain ⟨t', ht'⟩ := h.present (by simpa [Lines.set, hk] using hline)
      have hne : t' ≠ t := by
        rintro rfl
        exact hk (hown ht')
      exact ⟨t', by simpa [Function.update_of_ne hne] using ht'⟩

/-- The line whose task is at its turn is changed. -/
theorem putOf (h : w.Serves a) (ht : w.drains t = some (key, st)) {l : Option Line}
    {queues : HashMap String QueueState}
    (hqueues : ∀ k, queues.lookup k = if k = key then l.map Prod.fst else w.queues.lookup k) :
    World.Serves ⟨queues, delivered, Function.update w.drains t (l.map (fun x => (key, x.2)))⟩
      (a.set key l delivered) := by
  refine h.put (fun ht' => h.alone ht' ht) ?_ hqueues
  intro k st' ht'
  rw [ht] at ht'
  cases ht'
  rfl

end World.Serves

/-- Whatever the tasks and the callers do, the lines can do. -/
theorem World.Serves.step (h : w.Serves a) (hlive : a.Live) (hstep : World.Step stamp w e w') :
    ∃ a', Lines.Step stamp a e a' ∧ w'.Serves a' := by
  obtain ⟨turn, hnext⟩ := hstep
  cases turn with
  | enqueue key item settings nowMs t =>
      simp only [World.next] at hnext
      split at hnext
      · rename_i ht
        cases hnext
        have hqueue := h.queue key
        cases hline : a.line key with
        | none =>
            have hentry : w.entry key settings = .new settings := by
              simp [World.entry, hqueue, hline]
            have hopen : w.enqueue key item settings nowMs t =
                ⟨w.queues.insert key { ((QueueState.new settings).enqueue item.withOrigin
                  settings nowMs).1 with draining := true }, a.delivered,
                  Function.update w.drains t (some (key, .head))⟩ := by
              simp [World.enqueue, hentry, QueueState.new, h.delivered]
            rw [hentry, hopen]
            refine ⟨_, .opened hline, h.put (l := some (_, .head)) ?_ ?_
              (fun k => HashMap.lookup_insert_eq)⟩
            · intro t' st ht'
              obtain ⟨_, hsome⟩ := h.task ht'
              rw [hline] at hsome
              cases hsome
            · intro k st ht'
              rw [ht] at ht'
              cases ht'
        | some l =>
            obtain ⟨queue, st⟩ := l
            have hentry : w.entry key settings = queue := by
              simp [World.entry, hqueue, hline]
            obtain ⟨t', ht'⟩ := h.present hline
            have hdraining : queue.draining = true := (hlive hline).draining
            have hjoin : w.enqueue key item settings nowMs t =
                ⟨w.queues.insert key (queue.enqueue item.withOrigin settings nowMs).1,
                  a.delivered, Function.update w.drains t' (some (key, st))⟩ := by
              simp [World.enqueue, hentry, hdraining, ← h.delivered, ← ht']
            rw [hentry, hjoin]
            exact ⟨_, .joined hline,
              h.putOf ht' (l := some (_, st)) (fun k => HashMap.lookup_insert_eq)⟩
      · cases hnext
  | run t nowMs sent =>
      simp only [World.next] at hnext
      split at hnext
      · cases hnext
      · rename_i key st ht
        cases hnext
        obtain ⟨queue, hline⟩ := h.task ht
        have hlookup : w.queues.lookup key = some queue := by rw [h.queue, hline]; rfl
        rw [hlookup, h.delivered]
        generalize ho : drainStep stamp key (some queue) a.delivered nowMs sent st = o
        refine ⟨_, .run hline ho, ?_⟩
        rcases drainStep_live (hlive hline) ho with ⟨hq, hs⟩ | ⟨q, s, hq, hs, -⟩
        · simp only [World.settle, hq, hs]
          exact h.putOf ht (l := none) (fun k => HashMap.lookup_erase_eq)
        · simp only [World.settle, hq, hs]
          exact h.putOf ht (l := some (q, s)) (fun k => HashMap.lookup_insert_eq)

theorem World.lines_of_run (run : Runs (World.Step stamp) .init tr w) :
    ∃ a, Runs (Lines.Step stamp) .init tr a ∧ w.Serves a ∧ a.Live := by
  induction run with
  | nil => exact ⟨.init, .nil, .init, Lines.live_init⟩
  | snoc _ hstep ih =>
      obtain ⟨a, hrun, hserves, hlive⟩ := ih
      obtain ⟨a', hline, hserves'⟩ := hserves.step hlive hstep
      exact ⟨a', hrun.snoc hline, hserves', Lines.live_step hlive hline⟩

/-- A queue is in the map exactly as long as one task drains it, it has something to send
then, and the removal under a second guard at the head of the loop never happens. -/
theorem drains_served (run : Runs (World.Step stamp) .init tr w) :
    (∀ key, (∃ queue, w.queues.lookup key = some queue ∧ queue.draining = true ∧
        queue.isDone = false ∧ ∃! t, ∃ st, w.drains t = some (key, st)) ∨
      (w.queues.lookup key = none ∧ ∀ t st, w.drains t ≠ some (key, st))) ∧
    ∀ t key, w.drains t ≠ some (key, .relock) := by
  obtain ⟨a, -, hserves, hlive⟩ := World.lines_of_run run
  constructor
  · intro key
    cases hline : a.line key with
    | none =>
        refine Or.inr ⟨by simp [hserves.queue, hline], ?_⟩
        intro t st ht
        obtain ⟨queue, hsome⟩ := hserves.task ht
        rw [hline] at hsome
        cases hsome
    | some l =>
        obtain ⟨queue, st⟩ := l
        refine Or.inl ⟨queue, by simp [hserves.queue, hline], (hlive hline).draining,
          (hlive hline).pending, ?_⟩
        obtain ⟨t, ht⟩ := hserves.present hline
        exact ⟨t, ⟨st, ht⟩, fun t' ⟨st', ht'⟩ => hserves.alone ht' ht⟩
  · intro t key ht
    obtain ⟨queue, hline⟩ := hserves.task ht
    exact (hlive hline).stage rfl

end Serving

/-- One result that is announced at once. -/
def sampleTurns : List Turn :=
  .enqueue "main" ⟨"run-1", "done", none, 5, "main", some ⟨"telegram", "7", none, none⟩, none⟩
      ⟨.collect, 0, 20, .summarize⟩ 1000 0 ::
    List.replicate 8 (.run 0 1001 true)

theorem sampleTurns_run :
    (exec (World.next (fun _ => none)) .init sampleTurns).isSome = true := by
  decide

theorem sendingTurns_run :
    (exec (World.next (fun _ => none)) .init (sampleTurns.take 4)).isSome = true := by
  decide

/-- Where the message is on its way, the queue is there and has a task. -/
theorem drains_served_sample :
    ∃ tr w, Runs (World.Step (fun _ => none)) .init tr w ∧ w.queues.lookup "main" ≠ none ∧
      (∀ key, (∃ queue, w.queues.lookup key = some queue ∧ queue.draining = true ∧
          queue.isDone = false ∧ ∃! t, ∃ st, w.drains t = some (key, st)) ∨
        (w.queues.lookup key = none ∧ ∀ t st, w.drains t ≠ some (key, st))) ∧
      ∀ t key, w.drains t ≠ some (key, .relock) := by
  have hrun := runs_of_exec_isSome (sampleTurns.take 4) sendingTurns_run
  exact ⟨_, _, hrun, by decide, drains_served hrun⟩

end Oclaw.Gateway.Announce
