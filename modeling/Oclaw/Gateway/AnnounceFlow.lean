import Oclaw.Gateway.AnnounceDrain

/-!
# What becomes of an announcement

Items leave a queue in the order in which they came. What a round removes is counted, not
named: as many items as were chosen go from the front. So each item that the cap pushes
out while a message is on its way lets the round remove one that came in later and that
nobody has sent. Rounds without such an overflow remove just what they sent.
-/

namespace Oclaw.Gateway.Announce

open Oclaw.Lib

variable {stamp : ℤ → Option String} {w w' : World} {a a' : Lines} {key : String}
  {queue : QueueState} {st : Stage} {item : QueueItem} {settings : QueueSettings}
  {nowMs : ℤ} {sent : Bool} {delivered : Delivered} {payload p : Payload}
  {e : ℤ × Event} {tr pre mid post : List (ℤ × Event)} {o : Outcome}

/-! ## §1  In and out -/

def Event.accepted (key : String) : Event → List QueueItem
  | .enqueue k item _ true _ => if k = key then [item] else []
  | _ => []

/-- The items that the cap pushed out. -/
def Event.pushedOut (key : String) : Event → List QueueItem
  | .enqueue k _ _ _ dropped => if k = key then dropped else []
  | _ => []

/-- The items that left in whatever way. -/
def Event.left (key : String) : Event → List QueueItem
  | .enqueue k _ _ _ dropped => if k = key then dropped else []
  | .settle k _ popped _ => if k = key then popped else []
  | .remove k lost => if k = key then lost else []
  | _ => []

def acceptedLog (key : String) (tr : List (ℤ × Event)) : List QueueItem :=
  tr.flatMap (fun e => e.2.accepted key)

def pushedOutLog (key : String) (tr : List (ℤ × Event)) : List QueueItem :=
  tr.flatMap (fun e => e.2.pushedOut key)

def leftLog (key : String) (tr : List (ℤ × Event)) : List QueueItem :=
  tr.flatMap (fun e => e.2.left key)

def Lines.items (a : Lines) (key : String) : List QueueItem :=
  ((a.line key).map (fun l => l.1.items)).getD []

def World.items (w : World) (key : String) : List QueueItem :=
  ((w.queues.lookup key).map QueueState.items).getD []

@[simp] theorem acceptedLog_append :
    acceptedLog key (tr ++ post) = acceptedLog key tr ++ acceptedLog key post :=
  List.flatMap_append

@[simp] theorem leftLog_append :
    leftLog key (tr ++ post) = leftLog key tr ++ leftLog key post :=
  List.flatMap_append

@[simp] theorem pushedOutLog_append :
    pushedOutLog key (tr ++ post) = pushedOutLog key tr ++ pushedOutLog key post :=
  List.flatMap_append

theorem acceptedLog_singleton : acceptedLog key [e] = e.2.accepted key := by
  simp [acceptedLog]

theorem leftLog_singleton : leftLog key [e] = e.2.left key := by
  simp [leftLog]

theorem pushedOutLog_singleton : pushedOutLog key [e] = e.2.pushedOut key := by
  simp [pushedOutLog]

theorem Event.accepted_of_ne (h : e.2.key ≠ key) : e.2.accepted key = [] := by
  obtain ⟨nowMs, ev⟩ := e
  cases ev with
  | enqueue k item policy entered dropped =>
      cases entered
      · rfl
      · simp [Event.accepted, show k ≠ key from h]
  | _ => rfl

theorem Event.left_of_ne (h : e.2.key ≠ key) : e.2.left key = [] := by
  obtain ⟨nowMs, ev⟩ := e
  cases ev with
  | enqueue k _ _ _ _ => simp [Event.left, show k ≠ key from h]
  | settle k _ _ _ => simp [Event.left, show k ≠ key from h]
  | remove k _ => simp [Event.left, show k ≠ key from h]
  | _ => rfl

@[simp] theorem Lines.set_line_self {l : Option Line} :
    (a.set key l delivered).line key = l := by
  simp [Lines.set]

theorem Lines.set_line_of_ne {key' : String} {l : Option Line} (h : key' ≠ key) :
    (a.set key l delivered).line key' = a.line key' := by
  simp [Lines.set, h]

theorem Lines.items_set_of_ne {key' : String} {l : Option Line} (h : key' ≠ key) :
    (a.set key l delivered).items key' = a.items key' := by
  simp [Lines.items, Lines.set_line_of_ne h]

theorem World.Serves.items (h : w.Serves a) : w.items key = a.items key := by
  rw [World.items, Lines.items, h.queue]
  cases a.line key <;> rfl

/-- An item that comes in is the last, and it pushes items out at the front. -/
theorem enqueueEvent_items :
    queue.items ++ (enqueueEvent key queue item settings nowMs).accepted key =
      (enqueueEvent key queue item settings nowMs).left key ++
        (queue.enqueue item settings nowMs).1.items := by
  rw [QueueState.enqueue_items]
  cases hentered : (queue.enqueue item settings nowMs).2 <;>
    simp [enqueueEvent, Event.accepted, Event.left, hentered, ← List.append_assoc]

/-- No item is accepted by a drain task, and those that leave it leave at the front. -/
theorem drainStep_items (ho : drainStep stamp key (some queue) delivered nowMs sent st = o) :
    o.event.key = key ∧ o.event.accepted key = [] ∧ o.event.pushedOut key = [] ∧
      queue.items = o.event.left key ++ (o.queue.map QueueState.items).getD [] := by
  subst ho
  cases st with
  | head =>
      simp only [drainStep]
      split <;> exact ⟨rfl, rfl, rfl, rfl⟩
  | relock => simp [drainStep, Event.key, Event.accepted, Event.pushedOut, Event.left]
  | choose waitMs =>
      simp only [drainStep, chooseStep]
      split <;> exact ⟨rfl, rfl, rfl, rfl⟩
  | sweep p => exact ⟨rfl, rfl, rfl, rfl⟩
  | look p =>
      simp only [drainStep]
      split <;> exact ⟨rfl, rfl, rfl, rfl⟩
  | send p => exact ⟨rfl, rfl, rfl, rfl⟩
  | markSweep p => exact ⟨rfl, rfl, rfl, rfl⟩
  | mark p => exact ⟨rfl, rfl, rfl, rfl⟩
  | settle p sendOk =>
      have hevent : (settleEvent key queue p sendOk).key = key ∧
          (settleEvent key queue p sendOk).accepted key = [] ∧
          (settleEvent key queue p sendOk).pushedOut key = [] := by
        unfold settleEvent
        split <;> exact ⟨rfl, rfl, rfl⟩
      have hitems : queue.items = (settleEvent key queue p sendOk).left key ++
          (settleQueue queue nowMs p sendOk).items := by
        cases sendOk <;> simp [settleEvent, settleQueue, Event.left]
      simp only [drainStep, settleStep]
      split
      · rename_i hdone
        have hnil : (settleQueue queue nowMs p sendOk).items = [] := by
          simp only [QueueState.isDone, Bool.and_eq_true, List.isEmpty_iff] at hdone
          exact hdone.1
        rw [hnil] at hitems
        exact ⟨hevent.1, hevent.2.1, hevent.2.2, hitems⟩
      · exact ⟨hevent.1, hevent.2.1, hevent.2.2, hitems⟩
  | idle => simp [drainStep, Event.key, Event.accepted, Event.pushedOut, Event.left]

theorem items_step (hlive : a.Live) (hstep : Lines.Step stamp a e a') :
    a.items key ++ e.2.accepted key = e.2.left key ++ a'.items key := by
  have other {k : String} {l : Option Line} {d : Delivered} (hk : e.2.key = k)
      (hne : key ≠ k) :
      a.items key ++ e.2.accepted key = e.2.left key ++ (a.set k l d).items key := by
    rw [Event.accepted_of_ne (hk ▸ hne.symm), Event.left_of_ne (hk ▸ hne.symm),
      Lines.items_set_of_ne hne]
    simp
  cases hstep with
  | @opened k item settings nowMs hnone =>
      by_cases hk : key = k
      · subst hk
        have hnil : a.items key = (QueueState.new settings).items := by
          simp [Lines.items, hnone, QueueState.new]
        rw [hnil, enqueueEvent_items]
        simp [Lines.items]
      · exact other rfl hk
  | @joined k item settings nowMs queue st hsome =>
      by_cases hk : key = k
      · subst hk
        have hqueue : a.items key = queue.items := by simp [Lines.items, hsome]
        rw [hqueue, enqueueEvent_items]
        simp [Lines.items]
      · exact other rfl hk
  | @run k nowMs sent queue st o hsome ho =>
      obtain ⟨hevent, haccepted, -, hitems⟩ := drainStep_items ho
      by_cases hk : key = k
      · subst hk
        have hqueue : a.items key = queue.items := by simp [Lines.items, hsome]
        rw [hqueue, haccepted, List.append_nil, hitems]
        rcases drainStep_live (hlive hsome) ho with ⟨hq, hs⟩ | ⟨q, s, hq, hs, -⟩ <;>
          simp [Lines.items, hq, hs]
      · exact other hevent hk

theorem Lines.live_of_run (run : Runs (Lines.Step stamp) .init tr a) : a.Live :=
  run.state_invariant (P := Lines.Live) Lines.live_init (fun h hstep => Lines.live_step h hstep)

/-- Nothing is duplicated or reordered: what was accepted is what left, in this order,
followed by what is there. -/
theorem Lines.conserved (run : Runs (Lines.Step stamp) .init tr a) :
    acceptedLog key tr = leftLog key tr ++ a.items key := by
  induction run with
  | nil => rfl
  | snoc run hstep ih =>
      rw [acceptedLog_append, leftLog_append, acceptedLog_singleton, leftLog_singleton, ih,
        List.append_assoc, List.append_assoc, items_step (Lines.live_of_run run) hstep]

/-! ## §2  Rounds -/

/-- The payload of a round that is under way. -/
def Stage.payload? : Stage → Option Payload
  | .sweep p => some p
  | .look p => some p
  | .send p => some p
  | .markSweep p => some p
  | .mark p => some p
  | .settle p _ => some p
  | _ => none

/-- The message of this round is delivered. -/
def Stage.arrived : Stage → Bool
  | .markSweep _ => true
  | .mark _ => true
  | .settle _ sendOk => sendOk
  | _ => false

/-- A step that begins or ends a round of this queue. -/
def Event.turns (key : String) : Event → Bool
  | .choose k _ _ => k == key
  | .settle k _ _ _ => k == key
  | .remove k _ => k == key
  | _ => false

/-- The last message of this queue that was sent or found to be delivered. -/
def Event.arrives (key : String) : Event → Option QueueItem
  | .send k p true => if k = key then some p.item else none
  | .known k p => if k = key then some p.item else none
  | _ => none

/-- A round is open: what it was opened for and what it reported. -/
structure Round (key : String) (tr : List (ℤ × Event)) (chosen : List QueueItem) (told : ℕ)
    (pre mid : List (ℤ × Event)) : Prop where
  split : ∃ nowMs, tr = pre ++ (nowMs, .choose key chosen told) :: mid
  quiet : ∀ x ∈ mid, x.2.turns key = false
  nonempty : chosen ≠ []
  front : chosen = ((acceptedLog key pre).drop (leftLog key pre).length).take chosen.length

/-- What the task knows of the round that is open. -/
structure Serving (key : String) (chosen : List QueueItem) (told : ℕ) (mid : List (ℤ × Event))
    (queue : QueueState) (st : Stage) (p : Payload) : Prop where
  count : p.consumeCount = chosen.length
  item : p.item ∈ chosen
  told : pushedOutLog key mid = [] → p.told queue = told
  arrived : st.arrived = true → ∃ x ∈ mid, x.2.arrives key = some p.item

theorem Event.left_of_turns (h : e.2.turns key = false) : e.2.left key = e.2.pushedOut key := by
  obtain ⟨nowMs, ev⟩ := e
  cases ev with
  | settle k sendOk popped forgotten =>
      have hk : k ≠ key := by simpa [Event.turns] using h
      simp [Event.left, Event.pushedOut, hk]
  | remove k lost =>
      have hk : k ≠ key := by simpa [Event.turns] using h
      simp [Event.left, Event.pushedOut, hk]
  | _ => rfl

/-- Between the turns items leave by overflow only. -/
theorem leftLog_of_quiet (h : ∀ x ∈ mid, x.2.turns key = false) :
    leftLog key mid = pushedOutLog key mid := by
  induction mid with
  | nil => rfl
  | cons x mid ih =>
      have hx := Event.left_of_turns (h x (by simp))
      have hmid := ih (fun y hy => h y (by simp [hy]))
      simp only [leftLog, pushedOutLog] at hmid ⊢
      rw [List.flatMap_cons, List.flatMap_cons, hx, hmid]

theorem Event.turns_of_ne (h : e.2.key ≠ key) : e.2.turns key = false := by
  obtain ⟨nowMs, ev⟩ := e
  cases ev with
  | choose k _ _ => simpa [Event.turns] using show k ≠ key from h
  | settle k _ _ _ => simpa [Event.turns] using show k ≠ key from h
  | remove k _ => simpa [Event.turns] using show k ≠ key from h
  | _ => rfl

theorem Round.snoc {chosen : List QueueItem} {told : ℕ} (h : Round key tr chosen told pre mid)
    (he : e.2.turns key = false) : Round key (tr ++ [e]) chosen told pre (mid ++ [e]) := by
  obtain ⟨⟨nowMs, rfl⟩, hquiet, hne, hfront⟩ := h
  refine ⟨⟨nowMs, by simp⟩, ?_, hne, hfront⟩
  intro x hx
  rcases List.mem_append.mp hx with hx | hx
  · exact hquiet x hx
  · rw [List.mem_singleton.mp hx]
    exact he

theorem Event.pushedOut_of_ne (h : e.2.key ≠ key) : e.2.pushedOut key = [] := by
  rw [← Event.left_of_turns (Event.turns_of_ne h), Event.left_of_ne h]

/-- What is chosen is at the front, and stands in the message under the last one's name. -/
structure QueueState.Chosen (queue : QueueState) (p : Payload) : Prop where
  pos : 0 < p.consumeCount
  le : p.consumeCount ≤ queue.items.length
  item : p.item ∈ queue.items.take p.consumeCount
  clear : p.clearSummary = true ↔ queue.dropPolicy = .summarize ∧ queue.droppedCount ≠ 0

theorem summaryPrompt_isSome : (buildAnnounceQueueSummaryPrompt queue).isSome = true ↔
    queue.dropPolicy = .summarize ∧ queue.droppedCount ≠ 0 := by
  unfold buildAnnounceQueueSummaryPrompt
  split
  · rename_i h
    rcases h with h | h <;> simp [h]
  · rename_i h
    simpa [not_or] using h

theorem QueueState.singleWork_chosen (h : queue.singleWork = .single p ∨
    queue.singleWork = .collect p) : queue.Chosen p := by
  unfold QueueState.singleWork at h
  cases hhead : queue.items.head? with
  | none => simp [hhead] at h
  | some item =>
      obtain ⟨items, hitems⟩ := List.head?_eq_some_iff.mp hhead
      simp only [hhead, DrainWork.single.injEq, reduceCtorEq, or_false] at h
      subst h
      exact ⟨Nat.one_pos, by simp [hitems], by simp [hitems], summaryPrompt_isSome⟩

theorem QueueState.drainWork_chosen {work : DrainWork} (h : queue.drainWork stamp = some work)
    (hp : work = .single p ∨ work = .collect p) : queue.Chosen p := by
  unfold QueueState.drainWork at h
  split at h
  · cases h
    simp at hp
  · split at h
    · split at h
      · cases h
        exact QueueState.singleWork_chosen hp
      · split at h
        · cases h
        · rename_i last hlast
          cases h
          simp only [DrainWork.collect.injEq, reduceCtorEq, false_or] at hp
          subst hp
          have hmem : last ∈ queue.items := List.mem_of_getLast? hlast
          exact ⟨List.length_pos_of_mem hmem, le_refl _, by simpa using hmem,
            summaryPrompt_isSome⟩
    · cases h
      exact QueueState.singleWork_chosen hp

@[simp] theorem Payload.deliver_payload? : p.deliver.payload? = some p := by
  unfold Payload.deliver
  split <;> rfl

@[simp] theorem Payload.ask_payload? : p.ask.payload? = some p := by
  unfold Payload.ask
  split
  · exact Payload.deliver_payload?
  · rfl

@[simp] theorem Payload.note_payload? : p.note.payload? = some p := by
  unfold Payload.note
  split <;> rfl

@[simp] theorem Payload.deliver_arrived : p.deliver.arrived = false := by
  unfold Payload.deliver
  split <;> rfl

@[simp] theorem Payload.ask_arrived : p.ask.arrived = false := by
  unfold Payload.ask
  split
  · exact Payload.deliver_arrived
  · rfl

/-- A payload on its way has just been chosen, or was on its way before. -/
theorem drainStep_payload {q : QueueState} {s : Stage}
    (ho : drainStep stamp key (some queue) delivered nowMs sent st = o)
    (hq : o.queue = some q) (hs : o.stage = some s) (hp : s.payload? = some p) :
    q = queue ∧
      ((queue.Chosen p ∧ s.arrived = false ∧
          o.event = .choose key (queue.items.take p.consumeCount) (p.told queue)) ∨
        (st.payload? = some p ∧ o.event.turns key = false ∧
          (s.arrived = true → st.arrived = true ∨ o.event.arrives key = some p.item))) := by
  subst ho
  cases st with
  | head =>
      simp only [drainStep] at hs
      split at hs <;> (cases hs; cases hp)
  | relock => cases hs
  | choose waitMs =>
      simp only [drainStep, chooseStep] at hq hs ⊢
      cases hwork : queue.drainWork stamp with
      | none =>
          simp only [hwork] at hs
          cases hs
          cases hp
      | some work =>
          cases work with
          | single p' =>
              simp only [hwork, Option.some.injEq] at hq hs ⊢
              subst hq hs
              simp only [Payload.ask_payload?, Option.some.injEq] at hp
              subst hp
              exact ⟨rfl, Or.inl ⟨QueueState.drainWork_chosen hwork (Or.inl rfl),
                Payload.ask_arrived, rfl⟩⟩
          | collect p' =>
              simp only [hwork, Option.some.injEq] at hq hs ⊢
              subst hq hs
              simp only [Payload.ask_payload?, Option.some.injEq] at hp
              subst hp
              exact ⟨rfl, Or.inl ⟨QueueState.drainWork_chosen hwork (Or.inr rfl),
                Payload.ask_arrived, rfl⟩⟩
          | idle =>
              simp only [hwork] at hs
              cases hs
              cases hp
  | sweep p' =>
      cases hq
      cases hs
      exact ⟨rfl, Or.inr ⟨hp, rfl, fun h => by cases h⟩⟩
  | look p' =>
      simp only [drainStep] at hq hs ⊢
      split at hs
      · rename_i hknown
        rw [if_pos hknown] at hq ⊢
        cases hq
        cases hs
        cases hp
        exact ⟨rfl, Or.inr ⟨rfl, rfl, fun _ => Or.inr (by simp [Event.arrives])⟩⟩
      · rename_i hnew
        rw [if_neg hnew] at hq ⊢
        cases hq
        cases hs
        rw [Payload.deliver_payload?] at hp
        cases hp
        exact ⟨rfl, Or.inr ⟨rfl, rfl, fun h => by simp at h⟩⟩
  | send p' =>
      cases hq
      cases hs
      cases sent with
      | true =>
          have hp' : p' = p := by simpa using hp
          subst hp'
          exact ⟨rfl, Or.inr ⟨rfl, rfl, fun _ => Or.inr (by simp [drainStep, Event.arrives])⟩⟩
      | false => exact ⟨rfl, Or.inr ⟨hp, rfl, fun h => by cases h⟩⟩
  | markSweep p' =>
      cases hq
      cases hs
      exact ⟨rfl, Or.inr ⟨hp, rfl, fun _ => Or.inl rfl⟩⟩
  | mark p' =>
      cases hq
      cases hs
      exact ⟨rfl, Or.inr ⟨hp, rfl, fun _ => Or.inl rfl⟩⟩
  | settle p' sendOk =>
      simp only [drainStep, settleStep] at hs
      split at hs
      · cases hs
      · cases hs
        cases hp
  | idle => cases hs

/-- Every round that is under way is open in the trace. -/
def Tracked (tr : List (ℤ × Event)) (a : Lines) : Prop :=
  ∀ key queue st p, a.line key = some (queue, st) → st.payload? = some p →
    ∃ chosen told pre mid, Round key tr chosen told pre mid ∧
      Serving key chosen told mid queue st p

theorem QueueState.overflow_of_take (h : queue.items.take
    (queue.configure settings nowMs).overflow = []) :
    (queue.configure settings nowMs).overflow = 0 := by
  rcases List.take_eq_nil_iff.mp h with h | hnil
  · exact h
  · have hcap := QueueState.configure_cap_pos queue settings nowMs
    have hshort : ¬ (queue.configure settings nowMs).cap ≤
        (queue.configure settings nowMs).items.length := by
      simp only [QueueState.configure_items, hnil, List.length_nil]
      omega
    exact if_neg (fun hfull => hshort hfull.2)

/-- The chosen items are the oldest of those that are there. -/
theorem Round.begin (run : Runs (Lines.Step stamp) .init tr a)
    (hsome : a.line key = some (queue, st)) (hchosen : queue.Chosen p) :
    Round key (tr ++ [(nowMs, .choose key (queue.items.take p.consumeCount) (p.told queue))])
      (queue.items.take p.consumeCount) (p.told queue) tr [] := by
  have hitems : a.items key = queue.items := by simp [Lines.items, hsome]
  have hlength : (queue.items.take p.consumeCount).length = p.consumeCount := by
    rw [List.length_take, Nat.min_eq_left hchosen.le]
  refine ⟨⟨nowMs, rfl⟩, by simp, List.ne_nil_of_mem hchosen.item, ?_⟩
  rw [Lines.conserved run, List.drop_left, hitems, hlength]

theorem tracked_step (run : Runs (Lines.Step stamp) .init tr a) (h : Tracked tr a)
    (hstep : Lines.Step stamp a e a') : Tracked (tr ++ [e]) a' := by
  -- the other lines, and their rounds, are as before
  have other {k : String} {l : Option Line} {d : Delivered} (hk : e.2.key = k) {key : String}
      (hne : key ≠ k) {q : QueueState} {s : Stage} {p : Payload}
      (hline : (a.set k l d).line key = some (q, s)) (hp : s.payload? = some p) :
      ∃ chosen told pre mid, Round key (tr ++ [e]) chosen told pre mid ∧
        Serving key chosen told mid q s p := by
    rw [Lines.set_line_of_ne hne] at hline
    obtain ⟨chosen, told, pre, mid, hround, hserving⟩ := h key q s p hline hp
    have hek : e.2.key ≠ key := hk ▸ hne.symm
    refine ⟨chosen, told, pre, _, hround.snoc (Event.turns_of_ne hek), hserving.count,
      hserving.item, ?_, ?_⟩
    · rw [pushedOutLog_append, pushedOutLog_singleton, Event.pushedOut_of_ne hek,
        List.append_nil]
      exact hserving.told
    · intro harrived
      obtain ⟨x, hx, hitem⟩ := hserving.arrived harrived
      exact ⟨x, List.mem_append_left _ hx, hitem⟩
  intro key q s p hline hp
  cases hstep with
  | @opened k item settings nowMs hnone =>
      by_cases hk : key = k
      · subst hk
        rw [Lines.set_line_self] at hline
        cases hline
        cases hp
      · exact other rfl hk hline hp
  | @joined k item settings nowMs queue st hsome =>
      by_cases hk : key = k
      · subst hk
        rw [Lines.set_line_self] at hline
        cases hline
        obtain ⟨chosen, told, pre, mid, hround, hserving⟩ := h key queue s p hsome hp
        refine ⟨chosen, told, pre, _, hround.snoc rfl, hserving.count, hserving.item, ?_, ?_⟩
        · intro hnone
          rw [pushedOutLog_append, List.append_eq_nil_iff, pushedOutLog_singleton] at hnone
          have hoverflow : (queue.configure settings nowMs).overflow = 0 :=
            QueueState.overflow_of_take (by simpa [enqueueEvent, Event.pushedOut] using hnone.2)
          rw [← hserving.told hnone.1]
          simp only [Payload.told, QueueState.enqueue_droppedCount hoverflow]
        · intro harrived
          obtain ⟨x, hx, hitem⟩ := hserving.arrived harrived
          exact ⟨x, List.mem_append_left _ hx, hitem⟩
      · exact other rfl hk hline hp
  | @run k nowMs sent queue st o hsome ho =>
      obtain ⟨hevent, -, hpushed, -⟩ := drainStep_items ho
      by_cases hk : key = k
      · subst hk
        rw [Lines.set_line_self] at hline
        obtain ⟨q', hq, hline⟩ := Option.bind_eq_some_iff.mp hline
        obtain ⟨s', hs, hline⟩ := Option.map_eq_some_iff.mp hline
        cases hline
        obtain ⟨rfl, ⟨hchosen, harrived, hchoose⟩ | ⟨hbefore, hturns, harrived⟩⟩ :=
          drainStep_payload ho hq hs hp
        · rw [hchoose]
          refine ⟨_, _, tr, [], Round.begin run hsome hchosen, ?_, hchosen.item,
            fun _ => rfl, ?_⟩
          · rw [List.length_take, Nat.min_eq_left hchosen.le]
          · rw [harrived]
            simp
        · obtain ⟨chosen, told, pre, mid, hround, hserving⟩ := h key q st p hsome hbefore
          refine ⟨chosen, told, pre, _, hround.snoc hturns, hserving.count, hserving.item, ?_, ?_⟩
          · rw [pushedOutLog_append, pushedOutLog_singleton, hpushed, List.append_nil]
            exact hserving.told
          · intro hnow
            rcases harrived hnow with hbefore' | hitem
            · obtain ⟨x, hx, hitem⟩ := hserving.arrived hbefore'
              exact ⟨x, List.mem_append_left _ hx, hitem⟩
            · exact ⟨(nowMs, o.event), List.mem_append_right _ (by simp), hitem⟩
      · exact other hevent hk hline hp

theorem Lines.tracked_of_run (run : Runs (Lines.Step stamp) .init tr a) : Tracked tr a := by
  induction run with
  | nil =>
      intro key queue st p hline
      cases hline
  | snoc run hstep ih => exact tracked_step run ih hstep

/-- The end of a round: all that the task removes was chosen or came in since. -/
theorem settle_inv {popped : List QueueItem} {forgotten : ℕ}
    (hstep : Lines.Step stamp a (nowMs, .settle key true popped forgotten) a') :
    ∃ queue p, a.line key = some (queue, .settle p true) ∧
      popped = queue.items.take p.consumeCount ∧ forgotten = p.told queue := by
  generalize he : (nowMs, Event.settle key true popped forgotten) = e at hstep
  cases hstep with
  | opened hnone => cases he
  | joined hsome => cases he
  | @run k now sent queue st o hsome ho =>
      have hev : o.event = .settle key true popped forgotten := (congrArg Prod.snd he).symm
      obtain ⟨hkey, -⟩ := drainStep_items ho
      rw [hev] at hkey
      obtain rfl : key = k := hkey
      subst ho
      cases st with
      | settle p sendOk =>
          cases sendOk with
          | true =>
              refine ⟨queue, p, hsome, ?_⟩
              simp only [drainStep, settleStep, settleEvent] at hev
              split at hev <;> (cases hev; exact ⟨rfl, rfl⟩)
          | false =>
              simp only [drainStep, settleStep, settleEvent] at hev
              split at hev <;> cases hev
      | head =>
          simp only [drainStep] at hev
          split at hev <;> cases hev
      | choose waitMs =>
          simp only [drainStep, chooseStep] at hev
          split at hev <;> cases hev
      | look p =>
          simp only [drainStep] at hev
          split at hev <;> cases hev
      | _ => cases hev

theorem Lines.settled_counted {popped : List QueueItem} {forgotten : ℕ}
    (run : Runs (Lines.Step stamp) .init
      (tr ++ (nowMs, .settle key true popped forgotten) :: post) a) :
    ∃ chosen told pre mid, Round key tr chosen told pre mid ∧
      (∃ x ∈ mid, ∃ item ∈ chosen, x.2.arrives key = some item) ∧
      popped = ((acceptedLog key tr).drop
        ((leftLog key pre).length + (pushedOutLog key mid).length)).take chosen.length ∧
      (pushedOutLog key mid = [] → forgotten = told) := by
  obtain ⟨b, b', hrun, hstep⟩ := run.step_at
  obtain ⟨queue, p, hsome, hpopped, hforgotten⟩ := settle_inv hstep
  obtain ⟨chosen, told, pre, mid, hround, hserving⟩ :=
    Lines.tracked_of_run hrun key queue _ p hsome rfl
  refine ⟨chosen, told, pre, mid, hround, ?_, ?_, fun hnone => ?_⟩
  · obtain ⟨x, hx, hitem⟩ := hserving.arrived rfl
    exact ⟨x, hx, p.item, hserving.item, hitem⟩
  · have hitems : b.items key = queue.items := by simp [Lines.items, hsome]
    have hleft : (leftLog key tr).length =
        (leftLog key pre).length + (pushedOutLog key mid).length := by
      obtain ⟨now, hsplit⟩ := hround.split
      have hmid : leftLog key ((now, .choose key chosen told) :: mid) = pushedOutLog key mid := by
        rw [← leftLog_of_quiet hround.quiet]
        simp [leftLog, Event.left]
      rw [hsplit, leftLog_append, List.length_append, hmid]
    rw [hpopped, ← hleft, Lines.conserved hrun, List.drop_left, hitems, hserving.count]
  · rw [hforgotten, hserving.told hnone]

/-- Items leave a queue in the order in which they came in. A round whose message was
delivered removes as many as it had chosen, beginning behind those that the cap pushed
out meanwhile. -/
theorem settles_counted (run : Runs (World.Step stamp) .init tr w) :
    (∀ key, acceptedLog key tr = leftLog key tr ++ w.items key) ∧
    ∀ key before nowMs popped forgotten post,
      tr = before ++ (nowMs, .settle key true popped forgotten) :: post →
      ∃ chosen told pre mid, Round key before chosen told pre mid ∧
        (∃ x ∈ mid, ∃ item ∈ chosen, x.2.arrives key = some item) ∧
        popped = ((acceptedLog key before).drop
          ((leftLog key pre).length + (pushedOutLog key mid).length)).take chosen.length := by
  obtain ⟨a, hrun, hserves, -⟩ := World.lines_of_run run
  constructor
  · intro key
    rw [hserves.items]
    exact Lines.conserved hrun
  · rintro key before nowMs popped forgotten post rfl
    obtain ⟨chosen, told, pre, mid, hround, harrives, hpopped, -⟩ := Lines.settled_counted hrun
    exact ⟨chosen, told, pre, mid, hround, harrives, hpopped⟩

theorem settles_counted_sample :
    ∃ tr w, Runs (World.Step (fun _ => none)) .init tr w ∧ (leftLog "main" tr).length = 1 ∧
      (∀ key, acceptedLog key tr = leftLog key tr ++ w.items key) ∧
      ∀ key before nowMs popped forgotten post,
        tr = before ++ (nowMs, .settle key true popped forgotten) :: post →
        ∃ chosen told pre mid, Round key before chosen told pre mid ∧
          (∃ x ∈ mid, ∃ item ∈ chosen, x.2.arrives key = some item) ∧
          popped = ((acceptedLog key before).drop
            ((leftLog key pre).length + (pushedOutLog key mid).length)).take chosen.length := by
  have hrun := runs_of_exec_isSome sampleTurns sampleTurns_run
  exact ⟨_, _, hrun, by decide, settles_counted hrun⟩

end Oclaw.Gateway.Announce
