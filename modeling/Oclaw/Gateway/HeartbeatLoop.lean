import Mathlib.Data.List.Sort
import Oclaw.Gateway.HeartbeatRunner
import Oclaw.Lib.HashMap
import Oclaw.Lib.Stutter
import Oclaw.Lib.Transition

/-!
# System events, wakes and the heartbeat loop

`crates/gateway-core/src/http.rs`: events are queued for a session, wakes for a target, and
the loop in the background takes the wakes, drains the session of each and hands the events
to one heartbeat tick. Requests come at any time, also between taking the wakes and draining
the sessions.
-/

namespace Oclaw.Gateway.Heartbeat

open Oclaw.Lib

/-! ## §1  System events -/

def mainSystemSessionKey : String := "main"

def maxSystemEvents : ℕ := 20

structure SystemEventEntry : Type where
  text : String
  ts : ℤ
  contextKey : Option String
deriving DecidableEq

structure SessionSystemEventQueue : Type where
  queue : List SystemEventEntry
  lastText : Option String
  lastContextKey : Option String

abbrev SystemEventQueues : Type := HashMap String SessionSystemEventQueue

def normalizeSystemSessionKey (raw : Option String) : String :=
  let trimmed := (raw.map trim).getD ""
  if trimmed = "" then mainSystemSessionKey else trimmed

def normalizeContextKey (raw : Option String) : Option String :=
  ((raw.map trim).filter (fun s => s ≠ "")).map toAsciiLowercase

def isSystemEventContextChanged (queues : SystemEventQueues) (sessionKey : String)
    (contextKey : Option String) : Bool :=
  let previous := (queues.lookup (normalizeSystemSessionKey (some sessionKey))).bind
    SessionSystemEventQueue.lastContextKey
  normalizeContextKey contextKey ≠ previous

/-- One more event, of a text that is not blank. -/
def SessionSystemEventQueue.push (q : SessionSystemEventQueue) (cleaned : String)
    (contextKey : Option String) (ts : ℤ) : SessionSystemEventQueue :=
  let q := { q with lastContextKey := contextKey }
  if q.lastText = some cleaned then q
  else
    let queue := q.queue ++ [⟨cleaned, ts, contextKey⟩]
    -- the oldest go while there are too many
    { q with lastText := some cleaned, queue := queue.rtake maxSystemEvents }

def enqueueSystemEventEntry (queues : SystemEventQueues) (sessionKey text : String)
    (contextKey : Option String) (ts : ℤ) : SystemEventQueues :=
  let session := normalizeSystemSessionKey (some sessionKey)
  let cleaned := trim text
  if cleaned = "" then queues
  else
    queues.insert session (((queues.lookup session).getD ⟨[], none, none⟩).push cleaned
      (normalizeContextKey contextKey) ts)

def drainSystemEventEntries (queues : SystemEventQueues) (sessionKey : String) :
    List SystemEventEntry × SystemEventQueues :=
  let session := normalizeSystemSessionKey (some sessionKey)
  match queues.lookup session with
  | none => ([], queues)
  | some q => (q.queue, queues.erase session)

/-! ## §2  Wakes -/

structure PendingHeartbeatWake : Type where
  reason : String
  priority : ℤ
  requestedAt : ℤ
  agentId : Option String
  sessionKey : Option String
deriving DecidableEq

abbrev PendingWakes : Type := HashMap String PendingHeartbeatWake

def normalizeWakeTarget (raw : Option String) : Option String :=
  (raw.map trim).filter (fun s => s ≠ "")

def normalizeWakeReason (raw : Option String) : String :=
  let trimmed := (raw.map trim).getD ""
  if trimmed = "" then "requested" else trimmed

def resolveWakeReasonKind (reason : String) : ReasonKind := resolveHeartbeatReasonKind (some reason)

def isActionWakeReason (reason : String) : Bool :=
  resolveWakeReasonKind reason ∈ [.manual, .execEvent, .hook]

def resolveWakeReasonPriority (reason : String) : ℤ :=
  match resolveWakeReasonKind reason with
  | .retry => 0
  | .interval => 1
  | _ => if isActionWakeReason reason then 3 else 2

def wakeTargetKey (agentId sessionKey : Option String) : String :=
  agentId.getD "" ++ "::" ++ sessionKey.getD ""

def PendingHeartbeatWake.key (w : PendingHeartbeatWake) : String :=
  wakeTargetKey w.agentId w.sessionKey

/-- What `queue_pending_heartbeat_wake` enters. -/
def newWake (reason agentId sessionKey : Option String) (nowMs : ℤ) : PendingHeartbeatWake :=
  let reason := normalizeWakeReason reason
  ⟨reason, resolveWakeReasonPriority reason, nowMs, normalizeWakeTarget agentId,
    normalizeWakeTarget sessionKey⟩

/-- `w` gives way to `w'`. -/
def PendingHeartbeatWake.YieldsTo (w w' : PendingHeartbeatWake) : Prop :=
  w.priority < w'.priority ∨ w.priority = w'.priority ∧ w.requestedAt ≤ w'.requestedAt

instance (w w' : PendingHeartbeatWake) : Decidable (w.YieldsTo w') :=
  inferInstanceAs (Decidable (_ ∨ _))

def queuePendingHeartbeatWake (wakes : PendingWakes) (next : PendingHeartbeatWake) :
    PendingWakes :=
  match wakes.lookup next.key with
  | some previous => if previous.YieldsTo next then wakes.insert next.key next else wakes
  | none => wakes.insert next.key next

/-- The order in which the wakes that were taken are served. -/
def PendingHeartbeatWake.Before (w w' : PendingHeartbeatWake) : Prop :=
  w'.priority < w.priority ∨ w'.priority = w.priority ∧ w.requestedAt ≤ w'.requestedAt

instance (w w' : PendingHeartbeatWake) : Decidable (w.Before w') :=
  inferInstanceAs (Decidable (_ ∨ _))

/-- `take_pending_heartbeat_wakes`, for the order in which the map gives its values. -/
def sortWakes (values : List PendingHeartbeatWake) : List PendingHeartbeatWake :=
  values.insertionSort PendingHeartbeatWake.Before

/-! ## §3  The loop -/

/-- Where the loop is. `left` are wakes that were taken and not served. -/
inductive LoopStage : Type where
  | waiting
  | checking
  | serving (left : List PendingHeartbeatWake)
  | ticking (wake : PendingHeartbeatWake) (left : List PendingHeartbeatWake)
  | interval
deriving DecidableEq

structure Heartbeats : Type where
  queues : SystemEventQueues
  wakes : PendingWakes
  enabled : Bool
  stage : LoopStage

def Heartbeats.init : Heartbeats := ⟨∅, ∅, true, .waiting⟩

inductive HeartbeatAct : Type where
  | event (sessionKey text : String) (contextKey : Option String) (ts : ℤ)
  | wake (reason agentId sessionKey : Option String) (nowMs : ℤ)
  | setEnabled (enabled : Bool)
  /-- A tick of the interval; `values` is the order in which the map of wakes iterates. -/
  | poll (values : List PendingHeartbeatWake)
  | serve
  | ticked (ok : Bool) (nowMs : ℤ)
  /-- `should_tick` has answered. -/
  | due (yes : Bool)
  | intervalTicked

/-- What a step shows. -/
inductive HeartbeatEv : Type where
  | idle
  | said (session text : String) (contextKey : Option String)
  | asked (wake : PendingHeartbeatWake)
  | took (wakes : List PendingHeartbeatWake)
  | served (wake : PendingHeartbeatWake) (events : List SystemEventEntry)
  | interval (events : List SystemEventEntry)
deriving DecidableEq

/-- The stage after a wake is served. -/
def LoopStage.next : List PendingHeartbeatWake → LoopStage
  | [] => .waiting
  | left => .serving left

def Heartbeats.step (h : Heartbeats) : HeartbeatAct → Option (HeartbeatEv × Heartbeats)
  | .event sessionKey text contextKey ts =>
      let queues := enqueueSystemEventEntry h.queues sessionKey text contextKey ts
      let cleaned := trim text
      some (if cleaned = "" then .idle
        else .said (normalizeSystemSessionKey (some sessionKey)) cleaned
          (normalizeContextKey contextKey), { h with queues := queues })
  | .wake reason agentId sessionKey nowMs =>
      let next := newWake reason agentId sessionKey nowMs
      some (.asked next, { h with wakes := queuePendingHeartbeatWake h.wakes next })
  | .setEnabled enabled => some (.idle, { h with enabled := enabled })
  | .poll values =>
      if h.stage ≠ .waiting then none
      else if !h.enabled then some (.idle, h)
      else if ¬ values.Perm (h.wakes.toPairs.map Prod.snd) then none
      else
        let taken := sortWakes values
        some (.took taken, { h with
          wakes := ∅
          stage := if taken.isEmpty then .checking else .serving taken })
  | .serve =>
      match h.stage with
      | .serving (wake :: left) =>
          let (events, queues) := drainSystemEventEntries h.queues
            (wake.sessionKey.getD mainSystemSessionKey)
          some (.served wake events, { h with queues := queues, stage := .ticking wake left })
      | _ => none
  | .ticked ok nowMs =>
      match h.stage with
      | .ticking wake left =>
          if ok then some (.idle, { h with stage := .next left })
          else
            let next := newWake (some "retry") wake.agentId wake.sessionKey nowMs
            some (.asked next, { h with
              wakes := queuePendingHeartbeatWake h.wakes next
              stage := .next left })
      | _ => none
  | .due yes =>
      match h.stage with
      | .checking =>
          if yes then
            let (events, queues) := drainSystemEventEntries h.queues mainSystemSessionKey
            some (.interval events, { h with queues := queues, stage := .interval })
          else some (.idle, { h with stage := .waiting })
      | _ => none
  | .intervalTicked =>
      match h.stage with
      | .interval => some (.idle, { h with stage := .waiting })
      | _ => none

abbrev HeartbeatStep : Heartbeats → HeartbeatEv → Heartbeats → Prop := Induced Heartbeats.step

/-- The session that a step drained, and what it got. -/
def HeartbeatEv.drained : HeartbeatEv → Option (String × List SystemEventEntry)
  | .served wake events =>
      some (normalizeSystemSessionKey (some (wake.sessionKey.getD mainSystemSessionKey)), events)
  | .interval events => some (normalizeSystemSessionKey (some mainSystemSessionKey), events)
  | _ => none

/-- What a session was told since it was last drained. -/
def saidSince (session : String) (tr : List HeartbeatEv) : List (String × Option String) :=
  tr.foldl (fun said e =>
    match e with
    | .said s text contextKey => if s = session then said ++ [(text, contextKey)] else said
    | e =>
        match e.drained with
        | some (s, _) => if s = session then [] else said
        | none => said) []

/-! ## §4  The queues -/

/-- The events of a stream that a queue holds: no event repeats the text of the one before,
and only the last ones are kept. -/
def windowOf (said : List (String × Option String)) : List (String × Option String) :=
  (said.destutter (fun x y => x.1 ≠ y.1)).rtake maxSystemEvents

/-- A queue has what the session was told. -/
structure SessionSystemEventQueue.Holds (q : SessionSystemEventQueue)
    (said : List (String × Option String)) : Prop where
  nonempty : said ≠ []
  queue : q.queue.map (fun e => (e.text, e.contextKey)) = windowOf said
  lastText : q.lastText = said.getLast?.map Prod.fst
  lastContextKey : q.lastContextKey = said.getLast?.bind Prod.snd

/-- What the queue of a session has, if there is one. -/
def Told (queues : SystemEventQueues) (session : String) (said : List (String × Option String)) :
    Prop :=
  match queues.lookup session with
  | none => said = []
  | some q => q.Holds said

section Queues

variable {queues : SystemEventQueues} {q : SessionSystemEventQueue}
  {said : List (String × Option String)} {session sessionKey text cleaned : String}
  {contextKey : Option String} {ts : ℤ} {tr : List HeartbeatEv} {h : Heartbeats}

theorem windowOf_concat (e : String × Option String) : windowOf (said ++ [e]) =
    if said.getLast?.map Prod.fst = some e.1 then windowOf said
    else (windowOf said ++ [e]).rtake maxSystemEvents := by
  unfold windowOf
  rw [destutter_concat (f := Prod.fst)]
  split
  · rfl
  · rw [rtake_rtake_concat]

theorem SessionSystemEventQueue.Holds.push (h : q.Holds said) :
    (q.push cleaned contextKey ts).Holds (said ++ [(cleaned, contextKey)]) := by
  unfold SessionSystemEventQueue.push
  simp only
  by_cases hrepeat : q.lastText = some cleaned
  · rw [if_pos hrepeat]
    refine ⟨by simp, ?_, by simp [hrepeat], by simp⟩
    rw [windowOf_concat, if_pos (by rw [← h.lastText, hrepeat])]
    exact h.queue
  · rw [if_neg hrepeat]
    refine ⟨by simp, ?_, by simp, by simp⟩
    rw [windowOf_concat, if_neg (by rw [← h.lastText]; exact hrepeat), ← h.queue]
    simp [List.rtake, List.map_drop]

theorem holds_first : (SessionSystemEventQueue.push ⟨[], none, none⟩ cleaned contextKey ts).Holds
    [(cleaned, contextKey)] :=
  ⟨by simp, by simp [SessionSystemEventQueue.push, windowOf, List.rtake], rfl, rfl⟩

theorem told_enqueue (h : Told queues session said) (htext : trim text ≠ "") :
    Told (enqueueSystemEventEntry queues sessionKey text contextKey ts) session
      (if normalizeSystemSessionKey (some sessionKey) = session then
        said ++ [(trim text, normalizeContextKey contextKey)] else said) := by
  unfold enqueueSystemEventEntry Told at *
  simp only [if_neg htext, HashMap.lookup_insert_eq]
  by_cases hsession : normalizeSystemSessionKey (some sessionKey) = session
  · subst hsession
    simp only [if_true]
    cases hq : queues.lookup (normalizeSystemSessionKey (some sessionKey)) with
    | none =>
        rw [hq] at h
        rw [h]
        exact holds_first
    | some q =>
        rw [hq] at h
        exact h.push
  · rw [if_neg (fun heq => hsession heq.symm), if_neg hsession]
    exact h

theorem told_drain (h : Told queues session said) :
    Told (drainSystemEventEntries queues sessionKey).2 session
      (if normalizeSystemSessionKey (some sessionKey) = session then [] else said) := by
  unfold drainSystemEventEntries
  cases hq : queues.lookup (normalizeSystemSessionKey (some sessionKey)) with
  | none =>
      simp only [hq]
      split
      · rename_i hsession
        subst hsession
        unfold Told
        rw [hq]
      · exact h
  | some q =>
      simp only [hq]
      unfold Told at *
      rw [HashMap.lookup_erase_eq]
      by_cases hsession : normalizeSystemSessionKey (some sessionKey) = session
      · rw [if_pos hsession.symm, if_pos hsession]
      · rw [if_neg (fun heq => hsession heq.symm), if_neg hsession]
        exact h

/-- A drain gives what the session was told. -/
theorem drained_told (h : Told queues (normalizeSystemSessionKey (some sessionKey)) said) :
    (drainSystemEventEntries queues sessionKey).1.map (fun e => (e.text, e.contextKey)) =
      windowOf said := by
  unfold drainSystemEventEntries Told at *
  cases hq : queues.lookup (normalizeSystemSessionKey (some sessionKey)) with
  | none =>
      simp only [hq] at h ⊢
      rw [h]
      rfl
  | some q =>
      simp only [hq] at h ⊢
      exact h.queue

theorem saidSince_snoc (e : HeartbeatEv) : saidSince session (tr ++ [e]) =
    match e with
    | .said s text contextKey =>
        if s = session then saidSince session tr ++ [(text, contextKey)] else saidSince session tr
    | e =>
        match e.drained with
        | some (s, _) => if s = session then [] else saidSince session tr
        | none => saidSince session tr := by
  rw [saidSince, List.foldl_append]
  rfl

end Queues

end Oclaw.Gateway.Heartbeat
