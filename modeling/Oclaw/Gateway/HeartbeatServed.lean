import Oclaw.Gateway.HeartbeatLoop

/-!
# What the heartbeat loop serves

A drained session hands over exactly what it was told since it was last drained, without
repeats and at most the last twenty; so events go to one tick at most, and a tick that fails
does not hand them to the next. A wake that was asked for is pending, or waits to be served,
or was served, if not itself then one for the same target that it gave way to.
-/

namespace Oclaw.Gateway.Heartbeat

open Oclaw.Lib

/-! ## §1  Events -/

section Events

variable {h h' : Heartbeats} {e : HeartbeatEv} {tr tr' : List HeartbeatEv}

/-- What a step does to the queues. -/
inductive QueueMove (queues : SystemEventQueues) : HeartbeatEv → SystemEventQueues → Prop where
  | said (sessionKey text : String) (contextKey : Option String) (ts : ℤ) : trim text ≠ "" →
      QueueMove queues
        (.said (normalizeSystemSessionKey (some sessionKey)) (trim text)
          (normalizeContextKey contextKey))
        (enqueueSystemEventEntry queues sessionKey text contextKey ts)
  | drained {e : HeartbeatEv} (sessionKey : String) :
      e.drained = some (normalizeSystemSessionKey (some sessionKey),
        (drainSystemEventEntries queues sessionKey).1) →
      QueueMove queues e (drainSystemEventEntries queues sessionKey).2
  | still {e : HeartbeatEv} : (∀ tr s, saidSince s (tr ++ [e]) = saidSince s tr) →
      e.drained = none → QueueMove queues e queues

theorem queueMove_of_step (hstep : HeartbeatStep h e h') : QueueMove h.queues e h'.queues := by
  obtain ⟨a, hstep⟩ := hstep
  cases a with
  | event sessionKey text contextKey ts =>
      cases hstep
      by_cases htext : trim text = ""
      · rw [if_pos htext, enqueueSystemEventEntry, if_pos htext]
        exact .still (fun _ _ => saidSince_snoc _) rfl
      · rw [if_neg htext]
        exact .said sessionKey text contextKey ts htext
  | wake reason agentId sessionKey nowMs =>
      cases hstep
      exact .still (fun _ _ => saidSince_snoc _) rfl
  | setEnabled enabled =>
      cases hstep
      exact .still (fun _ _ => saidSince_snoc _) rfl
  | poll values =>
      simp only [Heartbeats.step] at hstep
      split at hstep
      · cases hstep
      · split at hstep
        · cases hstep
          exact .still (fun _ _ => saidSince_snoc _) rfl
        · split at hstep
          · cases hstep
          · cases hstep
            exact .still (fun _ _ => saidSince_snoc _) rfl
  | serve =>
      simp only [Heartbeats.step] at hstep
      split at hstep
      · cases hstep
        exact .drained _ rfl
      · cases hstep
  | ticked ok nowMs =>
      simp only [Heartbeats.step] at hstep
      split at hstep
      · split at hstep
        · cases hstep
          exact .still (fun _ _ => saidSince_snoc _) rfl
        · cases hstep
          exact .still (fun _ _ => saidSince_snoc _) rfl
      · cases hstep
  | due yes =>
      simp only [Heartbeats.step] at hstep
      split at hstep
      · split at hstep
        · cases hstep
          exact .drained _ rfl
        · cases hstep
          exact .still (fun _ _ => saidSince_snoc _) rfl
      · cases hstep
  | intervalTicked =>
      simp only [Heartbeats.step] at hstep
      split at hstep
      · cases hstep
        exact .still (fun _ _ => saidSince_snoc _) rfl
      · cases hstep

theorem saidSince_drained {s : String} {events : List SystemEventEntry} {session : String}
    (he : e.drained = some (s, events)) :
    saidSince session (tr ++ [e]) = if s = session then [] else saidSince session tr := by
  rw [saidSince_snoc]
  cases e with
  | served wake _ => cases he; rfl
  | interval _ => cases he; rfl
  | idle => cases he
  | said _ _ _ => cases he
  | asked _ => cases he
  | took _ => cases he

theorem QueueMove.told {queues queues' : SystemEventQueues} {session : String}
    (hmove : QueueMove queues e queues') (h : Told queues session (saidSince session tr)) :
    Told queues' session (saidSince session (tr ++ [e])) := by
  cases hmove with
  | said sessionKey text contextKey ts htext =>
      rw [saidSince_snoc]
      exact told_enqueue h htext
  | drained sessionKey he =>
      rw [saidSince_drained he]
      exact told_drain h
  | still hsaid _ =>
      rw [hsaid]
      exact h

theorem told_of_run (run : Runs HeartbeatStep .init tr h) (session : String) :
    Told h.queues session (saidSince session tr) := by
  induction run with
  | nil => rfl
  | snoc _ hstep ih => exact (queueMove_of_step hstep).told ih

theorem QueueMove.handed {queues queues' : SystemEventQueues} {s : String}
    {events : List SystemEventEntry} (hmove : QueueMove queues e queues')
    (he : e.drained = some (s, events)) (h : Told queues s (saidSince s tr)) :
    events.map (fun e => (e.text, e.contextKey)) = windowOf (saidSince s tr) := by
  cases hmove with
  | said _ _ _ _ _ => cases he
  | drained sessionKey hdrained =>
      rw [he] at hdrained
      cases hdrained
      exact drained_told h
  | still _ hnone =>
      rw [he] at hnone
      cases hnone

/-- **Each event is handed over once.** In every run, a session that is drained, for a wake
or for an interval tick, hands over what it was told since the last time it was drained: in
order, without events that repeat the text of the one before, and the last twenty of these. -/
theorem events_handed {s : String} {events : List SystemEventEntry}
    (run : Runs HeartbeatStep .init (tr ++ e :: tr') h) (he : e.drained = some (s, events)) :
    events.map (fun e => (e.text, e.contextKey)) =
      ((saidSince s tr).destutter (fun x y => x.1 ≠ y.1)).rtake maxSystemEvents := by
  obtain ⟨u, u', hpre, hstep⟩ := run.step_at
  exact (queueMove_of_step hstep).handed he (told_of_run hpre s)

def sampleWake : PendingHeartbeatWake := newWake (some "hook:build") none (some "main") 3

/-- An event that is repeated, a wake, and a second one while the tick of the first fails. -/
def heartbeatActs : List HeartbeatAct :=
  [.event "main" "build failed" none 1, .event " main " "build failed " (some "CI") 2,
    .wake (some "hook:build") none (some "main") 3, .poll [sampleWake],
    .event "main" "build passed" none 4, .serve,
    .wake (some "interval") none (some "main") 5, .ticked false 6,
    .poll [newWake (some "interval") none (some "main") 5], .serve]

theorem heartbeatActs_run : (exec Heartbeats.step .init heartbeatActs).isSome = true := by
  decide

theorem events_handed_sample :
    ∃ tr events h tr', Runs HeartbeatStep .init (tr ++ .served sampleWake events :: tr') h ∧
      events.map (fun e => (e.text, e.contextKey)) =
        [("build failed", none), ("build passed", none)] := by
  have hrun := runs_of_exec_isSome heartbeatActs heartbeatActs_run
  have hsplit : ((exec Heartbeats.step .init heartbeatActs).get heartbeatActs_run).1 =
      ((exec Heartbeats.step .init heartbeatActs).get heartbeatActs_run).1.take 5 ++
        .served sampleWake [⟨"build failed", 1, none⟩, ⟨"build passed", 4, none⟩] ::
        ((exec Heartbeats.step .init heartbeatActs).get heartbeatActs_run).1.drop 6 := by
    decide
  rw [hsplit] at hrun
  refine ⟨_, _, _, _, hrun, ?_⟩
  rw [events_handed hrun rfl]
  decide

/-- Whether a context is new is asked of the last event of the session. -/
theorem contextChanged_iff (run : Runs HeartbeatStep .init tr h) (sessionKey : String)
    (contextKey : Option String) :
    isSystemEventContextChanged h.queues sessionKey contextKey = true ↔
      normalizeContextKey contextKey ≠
        (saidSince (normalizeSystemSessionKey (some sessionKey)) tr).getLast?.bind Prod.snd := by
  have htold := told_of_run run (normalizeSystemSessionKey (some sessionKey))
  unfold isSystemEventContextChanged Told at *
  cases hq : h.queues.lookup (normalizeSystemSessionKey (some sessionKey)) with
  | none =>
      rw [hq] at htold
      simp only [Option.bind_none, decide_eq_true_eq] at htold ⊢
      rw [htold]
      rfl
  | some q =>
      rw [hq] at htold
      simp only [Option.bind_some, decide_eq_true_eq] at htold ⊢
      rw [htold.lastContextKey]

end Events

/-! ## §2  Wakes -/

section Wakes

variable {w w' w'' : PendingHeartbeatWake} {wakes : PendingWakes} {h h' : Heartbeats}
  {e : HeartbeatEv} {tr tr' : List HeartbeatEv}

theorem PendingHeartbeatWake.YieldsTo.refl (w : PendingHeartbeatWake) : w.YieldsTo w :=
  Or.inr ⟨rfl, le_refl _⟩

theorem PendingHeartbeatWake.YieldsTo.trans (h : w.YieldsTo w') (h' : w'.YieldsTo w'') :
    w.YieldsTo w'' := by
  unfold PendingHeartbeatWake.YieldsTo at *
  omega

theorem PendingHeartbeatWake.YieldsTo.of_not (h : ¬ w.YieldsTo w') : w'.YieldsTo w := by
  unfold PendingHeartbeatWake.YieldsTo at *
  omega

/-- Every wake is entered for its own target. -/
def WakesKeyed (wakes : PendingWakes) : Prop := ∀ k w, wakes.lookup k = some w → w.key = k

/-- A wake of the target, at least as urgent, is among these. -/
def Stands (w : PendingHeartbeatWake) (ws : PendingHeartbeatWake → Prop) : Prop :=
  ∃ w', ws w' ∧ w'.key = w.key ∧ w.YieldsTo w'

theorem queue_keyed (h : WakesKeyed wakes) (next : PendingHeartbeatWake) :
    WakesKeyed (queuePendingHeartbeatWake wakes next) := by
  have hinsert : WakesKeyed (wakes.insert next.key next) := by
    intro k w hw
    rw [HashMap.lookup_insert_eq] at hw
    split at hw
    · rename_i hk
      cases hw
      exact hk.symm
    · exact h k w hw
  unfold queuePendingHeartbeatWake
  split
  · split
    · exact hinsert
    · exact h
  · exact hinsert

/-- Queueing a wake leaves one of its target that it yields to. -/
theorem queue_stands_new (h : WakesKeyed wakes) (next : PendingHeartbeatWake) :
    Stands next (fun w' => (queuePendingHeartbeatWake wakes next).lookup next.key = some w') := by
  unfold queuePendingHeartbeatWake
  split
  · rename_i previous hprevious
    split
    · exact ⟨next, by simp, rfl, .refl next⟩
    · rename_i hkeeps
      exact ⟨previous, hprevious, h _ _ hprevious, .of_not hkeeps⟩
  · exact ⟨next, by simp, rfl, .refl next⟩

/-- And what stood before still stands. -/
theorem queue_stands (next : PendingHeartbeatWake)
    (hw : Stands w (fun w' => wakes.lookup w.key = some w')) :
    Stands w (fun w' => (queuePendingHeartbeatWake wakes next).lookup w.key = some w') := by
  obtain ⟨w', hlookup, hkey, hyields⟩ := hw
  unfold queuePendingHeartbeatWake
  by_cases hnext : w.key = next.key
  · rw [← hnext, hlookup]
    simp only
    split
    · rename_i hgives
      exact ⟨next, by simp, hnext.symm, hyields.trans hgives⟩
    · exact ⟨w', hlookup, hkey, hyields⟩
  · have hother : (wakes.insert next.key next).lookup w.key = some w' := by
      rw [HashMap.lookup_insert_eq, if_neg hnext, hlookup]
    split
    · split
      · exact ⟨w', hother, hkey, hyields⟩
      · exact ⟨w', hlookup, hkey, hyields⟩
    · exact ⟨w', hother, hkey, hyields⟩

/-- The wakes that were taken and wait to be served. -/
def LoopStage.left : LoopStage → List PendingHeartbeatWake
  | .serving left => left
  | .ticking _ left => left
  | _ => []

theorem LoopStage.left_next (left : List PendingHeartbeatWake) :
    (LoopStage.next left).left = left := by
  cases left <;> rfl

/-- What a step does to the wakes. -/
inductive WakeMove (h : Heartbeats) : HeartbeatEv → Heartbeats → Prop where
  | asked {next : PendingHeartbeatWake} {h' : Heartbeats} :
      h'.wakes = queuePendingHeartbeatWake h.wakes next → h'.stage.left = h.stage.left →
      WakeMove h (.asked next) h'
  | took {values : List PendingHeartbeatWake} {h' : Heartbeats} : h.stage.left = [] →
      values.Perm (h.wakes.toPairs.map Prod.snd) → h'.wakes = ∅ →
      h'.stage.left = sortWakes values → WakeMove h (.took (sortWakes values)) h'
  | served {wake : PendingHeartbeatWake} {left : List PendingHeartbeatWake}
      {events : List SystemEventEntry} {h' : Heartbeats} :
      h.stage.left = wake :: left → h'.wakes = h.wakes → h'.stage.left = left →
      WakeMove h (.served wake events) h'
  | still {e : HeartbeatEv} {h' : Heartbeats} : h'.wakes = h.wakes →
      h'.stage.left = h.stage.left → (∀ w, e ≠ .asked w) → (∀ w events, e ≠ .served w events) →
      WakeMove h e h'

theorem wakeMove_of_step (hstep : HeartbeatStep h e h') : WakeMove h e h' := by
  obtain ⟨a, hstep⟩ := hstep
  cases a with
  | event sessionKey text contextKey ts =>
      cases hstep
      split <;> exact .still rfl rfl (by simp) (by simp)
  | wake reason agentId sessionKey nowMs =>
      cases hstep
      exact .asked rfl rfl
  | setEnabled enabled =>
      cases hstep
      exact .still rfl rfl (by simp) (by simp)
  | poll values =>
      simp only [Heartbeats.step] at hstep
      split at hstep
      · cases hstep
      · rename_i hwaiting
        have hleft : h.stage.left = [] := by rw [not_not.mp hwaiting]; rfl
        split at hstep
        · cases hstep
          exact .still rfl rfl (by simp) (by simp)
        · split at hstep
          · cases hstep
          · rename_i hperm
            cases hstep
            refine .took hleft (not_not.mp hperm) rfl ?_
            show LoopStage.left (if (sortWakes values).isEmpty then .checking
              else .serving (sortWakes values)) = _
            cases sortWakes values <;> rfl
  | serve =>
      simp only [Heartbeats.step] at hstep
      split at hstep
      · rename_i wake left hstage
        cases hstep
        exact .served (by rw [hstage]; rfl) rfl rfl
      · cases hstep
  | ticked ok nowMs =>
      simp only [Heartbeats.step] at hstep
      split at hstep
      · rename_i wake left hstage
        have hleft : (LoopStage.next left).left = h.stage.left := by
          rw [LoopStage.left_next, hstage]
          rfl
        split at hstep
        · cases hstep
          exact .still rfl hleft (by simp) (by simp)
        · cases hstep
          exact .asked rfl hleft
      · cases hstep
  | due yes =>
      simp only [Heartbeats.step] at hstep
      split at hstep
      · rename_i hstage
        split at hstep
        · cases hstep
          exact .still rfl (by rw [hstage]; rfl) (by simp) (by simp)
        · cases hstep
          exact .still rfl (by rw [hstage]; rfl) (by simp) (by simp)
      · cases hstep
  | intervalTicked =>
      simp only [Heartbeats.step] at hstep
      split at hstep
      · rename_i hstage
        cases hstep
        exact .still rfl (by rw [hstage]; rfl) (by simp) (by simp)
      · cases hstep

theorem wakesKeyed_of_run (run : Runs HeartbeatStep .init tr h) : WakesKeyed h.wakes := by
  induction run with
  | nil => intro k w hw; cases hw
  | snoc _ hstep ih =>
      cases wakeMove_of_step hstep with
      | asked hwakes _ => rw [hwakes]; exact queue_keyed ih _
      | took _ _ hwakes _ => rw [hwakes]; intro k w hw; cases hw
      | served _ hwakes _ => rw [hwakes]; exact ih
      | still hwakes _ _ _ => rw [hwakes]; exact ih

/-- Where a wake that was asked for is to be found. -/
def Kept (w : PendingHeartbeatWake) (h : Heartbeats) (tr : List HeartbeatEv) : Prop :=
  Stands w (fun w' => h.wakes.lookup w.key = some w') ∨ Stands w (· ∈ h.stage.left) ∨
    Stands w (fun w' => ∃ events, .served w' events ∈ tr)

theorem Kept.step (hkept : Kept w h tr) (hstep : HeartbeatStep h e h') : Kept w h' (tr ++ [e]) := by
  have hlog : Stands w (fun w' => ∃ events, .served w' events ∈ tr) → Kept w h' (tr ++ [e]) := by
    rintro ⟨w', ⟨events, hmem⟩, hkey, hyields⟩
    exact Or.inr (Or.inr ⟨w', ⟨events, List.mem_append_left _ hmem⟩, hkey, hyields⟩)
  rcases hkept with hpending | hleft | hserved
  · cases wakeMove_of_step hstep with
    | asked hwakes _ => exact Or.inl (hwakes ▸ queue_stands _ hpending)
    | took _ hperm _ hleft =>
        obtain ⟨w', hlookup, hkey, hyields⟩ := hpending
        refine Or.inr (Or.inl ⟨w', ?_, hkey, hyields⟩)
        have hmem : w' ∈ h.wakes.toPairs.map Prod.snd :=
          List.mem_map.mpr ⟨(w.key, w'), HashMap.mem_toPairs.mpr hlookup, rfl⟩
        show w' ∈ h'.stage.left
        rw [hleft, sortWakes, List.mem_insertionSort]
        exact hperm.mem_iff.mpr hmem
    | served _ hwakes _ => exact Or.inl (by rwa [hwakes])
    | still hwakes _ _ _ => exact Or.inl (by rwa [hwakes])
  · cases wakeMove_of_step hstep with
    | asked _ hstage => exact Or.inr (Or.inl (by rwa [hstage]))
    | took hnone _ _ _ =>
        obtain ⟨w', hmem, -, -⟩ := hleft
        rw [hnone] at hmem
        cases hmem
    | served hstage _ hrest =>
        obtain ⟨w', hmem, hkey, hyields⟩ := hleft
        rw [hstage] at hmem
        rcases List.mem_cons.mp hmem with rfl | hmem
        · exact Or.inr (Or.inr ⟨w', ⟨_, List.mem_append_right _ (List.mem_singleton.mpr rfl)⟩, hkey,
            hyields⟩)
        · exact Or.inr (Or.inl ⟨w', hrest ▸ hmem, hkey, hyields⟩)
    | still _ hstage _ _ => exact Or.inr (Or.inl (by rwa [hstage]))
  · exact hlog hserved

end Wakes

end Oclaw.Gateway.Heartbeat
