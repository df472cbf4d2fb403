import Oclaw.Gateway.RpcAgent

/-!
# One run for each key

A key is registered once, before its run is spawned and behind its gate. So a key has one run
at the most, whatever handlers are dropped. The other side of it is that a key that was
registered by a handler which then refuses the request has no run at all, and never will.
-/

namespace Oclaw.Gateway.Rpc

open Oclaw.Lib

variable {w w' w₁ w₂ : AgentWorld} {e : AgentEvent} {tr : List AgentEvent} {t t' : ℕ}
  {k rid : String} {call : AgentCall} {stage stage' : AgentStage} {task : AgentTask}
  {input : AgentInput} {key : Option String}

/-! ## §1  What a step can do -/

inductive AgentMoves (w : AgentWorld) : AgentEvent → AgentWorld → Prop where
  | rejected {t : ℕ} {e : RpcError} (ht : w.tasks t = none) :
      AgentMoves w ⟨t, .answered none (.error e)⟩ w
  | called {t : ℕ} {call : AgentCall} (ht : w.tasks t = none) :
      AgentMoves w ⟨t, .internal⟩
        (w.put t (some (.handler call (if call.key.isSome then .gate else .prepare))))
  | passed {t : ℕ} {call : AgentCall} {k : String} (ht : w.tasks t = some (.handler call .gate))
      (hkey : call.key = some k) (hfree : w.gates k = none) :
      AgentMoves w ⟨t, .internal⟩ { w.put t (some (.handler call .lookup)) with
        gates := Function.update w.gates k (some t) }
  | hit {t : ℕ} {call : AgentCall} {k rid : String}
      (ht : w.tasks t = some (.handler call .lookup)) (hkey : call.key = some k)
      (hidem : w.idempotency.lookup k = some rid) :
      AgentMoves w ⟨t, .internal⟩ (w.put t (some (.handler call (.cached rid))))
  | missed {t : ℕ} {call : AgentCall} (ht : w.tasks t = some (.handler call .lookup))
      (hidem : call.key.bind w.idempotency.lookup = none) :
      AgentMoves w ⟨t, .internal⟩ (w.put t (some (.handler call .prepare)))
  | told {t : ℕ} {call : AgentCall} {rid : String} {nowMs : ℤ}
      (ht : w.tasks t = some (.handler call (.cached rid))) :
      AgentMoves w ⟨t, .answered call.key (.ok (cachedAnswer w.runs rid nowMs))⟩ (w.gone t)
  | refused {t : ℕ} {call : AgentCall} {stage : AgentStage} {e : RpcError}
      (ht : w.tasks t = some (.handler call stage))
      (hstage : stage = .prepare ∨ ∃ rid channel toId, stage = .deliver rid channel toId) :
      AgentMoves w ⟨t, .answered call.key (.error e)⟩ (w.gone t)
  | named {t : ℕ} {call : AgentCall} {k : String} {channel toId : Option String}
      (ht : w.tasks t = some (.handler call .prepare)) (hkey : call.key = some k) :
      AgentMoves w ⟨t, .internal⟩ (w.put t (some (.handler call (.register k channel toId))))
  | minted {t : ℕ} {call : AgentCall} {uuid : String} {channel toId : Option String}
      (ht : w.tasks t = some (.handler call .prepare)) (hkey : call.key = none) :
      AgentMoves w ⟨t, .internal⟩ { w.put t (some (.handler call (.enter uuid channel toId))) with
        minted := uuid :: w.minted }
  | registered {t : ℕ} {call : AgentCall} {k rid : String} {channel toId : Option String}
      (ht : w.tasks t = some (.handler call (.register rid channel toId)))
      (hkey : call.key = some k) :
      AgentMoves w ⟨t, .registered k rid⟩
        { w.put t (some (.handler call (.enter rid channel toId))) with
          idempotency := w.idempotency.insert k rid }
  | skipped {t : ℕ} {call : AgentCall} {rid : String} {channel toId : Option String}
      (ht : w.tasks t = some (.handler call (.register rid channel toId)))
      (hkey : call.key = none) :
      AgentMoves w ⟨t, .internal⟩ (w.put t (some (.handler call (.enter rid channel toId))))
  | opened {t : ℕ} {call : AgentCall} {rid : String} {channel toId : Option String} {nowMs : ℤ}
      (ht : w.tasks t = some (.handler call (.enter rid channel toId))) :
      AgentMoves w ⟨t, .internal⟩ { w.put t (some (.handler call (.deliver rid channel toId))) with
        runs := w.runs.insert rid (.start rid nowMs) }
  | spawned {t fresh : ℕ} {call : AgentCall} {rid : String} {channel toId : Option String}
      (ht : w.tasks t = some (.handler call (.deliver rid channel toId)))
      (hfresh : w.tasks fresh = none) :
      AgentMoves w ⟨t, .spawned call.key rid⟩
        ((w.gone t).put fresh (some (.working call.key rid)))
  | finished {t : ℕ} {key : Option String} {rid : String} {input : AgentInput}
      (ht : w.tasks t = some (.working key rid)) :
      AgentMoves w ⟨t, .finished rid⟩ { w.put t none with
        runs := match w.runs.lookup rid with
          | some run => w.runs.insert rid (run.finish input)
          | none => w.runs }
  | dropped {t : ℕ} {task : AgentTask} (ht : w.tasks t = some task) :
      AgentMoves w ⟨t, .dropped⟩ (w.gone t)

theorem AgentMoves.of_advance (ht : w.tasks t = some (.handler call stage)) (hin : stage ≠ .gate)
    (hfresh : w.tasks input.fresh = none) :
    AgentMoves w (w.advance t call stage input).1 (w.advance t call stage input).2 := by
  cases stage with
  | gate => exact absurd rfl hin
  | lookup =>
      cases hidem : call.key.bind w.idempotency.lookup with
      | none =>
          simp only [AgentWorld.advance, AgentWorld.handle, hidem]
          exact .missed ht hidem
      | some rid =>
          obtain ⟨k, hkey, hlookup⟩ := Option.bind_eq_some_iff.mp hidem
          simp only [AgentWorld.advance, AgentWorld.handle, hidem]
          exact .hit ht hkey hlookup
  | cached rid => exact .told ht
  | prepare =>
      simp only [AgentWorld.advance, AgentWorld.handle]
      generalize (if trim call.message = "" ∧ input.attachments = 0 then _ else _) = failure
      cases failure with
      | some e => exact .refused ht (Or.inl rfl)
      | none =>
          cases hkey : call.key with
          | some k => exact .named ht hkey
          | none => exact .minted ht hkey
  | register rid channel toId =>
      cases hkey : call.key with
      | some k =>
          simp only [AgentWorld.advance, AgentWorld.handle, hkey]
          exact .registered ht hkey
      | none =>
          simp only [AgentWorld.advance, AgentWorld.handle, hkey]
          exact .skipped ht hkey
  | enter rid channel toId => exact .opened ht
  | deliver rid channel toId =>
      simp only [AgentWorld.advance, AgentWorld.handle]
      cases hvalid : validatedChannel input.names call.deliver channel toId with
      | error e => exact .refused ht (Or.inr ⟨rid, channel, toId, rfl⟩)
      | ok name => exact .spawned ht hfresh

theorem AgentMoves.of_step (h : AgentWorld.Step w e w') : AgentMoves w e w' := by
  obtain ⟨turn, hnext⟩ := h
  cases turn with
  | call t params =>
      simp only [AgentWorld.next] at hnext
      split at hnext
      · rename_i ht
        cases hparse : params.parse with
        | error e =>
            simp only [hparse, Option.some.injEq, Prod.mk.injEq] at hnext
            obtain ⟨rfl, rfl⟩ := hnext
            exact .rejected ht
        | ok call =>
            simp only [hparse, Option.some.injEq, Prod.mk.injEq] at hnext
            obtain ⟨rfl, rfl⟩ := hnext
            exact .called ht
      · cases hnext
  | run t input =>
      cases ht : w.tasks t with
      | none => simp [AgentWorld.next, ht] at hnext
      | some task =>
          cases task with
          | working key rid =>
              simp only [AgentWorld.next, ht, Option.some.injEq, Prod.mk.injEq] at hnext
              obtain ⟨rfl, rfl⟩ := hnext
              exact .finished ht
          | handler call stage =>
              by_cases hin : stage = .gate
              · subst hin
                cases hkey : call.key with
                | none => simp [AgentWorld.next, ht, hkey] at hnext
                | some k =>
                    by_cases hfree : w.gates k = none
                    · simp only [AgentWorld.next, ht, hkey, hfree, if_true, Option.some.injEq,
                        Prod.mk.injEq] at hnext
                      obtain ⟨rfl, rfl⟩ := hnext
                      exact .passed ht hkey hfree
                    · simp [AgentWorld.next, ht, hkey, hfree] at hnext
              · have hrun : w.next (.run t input) =
                    if w.tasks input.fresh = none ∧ input.uuid ∉ w.minted then
                      some (w.advance t call stage input)
                    else none := by
                  cases stage with
                  | gate => exact absurd rfl hin
                  | _ => simp only [AgentWorld.next, ht]
                rw [hrun] at hnext
                split at hnext
                · rename_i hfresh
                  have hmove := AgentMoves.of_advance ht hin hfresh.1
                  rw [Option.some.injEq] at hnext
                  rwa [hnext] at hmove
                · cases hnext
  | drop t =>
      simp only [AgentWorld.next] at hnext
      split at hnext
      · rename_i hsome
        obtain ⟨task, ht⟩ := Option.isSome_iff_exists.mp hsome
        simp only [Option.some.injEq, Prod.mk.injEq] at hnext
        obtain ⟨rfl, rfl⟩ := hnext
        exact .dropped ht
      · cases hnext

/-! ## §2  What the tasks know -/

def AgentEvent.spawns (k : String) (e : AgentEvent) : Bool :=
  match e.act with
  | .spawned (some key) _ => key == k
  | _ => false

/-- How many runs were spawned for a key. -/
def spawns (k : String) (tr : List AgentEvent) : ℕ := (tr.filter (AgentEvent.spawns k)).length

theorem spawns_snoc : spawns k (tr ++ [e]) = spawns k tr + if e.spawns k then 1 else 0 := by
  unfold spawns
  rw [List.filter_append, List.length_append]
  by_cases h : e.spawns k = true <;> simp [h]

/-- What a handler of the key knows at its stage: of the registration, and of the number of
runs. -/
def AgentStage.Knows (k : String) (idem : Option String) (n : ℕ) : AgentStage → Prop
  | .cached rid => idem = some rid
  | .prepare => idem = none
  | .register rid _ _ => idem = none ∧ rid = k
  | .enter rid _ _ => idem = some k ∧ rid = k ∧ n = 0
  | .deliver rid _ _ => idem = some k ∧ rid = k ∧ n = 0
  | _ => True

def AgentTask.Knows (k : String) (idem : Option String) (n : ℕ) : AgentTask → Prop
  | .handler call stage => call.key = some k → stage.Knows k idem n
  | .working key rid => key = some k → idem = some k ∧ rid = k ∧ n = 1

structure AgentSound (k : String) (tr : List AgentEvent) (w : AgentWorld) : Prop where
  guarded : Guarded w.gates w.tasks AgentTask.holds
  named : ∀ rid, w.idempotency.lookup k = some rid → rid = k
  tasks : ∀ t a, w.tasks t = some a → a.Knows k (w.idempotency.lookup k) (spawns k tr)
  solo : ∀ t t' rid rid', w.tasks t = some (.working (some k) rid) →
    w.tasks t' = some (.working (some k) rid') → t = t'
  count : spawns k tr ≤ 1
  unspawned : w.idempotency.lookup k = none → spawns k tr = 0
  recorded : ∀ rid run, w.runs.lookup rid = some run → run.runId = rid
  answers : ∀ t a, ⟨t, .answered (some k) (.ok a)⟩ ∈ tr → a.runId = k

theorem AgentSound.init : AgentSound k [] .init where
  guarded := Guarded.empty
  named rid h := by simp [AgentWorld.init] at h
  tasks t a ht := by cases ht
  solo t t' rid rid' ht := by cases ht
  count := Nat.zero_le _
  unspawned _ := rfl
  recorded rid run h := by simp [AgentWorld.init] at h
  answers t a hmem := by cases hmem

theorem AgentTask.holds_of_ne (hin : stage ≠ .gate) :
    (AgentTask.handler call stage).holds = call.key := by
  cases stage with
  | gate => exact absurd rfl hin
  | _ => rfl

/-- A task that is not behind the gate of the key minds little of what happens there. -/
theorem AgentTask.Knows.apart {idem idem' : Option String} {n n' : ℕ}
    (h : task.Knows k idem n) (hout : task.holds ≠ some k)
    (hidem : idem = some k → idem' = some k) (hn : n = 1 → n' = 1) : task.Knows k idem' n' := by
  cases task with
  | handler call stage =>
      intro hkey
      by_cases hin : stage = .gate
      · subst hin
        trivial
      · exact absurd ((AgentTask.holds_of_ne hin).trans hkey) hout
  | working key rid =>
      intro hkey
      obtain ⟨hsome, hrid, hone⟩ := h hkey
      exact ⟨hidem hsome, hrid, hn hone⟩

/-! What a step does to the registration of a key, and to the number of its runs. -/

theorem AgentMoves.idem (hmove : AgentMoves w e w') (k : String) :
    w'.idempotency.lookup k = w.idempotency.lookup k ∨
      ∃ call rid channel toId, w.tasks e.task = some (.handler call (.register rid channel toId)) ∧
        call.key = some k ∧ w'.idempotency.lookup k = some rid := by
  cases hmove with
  | @registered t call k' rid channel toId ht hkey =>
      by_cases hk : k = k'
      · subst hk
        exact Or.inr ⟨call, rid, channel, toId, ht, hkey, AList.lookup_insert _⟩
      · refine Or.inl ?_
        show (w.idempotency.insert k' rid).lookup k = _
        rw [HashMap.lookup_insert_eq, if_neg hk]
  | _ => exact Or.inl rfl

theorem AgentMoves.spawns (hmove : AgentMoves w e w') (h : e.spawns k = true) :
    ∃ call rid channel toId, w.tasks e.task = some (.handler call (.deliver rid channel toId)) ∧
      call.key = some k ∧ ∃ fresh, w.tasks fresh = none ∧
        w' = (w.gone e.task).put fresh (some (.working (some k) rid)) := by
  cases hmove with
  | @spawned t fresh call rid channel toId ht hfresh =>
      cases hkey : call.key with
      | none => simp [AgentEvent.spawns, hkey] at h
      | some key =>
          have hk : key = k := by simpa [AgentEvent.spawns, hkey] using h
          subst hk
          exact ⟨call, rid, channel, toId, ht, hkey, fresh, hfresh, rfl⟩
  | _ => simp [AgentEvent.spawns] at h

/-- A task after the step is an old one that did not move, or the one that moved, or new. -/
theorem AgentMoves.tasks_of_ne (hmove : AgentMoves w e w') (ht : w'.tasks t = some task)
    (hne : t ≠ e.task) : w.tasks t = some task ∨
      (w.tasks t = none ∧ ∃ call rid channel toId,
        w.tasks e.task = some (.handler call (.deliver rid channel toId)) ∧
        task = .working call.key rid ∧ e.act = .spawned call.key rid) := by
  have same {x : Option AgentTask} (h : Function.update w.tasks e.task x t = some task) :
      w.tasks t = some task := by rwa [Function.update_of_ne hne] at h
  cases hmove with
  | rejected h => exact Or.inl ht
  | @spawned s fresh call rid channel toId h hfresh =>
      by_cases heq : t = fresh
      · subst heq
        simp only [AgentWorld.put, Function.update_self, Option.some.injEq] at ht
        exact Or.inr ⟨hfresh, call, rid, channel, toId, h, ht.symm, rfl⟩
      · simp only [AgentWorld.put, AgentWorld.gone, Function.update_of_ne heq] at ht
        exact Or.inl (same ht)
  | _ => exact Or.inl (same ht)

/-- What has moved knows what it should. -/
theorem AgentSound.mover (h : AgentSound k tr w) (hmove : AgentMoves w e w')
    (ht : w'.tasks e.task = some task) :
    task.Knows k (w'.idempotency.lookup k) (spawns k (tr ++ [e])) := by
  have quiet (hq : e.spawns k = false) : spawns k (tr ++ [e]) = spawns k tr := by
    simp [spawns_snoc, hq]
  cases hmove with
  | rejected hnone =>
      rw [hnone] at ht
      cases ht
  | @called t call hnone =>
      simp only [AgentWorld.put, Function.update_self, Option.some.injEq] at ht
      subst ht
      intro hkey
      simp [hkey, AgentStage.Knows]
  | passed hold hkey hfree =>
      simp only [AgentWorld.put, Function.update_self, Option.some.injEq] at ht
      subst ht
      exact fun _ => trivial
  | @hit t call k' rid hold hkey hidem =>
      simp only [AgentWorld.put, Function.update_self, Option.some.injEq] at ht
      subst ht
      intro hk
      rw [hkey] at hk
      cases hk
      exact hidem
  | @missed t call hold hidem =>
      simp only [AgentWorld.put, Function.update_self, Option.some.injEq] at ht
      subst ht
      intro hk
      rw [hk] at hidem
      exact hidem
  | @named t call k' channel toId hold hkey =>
      simp only [AgentWorld.put, Function.update_self, Option.some.injEq] at ht
      subst ht
      intro hk
      have hnone := h.tasks t _ hold hk
      rw [hkey] at hk
      cases hk
      exact ⟨hnone, rfl⟩
  | @minted t call uuid channel toId hold hkey =>
      simp only [AgentWorld.put, Function.update_self, Option.some.injEq] at ht
      subst ht
      intro hk
      rw [hkey] at hk
      cases hk
  | @registered t call k' rid channel toId hold hkey =>
      simp only [AgentWorld.put, Function.update_self, Option.some.injEq] at ht
      subst ht
      intro hk
      obtain ⟨hnone, hrid⟩ := h.tasks t _ hold hk
      rw [hkey] at hk
      cases hk
      rw [quiet rfl]
      refine ⟨?_, hrid, h.unspawned hnone⟩
      show (w.idempotency.insert k rid).lookup k = some k
      rw [AList.lookup_insert, hrid]
  | @skipped t call rid channel toId hold hkey =>
      simp only [AgentWorld.put, Function.update_self, Option.some.injEq] at ht
      subst ht
      intro hk
      rw [hkey] at hk
      cases hk
  | @opened t call rid channel toId nowMs hold =>
      simp only [AgentWorld.put, Function.update_self, Option.some.injEq] at ht
      subst ht
      intro hk
      rw [quiet rfl]
      exact h.tasks t _ hold hk
  | @spawned t fresh call rid channel toId hold hfresh =>
      have hne : t ≠ fresh := by
        rintro rfl
        rw [hfresh] at hold
        cases hold
      simp [AgentWorld.put, AgentWorld.gone, Function.update_of_ne hne] at ht
  | _ => simp [AgentWorld.put, AgentWorld.gone] at ht

theorem AgentSound.moved_idem (h : AgentSound k tr w) (hmove : AgentMoves w e w')
    (hk : w.idempotency.lookup k = some rid) : w'.idempotency.lookup k = some rid := by
  rcases hmove.idem k with hsame | ⟨call, rid', channel, toId, ht, hkey, -⟩
  · rw [hsame, hk]
  · -- the registering handler knows that the key is free
    obtain ⟨hnone, -⟩ := h.tasks _ _ ht hkey
    rw [hk] at hnone
    cases hnone

theorem AgentSound.moved_tasks (h : AgentSound k tr w) (hmove : AgentMoves w e w') :
    ∀ t a, w'.tasks t = some a →
      a.Knows k (w'.idempotency.lookup k) (spawns k (tr ++ [e])) := by
  intro t a ht
  by_cases heq : t = e.task
  · subst heq
    exact h.mover hmove ht
  · rcases hmove.tasks_of_ne ht heq with hold | ⟨-, call, rid, channel, toId, hold, rfl, hact⟩
    · have hknows := h.tasks t a hold
      by_cases hgate : gateOf w.tasks AgentTask.holds e.task = some k
      · -- the step is taken behind the gate of the key
        refine hknows.apart (fun hin => ?_) (fun hsome => h.moved_idem hmove hsome) fun hone => ?_
        · have hgate' : gateOf w.tasks AgentTask.holds t = some k := by
            rw [gateOf_of_task hold]
            exact hin
          exact heq (h.guarded.alone hgate' hgate)
        · by_cases hspawn : e.spawns k = true
          · obtain ⟨call, rid, channel, toId, hd, hkey, -⟩ := hmove.spawns hspawn
            obtain ⟨-, -, hzero⟩ := h.tasks _ _ hd hkey
            omega
          · simp [spawns_snoc, hspawn, hone]
      · have hidem : w'.idempotency.lookup k = w.idempotency.lookup k := by
          rcases hmove.idem k with hsame | ⟨call, rid, channel, toId, hd, hkey, -⟩
          · exact hsame
          · exact absurd ((gateOf_of_task hd).trans hkey) hgate
        have hcount : e.spawns k = false := by
          by_contra hspawn
          obtain ⟨call, rid, channel, toId, hd, hkey, -⟩ :=
            hmove.spawns (by simpa using hspawn)
          exact hgate ((gateOf_of_task hd).trans hkey)
        rw [hidem, spawns_snoc, hcount]
        exact hknows
    · intro hkey
      have hspawn : e.spawns k = true := by simp [AgentEvent.spawns, hact, hkey]
      obtain ⟨hsome, hrid, hzero⟩ := h.tasks _ _ hold hkey
      exact ⟨h.moved_idem hmove hsome, hrid, by simp [spawns_snoc, hspawn, hzero]⟩

theorem AgentSound.moved_guarded (h : AgentSound k tr w) (hmove : AgentMoves w e w') :
    Guarded w'.gates w'.tasks AgentTask.holds := by
  have hguarded := h.guarded
  cases hmove with
  | rejected ht => exact hguarded
  | @called t call ht =>
      refine hguarded.stay ?_
      rw [gateOf, ht]
      cases hkey : call.key <;> simp [AgentTask.holds, hkey]
  | passed ht hkey hfree =>
      exact hguarded.enter (gateOf_of_task ht) hfree (by simpa [AgentTask.holds] using hkey)
  | told ht => exact hguarded.gone rfl
  | refused ht hstage => exact hguarded.gone rfl
  | @spawned t fresh call rid channel toId ht hfresh =>
      have hgone : Guarded (w.gone t).gates (w.gone t).tasks AgentTask.holds := hguarded.gone rfl
      refine hgone.stay ?_
      have hne : fresh ≠ t := by
        rintro rfl
        rw [hfresh] at ht
        cases ht
      simp [gateOf, AgentWorld.gone, Function.update_of_ne hne, hfresh, AgentTask.holds]
  | finished ht => exact hguarded.keep ht rfl
  | dropped ht => exact hguarded.gone rfl
  | hit ht hkey hidem => exact hguarded.keep ht rfl
  | missed ht hidem => exact hguarded.keep ht rfl
  | named ht hkey => exact hguarded.keep ht rfl
  | minted ht hkey => exact hguarded.keep ht rfl
  | registered ht hkey => exact hguarded.keep ht rfl
  | skipped ht hkey => exact hguarded.keep ht rfl
  | opened ht => exact hguarded.keep ht rfl

/-- A task that works for the key has done so before, or its run is the one just spawned. -/
theorem AgentSound.working_of_moved (h : AgentSound k tr w) (hmove : AgentMoves w e w')
    (ht : w'.tasks t = some (.working (some k) rid)) :
    w.tasks t = some (.working (some k) rid) ∨ (spawns k tr = 0 ∧ ∃ call rid' channel toId,
      w.tasks e.task = some (.handler call (.deliver rid' channel toId)) ∧
      w' = (w.gone e.task).put t (some (.working (some k) rid'))) := by
  by_cases hspawn : e.spawns k = true
  · obtain ⟨call, rid', channel, toId, hd, hkey, fresh, hfresh, rfl⟩ := hmove.spawns hspawn
    obtain ⟨-, -, hzero⟩ := h.tasks _ _ hd hkey
    by_cases heq : t = fresh
    · subst heq
      exact Or.inr ⟨hzero, call, rid', channel, toId, hd, rfl⟩
    · refine Or.inl ?_
      simp only [AgentWorld.put, AgentWorld.gone, Function.update_of_ne heq] at ht
      by_cases hmover : t = e.task
      · subst hmover
        simp at ht
      · rwa [Function.update_of_ne hmover] at ht
  · refine Or.inl ?_
    by_cases heq : t = e.task
    · subst heq
      have put {a : AgentTask} (hput : (w.put e.task (some a)).tasks e.task =
          some (.working (some k) rid)) : a = .working (some k) rid := by
        simpa [AgentWorld.put] using hput
      cases hmove with
      | rejected hnone => exact ht
      | @spawned s fresh call rid channel toId hold hfresh =>
          have hne : s ≠ fresh := by
            rintro rfl
            rw [hfresh] at hold
            cases hold
          simp [AgentWorld.put, AgentWorld.gone, Function.update_of_ne hne] at ht
      | told hold => simp [AgentWorld.gone] at ht
      | refused hold hstage => simp [AgentWorld.gone] at ht
      | dropped hold => simp [AgentWorld.gone] at ht
      | finished hold => simp [AgentWorld.put] at ht
      | called hnone => cases put ht
      | passed hold hkey hfree => cases put ht
      | hit hold hkey hidem => cases put ht
      | missed hold hidem => cases put ht
      | named hold hkey => cases put ht
      | minted hold hkey => cases put ht
      | registered hold hkey => cases put ht
      | skipped hold hkey => cases put ht
      | opened hold => cases put ht
    · rcases hmove.tasks_of_ne ht heq with hold | ⟨-, call, rid', channel, toId, -, hw, hact⟩
      · exact hold
      · simp only [AgentTask.working.injEq] at hw
        simp [AgentEvent.spawns, hact, ← hw.1] at hspawn

theorem AgentSound.moved_solo (h : AgentSound k tr w) (hmove : AgentMoves w e w') :
    ∀ t t' rid rid', w'.tasks t = some (.working (some k) rid) →
      w'.tasks t' = some (.working (some k) rid') → t = t' := by
  intro t t' rid rid' ht ht'
  have none_yet {s : ℕ} {x : String} (hzero : spawns k tr = 0)
      (hs : w.tasks s = some (.working (some k) x)) : False := by
    obtain ⟨-, -, hone⟩ := h.tasks s _ hs rfl
    omega
  rcases h.working_of_moved hmove ht with hold | ⟨hzero, -, x, -, -, -, hw⟩
  · rcases h.working_of_moved hmove ht' with hold' | ⟨hzero, -⟩
    · exact h.solo t t' rid rid' hold hold'
    · exact (none_yet hzero hold).elim
  · rcases h.working_of_moved hmove ht' with hold' | ⟨-, -, x', -, -, -, hw'⟩
    · exact (none_yet hzero hold').elim
    · by_contra hne
      have htask := congrArg (fun w => AgentWorld.tasks w t) (hw.symm.trans hw')
      simp only [AgentWorld.put, Function.update_self, Function.update_of_ne hne] at htask
      by_cases hmover : t = e.task
      · subst hmover
        simp [AgentWorld.gone] at htask
      · simp only [AgentWorld.gone, Function.update_of_ne hmover] at htask
        exact none_yet hzero htask.symm

theorem AgentMoves.runs (hmove : AgentMoves w e w') (rid : String) :
    w'.runs.lookup rid = w.runs.lookup rid ∨
      (∃ call channel toId nowMs, w.tasks e.task = some (.handler call (.enter rid channel toId)) ∧
        w'.runs.lookup rid = some (.start rid nowMs)) ∨
      ∃ key input run, w.tasks e.task = some (.working key rid) ∧ w.runs.lookup rid = some run ∧
        w'.runs.lookup rid = some (run.finish input) := by
  cases hmove with
  | @opened t call rid' channel toId nowMs ht =>
      by_cases hrid : rid = rid'
      · subst hrid
        exact Or.inr (Or.inl ⟨call, channel, toId, nowMs, ht, AList.lookup_insert _⟩)
      · refine Or.inl ?_
        show (w.runs.insert rid' _).lookup rid = _
        rw [HashMap.lookup_insert_eq, if_neg hrid]
  | @finished t key rid' input ht =>
      cases hrun : w.runs.lookup rid' with
      | none => exact Or.inl rfl
      | some run =>
          by_cases hrid : rid = rid'
          · subst hrid
            exact Or.inr (Or.inr ⟨key, input, run, ht, hrun, by simp⟩)
          · refine Or.inl ?_
            show (w.runs.insert rid' _).lookup rid = _
            rw [HashMap.lookup_insert_eq, if_neg hrid]
  | _ => exact Or.inl rfl

/-- The answers given to requests with the key. -/
theorem AgentMoves.answer {a : AgentAnswer} (hmove : AgentMoves w e w')
    (he : e.act = .answered (some k) (.ok a)) :
    ∃ call rid nowMs, w.tasks e.task = some (.handler call (.cached rid)) ∧ call.key = some k ∧
      a = cachedAnswer w.runs rid nowMs := by
  cases hmove with
  | @told t call rid nowMs ht =>
      simp only [AgentAct.answered.injEq, Except.ok.injEq] at he
      exact ⟨call, rid, nowMs, ht, he.1, he.2.symm⟩
  | _ => simp at he

theorem runId_cachedAnswer {runs : HashMap String AgentRunRecord} {nowMs : ℤ}
    (h : ∀ run, runs.lookup rid = some run → run.runId = rid) :
    (cachedAnswer runs rid nowMs).runId = rid := by
  unfold cachedAnswer
  split
  · rename_i run hrun
    split
    · exact h run hrun
    · rfl
  · rfl

theorem AgentSound.step (h : AgentSound k tr w) (hstep : AgentWorld.Step w e w') :
    AgentSound k (tr ++ [e]) w' := by
  have hmove := AgentMoves.of_step hstep
  refine ⟨h.moved_guarded hmove, fun rid hrid => ?_, h.moved_tasks hmove, h.moved_solo hmove, ?_,
    fun hnone => ?_, fun rid run hrun => ?_, fun t a hmem => ?_⟩
  · rcases hmove.idem k with hsame | ⟨call, rid', channel, toId, ht, hkey, hset⟩
    · exact h.named rid (hsame ▸ hrid)
    · obtain ⟨-, hrid'⟩ := h.tasks _ _ ht hkey
      rw [hset] at hrid
      cases hrid
      exact hrid'
  · rw [spawns_snoc]
    by_cases hspawn : e.spawns k = true
    · obtain ⟨call, rid, channel, toId, ht, hkey, -⟩ := hmove.spawns hspawn
      obtain ⟨-, -, hzero⟩ := h.tasks _ _ ht hkey
      simp [hzero, hspawn]
    · simp [hspawn, h.count]
  · have hold : w.idempotency.lookup k = none := by
      by_contra hsome
      obtain ⟨rid, hrid⟩ := Option.ne_none_iff_exists'.mp hsome
      rw [h.moved_idem hmove hrid] at hnone
      cases hnone
    rw [spawns_snoc, h.unspawned hold]
    by_cases hspawn : e.spawns k = true
    · obtain ⟨call, rid, channel, toId, ht, hkey, -⟩ := hmove.spawns hspawn
      obtain ⟨hsome, -⟩ := h.tasks _ _ ht hkey
      rw [hold] at hsome
      cases hsome
    · simp [hspawn]
  · rcases hmove.runs rid with hsame | ⟨-, -, -, nowMs, -, hset⟩ | ⟨-, input, run', -, hrun', hset⟩
    · exact h.recorded rid run (hsame ▸ hrun)
    · rw [hset] at hrun
      cases hrun
      rfl
    · rw [hset] at hrun
      cases hrun
      exact h.recorded rid run' hrun'
  · rcases List.mem_append.mp hmem with hmem | hmem
    · exact h.answers t a hmem
    · have he : e.act = .answered (some k) (.ok a) := by rw [← List.mem_singleton.mp hmem]
      obtain ⟨call, rid, nowMs, ht, hkey, rfl⟩ := hmove.answer he
      have hidem := h.tasks _ _ ht hkey
      rw [← h.named rid hidem]
      exact runId_cachedAnswer (h.recorded rid)

theorem agentSound_of_run (run : Runs AgentWorld.Step .init tr w) : AgentSound k tr w :=
  run.invariant AgentSound.init (fun _ h hstep => h.step hstep)

/-! ## §3  Records of runs -/

/-- What a task says of the record of the run `k`, which is not one that was made up. -/
def AgentTask.Reports (k : String) (run : Option AgentRunRecord) : AgentTask → Prop
  | .handler call (.register rid _ _) => call.key = some rid
  | .handler call (.enter rid _ _) => rid = k → call.key = some k ∧ run = none
  | .handler call (.deliver rid _ _) =>
      rid = k → call.key = some k ∧ ∃ r, run = some r ∧ r.status = "running"
  | .working key rid => rid = k → key = some k ∧ ∃ r, run = some r ∧ r.status = "running"
  | _ => True

structure AgentRecords (k : String) (tr : List AgentEvent) (w : AgentWorld) : Prop where
  blank : w.idempotency.lookup k = none → w.runs.lookup k = none
  tasks : ∀ t a, w.tasks t = some a → a.Reports k (w.runs.lookup k)
  told : ∀ t run, ⟨t, .answered (some k) (.ok (.finished run))⟩ ∈ tr →
    w.runs.lookup k = some run ∧ run.status ≠ "running"

theorem AgentRecords.init : AgentRecords k [] .init where
  blank _ := by simp [AgentWorld.init]
  tasks t a ht := by cases ht
  told t run hmem := by cases hmem

theorem AgentMoves.minted_mono (hmove : AgentMoves w e w') (h : k ∉ w'.minted) : k ∉ w.minted := by
  cases hmove with
  | minted ht hkey => exact fun hmem => h (List.mem_cons_of_mem _ hmem)
  | _ => exact h

theorem AgentRecords.mover (hsound : AgentSound k tr w) (h : AgentRecords k tr w)
    (hmove : AgentMoves w e w') (hk : k ∉ w'.minted) (ht : w'.tasks e.task = some task) :
    task.Reports k (w'.runs.lookup k) := by
  have put {a : AgentTask} (hput : (w.put e.task (some a)).tasks e.task = some task) :
      a = task := by
    simpa [AgentWorld.put] using hput
  cases hmove with
  | rejected hnone =>
      rw [hnone] at ht
      cases ht
  | @called t call hnone =>
      cases put ht
      cases hkey : call.key <;> simp [AgentTask.Reports]
  | passed hold hkey hfree =>
      cases put ht
      trivial
  | hit hold hkey hidem =>
      cases put ht
      trivial
  | missed hold hidem =>
      cases put ht
      trivial
  | named hold hkey =>
      cases put ht
      exact hkey
  | @minted t call uuid channel toId hold hkey =>
      cases put ht
      rintro rfl
      exact absurd (List.mem_cons_self ..) hk
  | @registered t call k' rid channel toId hold hkey =>
      cases put ht
      rintro rfl
      have hrid : call.key = some rid := h.tasks t _ hold
      exact ⟨hrid, h.blank (hsound.tasks t _ hold hrid).1⟩
  | @skipped t call rid channel toId hold hkey =>
      have hrid : call.key = some rid := h.tasks t _ hold
      rw [hkey] at hrid
      cases hrid
  | @opened t call rid channel toId nowMs hold =>
      cases put ht
      rintro rfl
      obtain ⟨hkey, -⟩ := h.tasks t _ hold rfl
      exact ⟨hkey, .start rid nowMs, AList.lookup_insert _, rfl⟩
  | @spawned t fresh call rid channel toId hold hfresh =>
      have hne : t ≠ fresh := by
        rintro rfl
        rw [hfresh] at hold
        cases hold
      simp [AgentWorld.put, AgentWorld.gone, Function.update_of_ne hne] at ht
  | _ => simp [AgentWorld.put, AgentWorld.gone] at ht

/-- Where the record changes, nobody else has anything to do with the run. -/
theorem AgentRecords.others (hsound : AgentSound k tr w) (h : AgentRecords k tr w)
    (hmove : AgentMoves w e w') (ht : w.tasks t = some task) (hne : t ≠ e.task) :
    task.Reports k (w'.runs.lookup k) := by
  have hold := h.tasks t task ht
  have alone {call call' : AgentCall} {stage stage' : AgentStage}
      (hs : w.tasks t = some (.handler call stage)) (hin : stage ≠ .gate)
      (hkey : call.key = some k) (hs' : w.tasks e.task = some (.handler call' stage'))
      (hin' : stage' ≠ .gate) (hkey' : call'.key = some k) : False := by
    have hgate : gateOf w.tasks AgentTask.holds t = some k := by
      rw [gateOf_of_task hs, AgentTask.holds_of_ne hin, hkey]
    have hgate' : gateOf w.tasks AgentTask.holds e.task = some k := by
      rw [gateOf_of_task hs', AgentTask.holds_of_ne hin', hkey']
    exact hne (hsound.guarded.alone hgate hgate')
  rcases hmove.runs k with hsame | ⟨call, channel, toId, nowMs, henter, -⟩ |
    ⟨key, input, run, hworking, -, -⟩
  · rw [hsame]
    exact hold
  · obtain ⟨hkey, -⟩ := h.tasks _ _ henter rfl
    obtain ⟨-, -, hzero⟩ := hsound.tasks _ _ henter hkey
    cases task with
    | working key' rid =>
        rintro rfl
        obtain ⟨hkey', -⟩ := hold rfl
        obtain ⟨-, -, hone⟩ := hsound.tasks _ _ ht hkey'
        omega
    | handler call' stage =>
        cases stage with
        | enter rid channel' toId' =>
            rintro rfl
            exact (alone ht (by simp) (hold rfl).1 henter (by simp) hkey).elim
        | deliver rid channel' toId' =>
            rintro rfl
            exact (alone ht (by simp) (hold rfl).1 henter (by simp) hkey).elim
        | _ => exact hold
  · obtain ⟨hkey, -⟩ := h.tasks _ _ hworking rfl
    obtain ⟨-, -, hone⟩ := hsound.tasks _ _ hworking hkey
    subst hkey
    cases task with
    | working key' rid =>
        rintro rfl
        obtain ⟨hkey', -⟩ := hold rfl
        subst hkey'
        exact absurd (hsound.solo _ _ _ _ ht hworking) hne
    | handler call' stage =>
        cases stage with
        | enter rid channel' toId' =>
            rintro rfl
            obtain ⟨-, -, hzero⟩ := hsound.tasks _ _ ht (hold rfl).1
            omega
        | deliver rid channel' toId' =>
            rintro rfl
            obtain ⟨-, -, hzero⟩ := hsound.tasks _ _ ht (hold rfl).1
            omega
        | _ => exact hold

theorem finished_of_cachedAnswer {runs : HashMap String AgentRunRecord} {nowMs : ℤ}
    {run : AgentRunRecord} (h : cachedAnswer runs rid nowMs = .finished run) :
    runs.lookup rid = some run ∧ run.status ≠ "running" := by
  unfold cachedAnswer at h
  split at h
  · rename_i run' hrun
    split at h
    · rename_i hstatus
      cases h
      exact ⟨hrun, hstatus⟩
    · cases h
  · cases h

theorem AgentRecords.step (hsound : AgentSound k tr w) (h : AgentRecords k tr w)
    (hstep : AgentWorld.Step w e w') (hk : k ∉ w'.minted) : AgentRecords k (tr ++ [e]) w' := by
  have hmove := AgentMoves.of_step hstep
  refine ⟨fun hnone => ?_, fun t a ht => ?_, fun t run hmem => ?_⟩
  · have hold : w.idempotency.lookup k = none := by
      by_contra hsome
      obtain ⟨rid, hrid⟩ := Option.ne_none_iff_exists'.mp hsome
      rw [hsound.moved_idem hmove hrid] at hnone
      cases hnone
    rcases hmove.runs k with hsame | ⟨call, channel, toId, nowMs, henter, -⟩ |
      ⟨key, input, run, hworking, -, -⟩
    · rw [hsame, h.blank hold]
    · obtain ⟨hsome, -⟩ := hsound.tasks _ _ henter (h.tasks _ _ henter rfl).1
      rw [hold] at hsome
      cases hsome
    · obtain ⟨hsome, -⟩ := hsound.tasks _ _ hworking (h.tasks _ _ hworking rfl).1
      rw [hold] at hsome
      cases hsome
  · by_cases heq : t = e.task
    · subst heq
      exact AgentRecords.mover hsound h hmove hk ht
    · rcases hmove.tasks_of_ne ht heq with hold | ⟨-, call, rid, channel, toId, hold, rfl, hact⟩
      · exact h.others hsound hmove hold heq
      · have hruns : w'.runs.lookup k = w.runs.lookup k := by
          rcases hmove.runs k with hsame | ⟨call', channel', toId', nowMs, henter, -⟩ |
            ⟨key, input, run, hworking, -, -⟩
          · exact hsame
          · rw [hold] at henter
            cases henter
          · rw [hold] at hworking
            cases hworking
        rw [hruns]
        have hreports := h.tasks _ _ hold
        exact hreports
  · rcases List.mem_append.mp hmem with hmem | hmem
    · obtain ⟨hrun, hstatus⟩ := h.told t run hmem
      refine ⟨?_, hstatus⟩
      rcases hmove.runs k with hsame | ⟨call, channel, toId, nowMs, henter, -⟩ |
        ⟨key, input, run', hworking, -, -⟩
      · rw [hsame, hrun]
      · rw [(h.tasks _ _ henter rfl).2] at hrun
        cases hrun
      · obtain ⟨-, r, hr, hrunning⟩ := h.tasks _ _ hworking rfl
        rw [hr] at hrun
        cases hrun
        exact absurd hrunning hstatus
    · have he : e.act = .answered (some k) (.ok (.finished run)) := by
        rw [← List.mem_singleton.mp hmem]
      obtain ⟨call, rid, nowMs, ht, hkey, heq⟩ := hmove.answer he
      have hrid := hsound.named rid (hsound.tasks _ _ ht hkey)
      subst hrid
      obtain ⟨hrun, hstatus⟩ := finished_of_cachedAnswer heq.symm
      refine ⟨?_, hstatus⟩
      rcases hmove.runs rid with hsame | ⟨call', channel', toId', nowMs', henter, -⟩ |
        ⟨key, input, run', hworking, -, -⟩
      · rw [hsame, hrun]
      · rw [ht] at henter
        cases henter
      · rw [ht] at hworking
        cases hworking

theorem agentRecords_of_run (run : Runs AgentWorld.Step .init tr w) (hk : k ∉ w.minted) :
    AgentRecords k tr w := by
  refine run.invariant (P := fun tr w => k ∉ w.minted → AgentRecords k tr w)
    (fun _ => AgentRecords.init) ?_ hk
  intro tr w e w' hrun h hstep hk'
  exact AgentRecords.step (agentSound_of_run hrun)
    (h ((AgentMoves.of_step hstep).minted_mono hk')) hstep hk'

def sampleAgent : AgentParams := ⟨"hello", some "key-1", true, some "telegram", some "7"⟩

def sampleAgentInput (fresh : ℕ) : AgentInput :=
  ⟨1000, 0, none, none, "id", some ["telegram"], fresh, none, some "done"⟩

/-- A request, one that comes while it is handled, and one that comes when its run is over. -/
def agentTurns : List AgentTurn :=
  .call 0 sampleAgent :: .run 0 (sampleAgentInput 9) :: .call 1 sampleAgent ::
    List.replicate 5 (.run 0 (sampleAgentInput 9)) ++
    List.replicate 2 (.run 1 (sampleAgentInput 8)) ++ .run 9 (sampleAgentInput 8) ::
    .run 1 (sampleAgentInput 8) :: .call 2 sampleAgent ::
    List.replicate 3 (.run 2 (sampleAgentInput 8))

theorem agentTurns_run : (exec AgentWorld.next .init agentTurns).isSome = true := by
  decide

def sampleRecord : AgentRunRecord := ⟨"key-1", "ok", 1000, some 1000, none, some "done"⟩

end Oclaw.Gateway.Rpc
