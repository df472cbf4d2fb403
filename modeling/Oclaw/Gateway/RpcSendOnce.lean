import Oclaw.Gateway.RpcSend

/-!
# What a key is good for

Behind the gate of a key a handler is alone, and what it finds in the cache stays true until
it leaves. So an answer is recorded once, and all requests with the key that succeed get this
answer. A message goes out a second time only after the handler that had sent it was dropped
before it could record its answer.
-/

namespace Oclaw.Gateway.Rpc

open Oclaw.Lib

variable {w w' : SendWorld} {e : SendEvent} {tr : List SendEvent} {t t' : ℕ} {k : String}
  {call : SendCall} {stage stage' : SendStage} {task : SendTask} {p p' : SendPayload}
  {input : SendInput} {dedupe : HashMap String SendPayload}

/-! ## §1  What a step can do -/

inductive SendMoves (w : SendWorld) : SendEvent → SendWorld → Prop where
  | rejected {t : ℕ} {e : RpcError} (ht : w.tasks t = none) :
      SendMoves w ⟨t, .answered none (.error e)⟩ w
  | called {t : ℕ} {call : SendCall} (ht : w.tasks t = none) :
      SendMoves w ⟨t, .internal⟩
        (w.put t (some ⟨call, if call.key.isSome then .gate else .resolve⟩))
  | entered {t : ℕ} {call : SendCall} {k : String} (ht : w.tasks t = some ⟨call, .gate⟩)
      (hkey : call.key = some k) (hfree : w.gates k = none) :
      SendMoves w ⟨t, .internal⟩
        { w.put t (some ⟨call, .lookup⟩) with gates := Function.update w.gates k (some t) }
  | moved {t : ℕ} {call : SendCall} {stage stage' : SendStage} {input : SendInput}
      (ht : w.tasks t = some ⟨call, stage⟩) (hin : stage ≠ .gate)
      (ho : (sendStep w.dedupe call input stage).stage = some stage') :
      SendMoves w ⟨t, (sendStep w.dedupe call input stage).act⟩
        { w.put t (some ⟨call, stage'⟩) with
          dedupe := (sendStep w.dedupe call input stage).dedupe }
  | finished {t : ℕ} {call : SendCall} {stage : SendStage} {input : SendInput}
      (ht : w.tasks t = some ⟨call, stage⟩) (hin : stage ≠ .gate)
      (ho : (sendStep w.dedupe call input stage).stage = none) :
      SendMoves w ⟨t, (sendStep w.dedupe call input stage).act⟩
        { w.gone t with dedupe := (sendStep w.dedupe call input stage).dedupe }
  | dropped {t : ℕ} {task : SendTask} (ht : w.tasks t = some task) :
      SendMoves w ⟨t, .dropped⟩ (w.gone t)

theorem SendMoves.of_step (h : SendWorld.Step w e w') : SendMoves w e w' := by
  obtain ⟨turn, hnext⟩ := h
  cases turn with
  | call t params delivery =>
      simp only [SendWorld.next] at hnext
      split at hnext
      · rename_i ht
        cases hparse : params.parse delivery with
        | error e =>
            simp only [hparse, Option.some.injEq, Prod.mk.injEq] at hnext
            obtain ⟨rfl, rfl⟩ := hnext
            exact .rejected ht
        | ok call =>
            simp only [hparse, Option.some.injEq, Prod.mk.injEq] at hnext
            obtain ⟨rfl, rfl⟩ := hnext
            exact .called ht
      · cases hnext
  | run t input =>
      cases ht : w.tasks t with
      | none => simp [SendWorld.next, ht] at hnext
      | some task =>
          obtain ⟨call, stage⟩ := task
          by_cases hin : stage = .gate
          · subst hin
            cases hkey : call.key with
            | none => simp [SendWorld.next, ht, hkey] at hnext
            | some k =>
                by_cases hfree : w.gates k = none
                · simp only [SendWorld.next, ht, hkey, hfree, if_true, Option.some.injEq,
                    Prod.mk.injEq] at hnext
                  obtain ⟨rfl, rfl⟩ := hnext
                  exact .entered ht hkey hfree
                · simp [SendWorld.next, ht, hkey, hfree] at hnext
          · have hrun : w.next (.run t input) = some (w.advance t call stage input) := by
              cases stage with
              | gate => exact absurd rfl hin
              | _ => simp only [SendWorld.next, ht]
            rw [hrun, Option.some.injEq] at hnext
            unfold SendWorld.advance at hnext
            cases ho : (sendStep w.dedupe call input stage).stage with
            | some stage' =>
                simp only [ho, Prod.mk.injEq] at hnext
                obtain ⟨rfl, rfl⟩ := hnext
                exact .moved ht hin ho
            | none =>
                simp only [ho, Prod.mk.injEq] at hnext
                obtain ⟨rfl, rfl⟩ := hnext
                exact .finished ht hin ho
  | drop t =>
      simp only [SendWorld.next] at hnext
      split at hnext
      · rename_i hsome
        obtain ⟨task, ht⟩ := Option.isSome_iff_exists.mp hsome
        simp only [Option.some.injEq, Prod.mk.injEq] at hnext
        obtain ⟨rfl, rfl⟩ := hnext
        exact .dropped ht
      · cases hnext

theorem SendTask.holds_of_ne (hin : stage ≠ .gate) :
    (⟨call, stage⟩ : SendTask).holds = call.key := by
  cases stage <;> simp_all [SendTask.holds]

/-! ## §2  Behind the gate -/

/-- The cache was looked into without success, and nothing is recorded yet. -/
def SendStage.missed : SendStage → Bool
  | .resolve => true
  | .send _ _ => true
  | .record _ => true
  | _ => false

/-- What the stage of a keyed handler says of the cache. -/
def SendStage.Knows (cached : Option SendPayload) : SendStage → Prop
  | .resolve => cached = none
  | .send _ _ => cached = none
  | .record _ => cached = none
  | .persist payload => cached = some payload
  | _ => True

/-- The sender has not come further, unless the answer is recorded, or the next that
happened to it was that it was dropped. -/
def Settled (w : SendWorld) (k : String) (t : ℕ) (p : SendPayload) (later : List SendEvent) :
    Prop :=
  (w.dedupe.lookup k).isSome = true ∨
    (∃ call, call.key = some k ∧ w.tasks t = some ⟨call, .record p⟩ ∧ ∀ e ∈ later, e.task ≠ t) ∨
    ∃ before after, later = before ++ ⟨t, .dropped⟩ :: after ∧ ∀ e ∈ before, e.task ≠ t

structure SendSound (tr : List SendEvent) (w : SendWorld) : Prop where
  guarded : Guarded w.gates w.tasks SendTask.holds
  knows : ∀ t call stage k, w.tasks t = some ⟨call, stage⟩ → call.key = some k →
    stage.Knows (w.dedupe.lookup k)
  answered : ∀ t k p, ⟨t, .answered (some k) (.ok p)⟩ ∈ tr → w.dedupe.lookup k = some p
  sent : ∀ before t k p later, tr = before ++ ⟨t, .sent (some k) p⟩ :: later →
    Settled w k t p later

theorem SendSound.init : SendSound [] .init where
  guarded := Guarded.empty
  knows t call stage k ht := by cases ht
  answered t k p hmem := by cases hmem
  sent before t k p later heq := by simp at heq

/-! What a step behind the gate does to the cache, and what it tells. -/

theorem sendStep_stage (ho : (sendStep dedupe call input stage).stage = some stage') :
    stage' ≠ .gate := by
  rintro rfl
  cases stage with
  | gate => cases ho
  | lookup =>
      simp only [sendStep] at ho
      split at ho <;> cases ho
  | resolve =>
      simp only [sendStep] at ho
      split at ho <;> cases ho
  | send channel runId =>
      simp only [sendStep] at ho
      split at ho
      · cases ho
      · simp only [Option.some.injEq] at ho
        split at ho <;> cases ho
  | record payload =>
      simp only [sendStep] at ho
      split at ho <;> cases ho
  | persist payload => cases ho

theorem sendStep_dedupe (dedupe : HashMap String SendPayload) (call : SendCall)
    (input : SendInput) (stage : SendStage) :
    (sendStep dedupe call input stage).dedupe = dedupe ∨
      ∃ k p, stage = .record p ∧ call.key = some k ∧
        (sendStep dedupe call input stage).dedupe = dedupe.insert k p := by
  cases stage with
  | gate => exact Or.inl rfl
  | lookup =>
      simp only [sendStep]
      split <;> exact Or.inl rfl
  | resolve =>
      simp only [sendStep]
      split <;> exact Or.inl rfl
  | send channel runId =>
      simp only [sendStep]
      split <;> exact Or.inl rfl
  | record payload =>
      cases hkey : call.key with
      | none =>
          refine Or.inl ?_
          simp [sendStep, hkey]
      | some k =>
          refine Or.inr ⟨k, payload, rfl, rfl, ?_⟩
          simp [sendStep, hkey]
  | persist payload => exact Or.inl rfl

theorem sendStep_sent (h : (sendStep dedupe call input stage).act = .sent (some k) p) :
    call.key = some k ∧ (∃ channel runId, stage = .send channel runId) ∧
      (sendStep dedupe call input stage).stage = some (.record p) := by
  cases stage with
  | gate => cases h
  | lookup =>
      simp only [sendStep] at h
      split at h <;> cases h
  | resolve =>
      simp only [sendStep] at h
      split at h <;> cases h
  | send channel runId =>
      simp only [sendStep] at h ⊢
      split at h
      · cases h
      · simp only [SendAct.sent.injEq] at h
        obtain ⟨hkey, rfl⟩ := h
        refine ⟨hkey, ⟨channel, runId, rfl⟩, ?_⟩
        simp [hkey]
  | record payload =>
      simp only [sendStep] at h
      split at h <;> cases h
  | persist payload => cases h

theorem sendStep_answered
    (h : (sendStep dedupe call input stage).act = .answered (some k) (.ok p)) :
    call.key = some k ∧ ((stage = .lookup ∧ dedupe.lookup k = some p) ∨ stage = .persist p) := by
  cases stage with
  | gate => cases h
  | lookup =>
      simp only [sendStep] at h
      split at h
      · rename_i cached hcached
        simp only [SendAct.answered.injEq, Except.ok.injEq] at h
        obtain ⟨hkey, rfl⟩ := h
        refine ⟨hkey, Or.inl ⟨rfl, ?_⟩⟩
        simpa [hkey] using hcached
      · cases h
  | resolve =>
      simp only [sendStep] at h
      split at h
      · simp at h
      · cases h
  | send channel runId =>
      simp only [sendStep] at h
      split at h
      · simp at h
      · cases h
  | record payload =>
      simp only [sendStep] at h
      split at h <;> cases h
  | persist payload =>
      simp only [sendStep, SendAct.answered.injEq, Except.ok.injEq] at h
      obtain ⟨hkey, rfl⟩ := h
      exact ⟨hkey, Or.inr rfl⟩

/-- What the next stage of a keyed handler says of the cache is true. -/
theorem sendStep_knows (hkey : call.key = some k) (h : stage.Knows (dedupe.lookup k))
    (hin : stage ≠ .gate) (ho : (sendStep dedupe call input stage).stage = some stage') :
    stage'.Knows ((sendStep dedupe call input stage).dedupe.lookup k) := by
  cases stage with
  | gate => exact absurd rfl hin
  | lookup =>
      simp only [sendStep, hkey, Option.bind_some] at ho ⊢
      cases hcached : dedupe.lookup k with
      | some cached => simp [hcached] at ho
      | none =>
          simp only [hcached, Option.some.injEq] at ho
          subst ho
          exact hcached
  | resolve =>
      simp only [sendStep] at ho ⊢
      split at ho
      · cases ho
      · cases ho
        exact h
  | send channel runId =>
      simp only [sendStep] at ho ⊢
      split at ho
      · cases ho
      · simp only [hkey, Option.isSome_some, if_true, Option.some.injEq] at ho
        subst ho
        exact h
  | record payload =>
      simp only [sendStep, hkey, Option.some.injEq] at ho ⊢
      subst ho
      exact AList.lookup_insert _
  | persist payload => cases ho

/-! ## §3  Steps -/

theorem SendSound.moved_guarded (h : SendSound tr w) (hmove : SendMoves w e w') :
    Guarded w'.gates w'.tasks SendTask.holds := by
  have hguarded := h.guarded
  cases hmove with
  | rejected ht => exact hguarded
  | @called t call ht =>
      refine hguarded.stay ?_
      rw [gateOf, ht]
      cases hkey : call.key with
      | none => simp [SendTask.holds, hkey]
      | some k => simp [SendTask.holds]
  | entered ht hkey hfree =>
      exact hguarded.enter (gateOf_of_task ht) hfree (by simpa [SendTask.holds] using hkey)
  | @moved t call stage stage' input ht hin ho =>
      refine hguarded.keep ht ?_
      rw [SendTask.holds_of_ne hin, Option.bind_some, SendTask.holds_of_ne (sendStep_stage ho)]
  | finished ht hin ho => exact hguarded.gone rfl
  | dropped ht => exact hguarded.gone rfl

/-- Nobody else records under a key while a handler is behind its gate. -/
theorem SendSound.others (h : SendSound tr w) (ht : w.tasks t = some ⟨call, stage⟩)
    {call' : SendCall} (ht' : w.tasks t' = some ⟨call', stage'⟩) (hkey' : call'.key = some k)
    (hne : t' ≠ t) :
    stage'.Knows ((sendStep w.dedupe call input stage).dedupe.lookup k) := by
  have hold := h.knows t' call' stage' k ht' hkey'
  rcases sendStep_dedupe w.dedupe call input stage with hsame | ⟨k', p, rfl, hkey, hinsert⟩
  · rw [hsame]
    exact hold
  · rw [hinsert, HashMap.lookup_insert_eq]
    split
    · rename_i heq
      subst heq
      by_cases hin : stage' = .gate
      · subst hin
        trivial
      · have hgate : gateOf w.tasks SendTask.holds t = some k := by
          rw [gateOf_of_task ht]
          exact hkey
        have hgate' : gateOf w.tasks SendTask.holds t' = some k := by
          rw [gateOf_of_task ht', SendTask.holds_of_ne hin, hkey']
        exact absurd (h.guarded.alone hgate' hgate) hne
    · exact hold

theorem SendSound.moved_knows (h : SendSound tr w) (hmove : SendMoves w e w') :
    ∀ t call stage k, w'.tasks t = some ⟨call, stage⟩ → call.key = some k →
      stage.Knows (w'.dedupe.lookup k) := by
  intro t' call' stage'' k ht' hkey'
  cases hmove with
  | rejected ht => exact h.knows t' call' stage'' k ht' hkey'
  | @called t call ht =>
      by_cases heq : t' = t
      · subst heq
        simp only [SendWorld.put, Function.update_self, Option.some.injEq, SendTask.mk.injEq] at ht'
        obtain ⟨rfl, rfl⟩ := ht'
        simp [hkey', SendStage.Knows]
      · simp only [SendWorld.put, Function.update_of_ne heq] at ht'
        exact h.knows t' call' stage'' k ht' hkey'
  | @entered t call k' ht hkey hfree =>
      by_cases heq : t' = t
      · subst heq
        simp only [SendWorld.put, Function.update_self, Option.some.injEq, SendTask.mk.injEq] at ht'
        obtain ⟨rfl, rfl⟩ := ht'
        trivial
      · simp only [SendWorld.put, Function.update_of_ne heq] at ht'
        exact h.knows t' call' stage'' k ht' hkey'
  | @moved t call stage stage' input ht hin ho =>
      by_cases heq : t' = t
      · subst heq
        simp only [SendWorld.put, Function.update_self, Option.some.injEq, SendTask.mk.injEq] at ht'
        obtain ⟨rfl, rfl⟩ := ht'
        exact sendStep_knows hkey' (h.knows t' call stage k ht hkey') hin ho
      · simp only [SendWorld.put, Function.update_of_ne heq] at ht'
        exact h.others ht ht' hkey' heq
  | @finished t call stage input ht hin ho =>
      by_cases heq : t' = t
      · subst heq
        simp [SendWorld.gone] at ht'
      · simp only [SendWorld.gone, Function.update_of_ne heq] at ht'
        exact h.others ht ht' hkey' heq
  | @dropped t task ht =>
      by_cases heq : t' = t
      · subst heq
        simp [SendWorld.gone] at ht'
      · simp only [SendWorld.gone, Function.update_of_ne heq] at ht'
        exact h.knows t' call' stage'' k ht' hkey'

/-- What is recorded stays. -/
theorem SendSound.moved_kept (h : SendSound tr w) (hmove : SendMoves w e w')
    (hk : w.dedupe.lookup k = some p) : w'.dedupe.lookup k = some p := by
  have kept {t : ℕ} {call : SendCall} {stage : SendStage} {input : SendInput}
      (ht : w.tasks t = some ⟨call, stage⟩) :
      (sendStep w.dedupe call input stage).dedupe.lookup k = some p := by
    rcases sendStep_dedupe w.dedupe call input stage with hsame | ⟨k', p', rfl, hkey, hinsert⟩
    · rw [hsame, hk]
    · rw [hinsert, HashMap.lookup_insert_eq]
      split
      · rename_i heq
        subst heq
        -- where an answer is recorded, there was none
        have hnone : w.dedupe.lookup k = none := h.knows t call _ k ht hkey
        rw [hk] at hnone
        cases hnone
      · exact hk
  cases hmove with
  | rejected ht => exact hk
  | called ht => exact hk
  | entered ht hkey hfree => exact hk
  | moved ht hin ho => exact kept ht
  | finished ht hin ho => exact kept ht
  | dropped ht => exact hk

theorem SendSound.moved_answered (h : SendSound tr w) (hmove : SendMoves w e w')
    (he : e.act = .answered (some k) (.ok p)) : w'.dedupe.lookup k = some p := by
  have told {t : ℕ} {call : SendCall} {stage : SendStage} {input : SendInput}
      (ht : w.tasks t = some ⟨call, stage⟩)
      (hact : (sendStep w.dedupe call input stage).act = .answered (some k) (.ok p)) :
      w.dedupe.lookup k = some p := by
    obtain ⟨hkey, ⟨-, hcached⟩ | rfl⟩ := sendStep_answered hact
    · exact hcached
    · exact h.knows t call _ k ht hkey
  refine h.moved_kept hmove ?_
  cases hmove with
  | rejected ht => simp at he
  | called ht => cases he
  | entered ht hkey hfree => cases he
  | moved ht hin ho => exact told ht he
  | finished ht hin ho => exact told ht he
  | dropped ht => cases he

theorem SendMoves.tasks_of_ne (hmove : SendMoves w e w') (hne : e.task ≠ t) :
    w'.tasks t = w.tasks t := by
  cases hmove with
  | rejected ht => rfl
  | called ht => exact Function.update_of_ne (Ne.symm hne) _ _
  | entered ht hkey hfree => exact Function.update_of_ne (Ne.symm hne) _ _
  | moved ht hin ho => exact Function.update_of_ne (Ne.symm hne) _ _
  | finished ht hin ho => exact Function.update_of_ne (Ne.symm hne) _ _
  | dropped ht => exact Function.update_of_ne (Ne.symm hne) _ _

theorem SendSound.moved_settled (h : SendSound tr w) (hmove : SendMoves w e w')
    {later : List SendEvent} (hsettled : Settled w k t p later) :
    Settled w' k t p (later ++ [e]) := by
  rcases hsettled with hsome | ⟨call, hkey, ht, hlater⟩ | ⟨before, after, rfl, hbefore⟩
  · obtain ⟨p', hp'⟩ := Option.isSome_iff_exists.mp hsome
    exact Or.inl (by simp [h.moved_kept hmove hp'])
  · by_cases hne : e.task = t
    · -- the sender's own step: it records, or it is dropped
      cases hmove with
      | rejected ht' =>
          subst hne
          rw [ht'] at ht
          cases ht
      | called ht' =>
          subst hne
          rw [ht'] at ht
          cases ht
      | entered ht' hkey' hfree =>
          subst hne
          rw [ht'] at ht
          cases ht
      | moved ht' hin ho =>
          subst hne
          rw [ht'] at ht
          cases ht
          exact Or.inl (by simp [sendStep, hkey])
      | finished ht' hin ho =>
          subst hne
          rw [ht'] at ht
          cases ht
          simp [sendStep, hkey] at ho
      | dropped ht' =>
          subst hne
          exact Or.inr (Or.inr ⟨later, [], rfl, hlater⟩)
    · refine Or.inr (Or.inl ⟨call, hkey, (hmove.tasks_of_ne hne).trans ht, fun x hx => ?_⟩)
      rcases List.mem_append.mp hx with hx | hx
      · exact hlater x hx
      · rw [List.mem_singleton.mp hx]
        exact hne
  · exact Or.inr (Or.inr ⟨before, after ++ [e], by simp, hbefore⟩)

theorem SendSound.moved_sent (hmove : SendMoves w e w') (he : e.act = .sent (some k) p) :
    Settled w' k e.task p [] := by
  have records {call : SendCall} {stage : SendStage} {input : SendInput}
      (hact : (sendStep w.dedupe call input stage).act = .sent (some k) p) :
      call.key = some k ∧ (sendStep w.dedupe call input stage).stage = some (.record p) :=
    ⟨(sendStep_sent hact).1, (sendStep_sent hact).2.2⟩
  cases hmove with
  | rejected ht => cases he
  | called ht => cases he
  | entered ht hkey hfree => cases he
  | moved ht hin ho =>
      obtain ⟨hkey, hrecord⟩ := records he
      rw [ho] at hrecord
      cases hrecord
      exact Or.inr (Or.inl ⟨_, hkey, by simp [SendWorld.put], by simp⟩)
  | finished ht hin ho =>
      obtain ⟨-, hrecord⟩ := records he
      rw [ho] at hrecord
      cases hrecord
  | dropped ht => cases he

theorem SendSound.step (h : SendSound tr w) (hstep : SendWorld.Step w e w') :
    SendSound (tr ++ [e]) w' := by
  have hmove := SendMoves.of_step hstep
  refine ⟨h.moved_guarded hmove, h.moved_knows hmove, fun t k p hmem => ?_,
    fun before t k p later heq => ?_⟩
  · rcases List.mem_append.mp hmem with hmem | hmem
    · exact h.moved_kept hmove (h.answered t k p hmem)
    · exact h.moved_answered hmove (by rw [← List.mem_singleton.mp hmem])
  · rcases List.eq_nil_or_concat later with rfl | ⟨later, last, rfl⟩
    · obtain ⟨-, hlast⟩ := List.append_inj' heq rfl
      cases hlast
      exact SendSound.moved_sent hmove rfl
    · rw [List.concat_eq_append, ← List.cons_append, ← List.append_assoc] at heq
      obtain ⟨hold, hlast⟩ := List.append_inj' heq rfl
      cases hlast
      rw [List.concat_eq_append]
      exact h.moved_settled hmove (h.sent before t k p later hold)

theorem sendSound_of_run (run : Runs SendWorld.Step .init tr w) : SendSound tr w :=
  run.invariant SendSound.init (fun _ h hstep => h.step hstep)

/-! ## §4  Keys -/

def sampleParams : SendParams :=
  ⟨some "key-1", some "7", some "hello", none, [], some "telegram", none, none⟩

/-- A handler that is dropped after its message went out, a retry, and a third request. -/
def dropTurns : List SendTurn :=
  let input : SendInput := ⟨some ["telegram"], "id", .ok "m-1"⟩
  let input' : SendInput := ⟨some ["telegram"], "id", .ok "m-2"⟩
  .call 0 sampleParams none :: List.replicate 4 (.run 0 input) ++ .drop 0 ::
    .call 1 sampleParams none :: List.replicate 6 (.run 1 input') ++
    .call 2 sampleParams none :: List.replicate 2 (.run 2 input)

theorem dropTurns_run : (exec SendWorld.next .init dropTurns).isSome = true := by
  decide

def samplePayload (messageId : String) : SendPayload :=
  ⟨"key-1", "telegram", messageId, "7", none, none⟩

end Oclaw.Gateway.Rpc
