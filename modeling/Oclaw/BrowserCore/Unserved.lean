import Oclaw.BrowserCore.Connection

/-!
# Commands that are never served

When the response to a command comes, the future that would put it into the channel of the
command is dropped, and with it the sender. So the command fails with `Connection closed`
because the browser has answered it. A command whose response does not come before the
connection is lost has its sender kept in the map, and waits for ever.
-/

namespace Oclaw.BrowserCore

open Oclaw.Lib Oclaw.Protocol

variable {c c' : CdpConnection} {l : CdpLabel} {tr tr' : List CdpLabel} {t t' chan : ℕ} {id : I32}
  {task : CdpTask}

/-! ## §1  What a step can do -/

/-- `boxes` are left out: no step changes them. -/
inductive CdpMoves (c : CdpConnection) : CdpLabel → CdpConnection → Prop where
  | called {t : ℕ} {first : Request} {rest : List Request} (ht : c.tasks t = none) :
      CdpMoves c .internal (c.put t (some ⟨first, rest, .number⟩))
  | numbered {t : ℕ} {task : CdpTask} {next : I32} (ht : c.tasks t = some task)
      (hstage : task.stage = .number) :
      CdpMoves c .internal
        { c.put t (some { task with stage := .register c.nextId }) with nextId := next }
  | registered {t : ℕ} {task : CdpTask} {id : I32} (ht : c.tasks t = some task)
      (hstage : task.stage = .register id) :
      CdpMoves c (.registered t id)
        { c.put t (some { task with stage := .push id c.channels }) with
          pending := c.pending.insert id c.channels
          channels := c.channels + 1 }
  | pushed {t : ℕ} {task : CdpTask} {id : I32} {chan : ℕ} {queue : List CdpCommand}
      (ht : c.tasks t = some task) (hstage : task.stage = .push id chan) :
      CdpMoves c .internal { c.put t (some { task with stage := .wait id chan }) with
        queue := queue }
  | failed {t : ℕ} {task : CdpTask} {id : I32} {chan : ℕ} (ht : c.tasks t = some task)
      (hstage : task.stage = .push id chan) (hrunning : c.running = false) :
      CdpMoves c (.returned t (.error sendFailed)) (c.put t none)
  | served {t : ℕ} {task : CdpTask} {id : I32} {chan : ℕ} {l : CdpLabel} {o : Option CdpTask}
      (ht : c.tasks t = some task) (hstage : task.stage = .wait id chan)
      (hbox : (c.boxes chan).isSome = true) : CdpMoves c l (c.put t o)
  | closed {t : ℕ} {task : CdpTask} {id : I32} {chan : ℕ} (ht : c.tasks t = some task)
      (hstage : task.stage = .wait id chan) (hopen : c.open chan = false) :
      CdpMoves c (.returned t (.error connectionClosed)) (c.put t none)
  | wrote {id : I32} {queue : List CdpCommand} :
      CdpMoves c (.sent id) { c with queue := queue }
  | skipped {queue : List CdpCommand} : CdpMoves c .internal { c with queue := queue }
  | received {id : I32} (hrunning : c.running = true) :
      CdpMoves c (.received id) { c with pending := c.pending.erase id }
  | ended {queue : List CdpCommand} : CdpMoves c .ended { c with queue := queue, running := false }
  | dropped {t : ℕ} {task : CdpTask} (ht : c.tasks t = some task) :
      CdpMoves c (.dropped t) (c.put t none)

theorem CdpMoves.of_send (ht : c.tasks t = some task) (h : c.send t task = some (l, c')) :
    CdpMoves c l c' := by
  unfold CdpConnection.send at h
  cases hstage : task.stage with
  | number =>
      simp only [hstage, Option.some.injEq, Prod.mk.injEq] at h
      obtain ⟨rfl, rfl⟩ := h
      exact .numbered ht hstage
  | register id =>
      simp only [hstage, Option.some.injEq, Prod.mk.injEq] at h
      obtain ⟨rfl, rfl⟩ := h
      exact .registered ht hstage
  | push id chan =>
      simp only [hstage] at h
      split at h
      · split at h
        · simp only [Option.some.injEq, Prod.mk.injEq] at h
          obtain ⟨rfl, rfl⟩ := h
          exact .pushed ht hstage
        · cases h
      · rename_i hrunning
        simp only [Option.some.injEq, Prod.mk.injEq] at h
        obtain ⟨rfl, rfl⟩ := h
        exact .failed ht hstage (by simpa using hrunning)
  | wait id chan =>
      simp only [hstage] at h
      cases hbox : c.boxes chan with
      | some resp =>
          have hsome : (c.boxes chan).isSome = true := by simp [hbox]
          cases hrest : task.rest with
          | nil =>
              simp only [hbox, hrest, Option.some.injEq, Prod.mk.injEq] at h
              obtain ⟨rfl, rfl⟩ := h
              exact .served ht hstage hsome
          | cons next rest =>
              simp only [hbox, hrest, Option.some.injEq, Prod.mk.injEq] at h
              obtain ⟨rfl, rfl⟩ := h
              exact .served ht hstage hsome
      | none =>
          simp only [hbox] at h
          split at h
          · cases h
          · rename_i hopen
            simp only [Option.some.injEq, Prod.mk.injEq] at h
            obtain ⟨rfl, rfl⟩ := h
            exact .closed ht hstage (by simpa using hopen)

theorem CdpMoves.of_loop {input : LoopInput} (hrunning : c.running = true)
    (h : c.loop input = some (l, c')) : CdpMoves c l c' := by
  cases input with
  | command result =>
      simp only [CdpConnection.loop] at h
      cases hqueue : c.queue with
      | nil => simp [hqueue] at h
      | cons cmd queue =>
          cases result with
          | sent =>
              simp only [hqueue, Option.some.injEq, Prod.mk.injEq] at h
              obtain ⟨rfl, rfl⟩ := h
              exact .wrote
          | unserializable =>
              simp only [hqueue, Option.some.injEq, Prod.mk.injEq] at h
              obtain ⟨rfl, rfl⟩ := h
              exact .skipped
          | failed =>
              simp only [hqueue, Option.some.injEq, Prod.mk.injEq] at h
              obtain ⟨rfl, rfl⟩ := h
              exact .ended
  | text json =>
      simp only [CdpConnection.loop] at h
      split at h
      · rename_i resp hresp
        cases hlookup : c.pending.lookup resp.id with
        | some chan =>
            simp only [hlookup, Option.some.injEq, Prod.mk.injEq] at h
            obtain ⟨rfl, rfl⟩ := h
            exact .received hrunning
        | none =>
            simp only [hlookup, Option.some.injEq, Prod.mk.injEq] at h
            obtain ⟨rfl, rfl⟩ := h
            have herase : c.pending.erase resp.id = c.pending :=
              AList.ext (List.kerase_of_notMem_keys (AList.lookup_eq_none.mp hlookup))
            have hmove := @CdpMoves.received c resp.id hrunning
            rwa [herase] at hmove
      · simp only [Option.some.injEq, Prod.mk.injEq] at h
        obtain ⟨rfl, rfl⟩ := h
        exact .skipped
  | other =>
      simp only [CdpConnection.loop, Option.some.injEq, Prod.mk.injEq] at h
      obtain ⟨rfl, rfl⟩ := h
      exact .skipped
  | closed =>
      simp only [CdpConnection.loop, Option.some.injEq, Prod.mk.injEq] at h
      obtain ⟨rfl, rfl⟩ := h
      exact .ended

theorem CdpMoves.of_step (h : CdpConnection.Step c l c') : CdpMoves c l c' := by
  obtain ⟨turn, hnext⟩ := h
  cases turn with
  | call t first rest =>
      simp only [CdpConnection.next] at hnext
      split at hnext
      · rename_i ht
        simp only [Option.some.injEq, Prod.mk.injEq] at hnext
        obtain ⟨rfl, rfl⟩ := hnext
        exact .called (by simpa using ht)
      · cases hnext
  | run t =>
      obtain ⟨task, ht, hsend⟩ := Option.bind_eq_some_iff.mp hnext
      exact CdpMoves.of_send ht hsend
  | loop input =>
      simp only [CdpConnection.next] at hnext
      split at hnext
      · rename_i hrunning
        exact CdpMoves.of_loop hrunning hnext
      · cases hnext
  | drop t =>
      simp only [CdpConnection.next] at hnext
      split at hnext
      · rename_i hsome
        obtain ⟨task, ht⟩ := Option.isSome_iff_exists.mp hsome
        simp only [Option.some.injEq, Prod.mk.injEq] at hnext
        obtain ⟨rfl, rfl⟩ := hnext
        exact .dropped ht
      · cases hnext

theorem CdpMoves.boxes (h : CdpMoves c l c') : c'.boxes = c.boxes := by
  cases h <;> rfl

/-! ## §2  Why a command fails -/

/-- The number and the channel of a command that is registered. -/
def SendStage.entry : SendStage → Option (I32 × ℕ)
  | .push id chan => some (id, chan)
  | .wait id chan => some (id, chan)
  | _ => none

/-- A response with the number has come, or the number was given to another command. -/
def Taken (id : I32) (tr : List CdpLabel) : Prop :=
  .received id ∈ tr ∨ ∃ t, .registered t id ∈ tr

structure CdpSound (tr : List CdpLabel) (c : CdpConnection) : Prop where
  empty : ∀ chan, c.boxes chan = none
  registered : ∀ t task id chan, c.tasks t = some task → task.stage.entry = some (id, chan) →
    ∃ a b, tr = a ++ .registered t id :: b ∧ (c.pending.lookup id = some chan ∨ Taken id b)
  unanswered : ∀ t id, .answered t id ∉ tr
  failed : ∀ t, .returned t (.ok ()) ∉ tr
  closed : ∀ a b t, tr = a ++ .returned t (.error connectionClosed) :: b →
    ∃ id x y, a = x ++ .registered t id :: y ∧ Taken id y

theorem CdpSound.init : CdpSound [] .connect where
  empty chan := rfl
  registered t task id chan ht := by cases ht
  unanswered t id hmem := by cases hmem
  failed t hmem := by cases hmem
  closed a b t h := by cases a <;> cases h

theorem CdpConnection.open_of_lookup (h : c.pending.lookup id = some chan) :
    c.open chan = true :=
  List.any_eq_true.mpr ⟨(id, chan), HashMap.mem_toPairs.mpr h, by simp⟩

theorem Taken.snoc (h : Taken id tr) : Taken id (tr ++ [l]) := by
  rcases h with hmem | ⟨t, hmem⟩
  · exact Or.inl (List.mem_append_left _ hmem)
  · exact Or.inr ⟨t, List.mem_append_left _ hmem⟩

theorem Taken.last (h : l = .received id ∨ ∃ t, l = .registered t id) : Taken id (tr ++ [l]) := by
  rcases h with rfl | ⟨t, rfl⟩
  · exact Or.inl (by simp)
  · exact Or.inr ⟨t, by simp⟩

/-- An entry is only changed by a response or a command with its number. -/
theorem CdpMoves.pending (h : CdpMoves c l c') (id : I32) :
    c'.pending.lookup id = c.pending.lookup id ∨ l = .received id ∨ ∃ t, l = .registered t id := by
  cases h with
  | @registered t task id' ht hstage =>
      by_cases hid : id = id'
      · exact Or.inr (Or.inr ⟨t, hid ▸ rfl⟩)
      · refine Or.inl ?_
        show (c.pending.insert id' _).lookup id = _
        rw [HashMap.lookup_insert_eq, if_neg hid]
  | @received id' hrunning =>
      by_cases hid : id = id'
      · exact Or.inr (Or.inl (hid ▸ rfl))
      · refine Or.inl ?_
        show (c.pending.erase id').lookup id = _
        rw [HashMap.lookup_erase_eq, if_neg hid]
  | _ => exact Or.inl rfl

/-- A command that is registered was so before, or has just been. -/
theorem CdpMoves.entry (h : CdpMoves c l c') (hempty : ∀ chan, c.boxes chan = none)
    (ht : c'.tasks t = some task) (hentry : task.stage.entry = some (id, chan)) :
    (∃ task', c.tasks t = some task' ∧ task'.stage.entry = some (id, chan)) ∨
      (l = .registered t id ∧ c'.pending.lookup id = some chan) := by
  have put {s : ℕ} {o : Option CdpTask} (hput : (c.put s o).tasks t = some task) :
      (t = s ∧ o = some task) ∨ c.tasks t = some task := by
    by_cases heq : t = s
    · subst heq
      exact Or.inl ⟨rfl, by simpa [CdpConnection.put] using hput⟩
    · exact Or.inr (by simpa [CdpConnection.put, Function.update_of_ne heq] using hput)
  have gone {s : ℕ} (hput : (c.put s none).tasks t = some task) : c.tasks t = some task := by
    rcases put hput with ⟨-, hnone⟩ | hold
    · cases hnone
    · exact hold
  cases h with
  | called hnone =>
      rcases put ht with ⟨-, heq⟩ | hold
      · cases heq
        cases hentry
      · exact Or.inl ⟨task, hold, hentry⟩
  | numbered hold hstage =>
      rcases put ht with ⟨-, heq⟩ | hold
      · cases heq
        cases hentry
      · exact Or.inl ⟨task, hold, hentry⟩
  | @registered s task' id' hold hstage =>
      rcases put ht with ⟨rfl, heq⟩ | hold
      · cases heq
        cases hentry
        exact Or.inr ⟨rfl, AList.lookup_insert _⟩
      · exact Or.inl ⟨task, hold, hentry⟩
  | @pushed s task' id' chan' queue hold hstage =>
      rcases put ht with ⟨rfl, heq⟩ | hold'
      · cases heq
        cases hentry
        exact Or.inl ⟨task', hold, by rw [hstage, SendStage.entry]⟩
      · exact Or.inl ⟨task, hold', hentry⟩
  | served hold hstage hbox =>
      rw [hempty] at hbox
      cases hbox
  | failed hold hstage hrunning => exact Or.inl ⟨task, gone ht, hentry⟩
  | closed hold hstage hopen => exact Or.inl ⟨task, gone ht, hentry⟩
  | dropped hold => exact Or.inl ⟨task, gone ht, hentry⟩
  | _ => exact Or.inl ⟨task, ht, hentry⟩

theorem CdpSound.moved_registered (h : CdpSound tr c) (hmove : CdpMoves c l c')
    (ht : c'.tasks t = some task) (hentry : task.stage.entry = some (id, chan)) :
    ∃ a b, tr ++ [l] = a ++ .registered t id :: b ∧
      (c'.pending.lookup id = some chan ∨ Taken id b) := by
  rcases hmove.entry h.empty ht hentry with ⟨task', hold, hentry'⟩ | ⟨rfl, hlookup⟩
  · obtain ⟨a, b, rfl, hsame⟩ := h.registered t task' id chan hold hentry'
    refine ⟨a, b ++ [l], by simp, ?_⟩
    rcases hsame with hlookup | htaken
    · rcases hmove.pending id with hkept | hlast
      · exact Or.inl (hkept.trans hlookup)
      · exact Or.inr (Taken.last hlast)
    · exact Or.inr htaken.snoc
  · exact ⟨tr, [], rfl, Or.inl hlookup⟩

/-- A command that is told that the connection is closed. -/
theorem CdpSound.moved_closed (h : CdpSound tr c)
    (hmove : CdpMoves c (.returned t (.error connectionClosed)) c') :
    ∃ id x y, tr = x ++ .registered t id :: y ∧ Taken id y := by
  generalize hl : CdpLabel.returned t (.error connectionClosed) = l at hmove
  cases hmove with
  | failed ht hstage hrunning =>
      simp only [CdpLabel.returned.injEq, Except.error.injEq] at hl
      exact absurd hl.2 (by decide)
  | served ht hstage hbox =>
      rw [h.empty] at hbox
      cases hbox
  | @closed s task id chan ht hstage hopen =>
      cases hl
      obtain ⟨x, y, htr, hlookup | htaken⟩ :=
        h.registered _ task id chan ht (by rw [hstage, SendStage.entry])
      · rw [CdpConnection.open_of_lookup hlookup] at hopen
        cases hopen
      · exact ⟨id, x, y, htr, htaken⟩
  | _ => cases hl

theorem CdpSound.step (h : CdpSound tr c) (hstep : CdpConnection.Step c l c') :
    CdpSound (tr ++ [l]) c' := by
  have hmove := CdpMoves.of_step hstep
  refine ⟨fun chan => by rw [hmove.boxes, h.empty], fun t task id chan ht hentry =>
    h.moved_registered hmove ht hentry, fun t id hmem => ?_, fun t hmem => ?_,
    fun a b t hsplit => ?_⟩
  · rcases List.mem_append.mp hmem with hmem | hmem
    · exact h.unanswered t id hmem
    · rw [← List.mem_singleton.mp hmem] at hmove
      generalize hl : CdpLabel.answered t id = l at hmove
      cases hmove with
      | served ht hstage hbox =>
          rw [h.empty] at hbox
          cases hbox
      | _ => cases hl
  · rcases List.mem_append.mp hmem with hmem | hmem
    · exact h.failed t hmem
    · rw [← List.mem_singleton.mp hmem] at hmove
      generalize hl : CdpLabel.returned t (.ok ()) = l at hmove
      cases hmove with
      | served ht hstage hbox =>
          rw [h.empty] at hbox
          cases hbox
      | _ => cases hl
  · rcases List.eq_nil_or_concat b with rfl | ⟨b', l', rfl⟩
    · obtain ⟨rfl, hlast⟩ := List.append_inj' hsplit rfl
      rw [List.singleton_inj.mp hlast] at hmove
      exact h.moved_closed hmove
    · rw [List.concat_eq_append, ← List.cons_append, ← List.append_assoc] at hsplit
      exact h.closed a b' t (List.append_inj' hsplit rfl).1

theorem cdpSound_of_run (run : Runs CdpConnection.Step .connect tr c) : CdpSound tr c :=
  run.invariant CdpSound.init (fun _ h hstep => h.step hstep)

/-! ## §3  Waiting for ever -/

/-- A command waits, its sender is in the map, and nobody reads what the browser says. -/
structure Stuck (t : ℕ) (id : I32) (c : CdpConnection) : Prop where
  stopped : c.running = false
  waits : ∃ task chan, c.tasks t = some task ∧ task.stage = .wait id chan ∧
    c.pending.lookup id = some chan

theorem Stuck.step (h : Stuck t id c) (hempty : ∀ chan, c.boxes chan = none)
    (hmove : CdpMoves c l c') (hother : ∀ t', l ≠ .registered t' id) (hkept : l ≠ .dropped t) :
    Stuck t id c' ∧ ∀ result, l ≠ .returned t result := by
  obtain ⟨hover, task, chan, ht, hstage, hlookup⟩ := h
  have hpending : c'.pending.lookup id = some chan := by
    rcases hmove.pending id with hsame | rfl | ⟨t', hreg⟩
    · exact hsame.trans hlookup
    · generalize hl : CdpLabel.received id = l at hmove
      cases hmove with
      | served hold hstage' hbox =>
          rw [hempty] at hbox
          cases hbox
      | received hrunning =>
          rw [hover] at hrunning
          cases hrunning
      | _ => cases hl
    · exact absurd hreg (hother t')
  have other {s : ℕ} {task' : CdpTask} {o : Option CdpTask} (hs : c.tasks s = some task')
      (hne : task'.stage ≠ .wait id chan) : t ≠ s ∧ (c.put s o).tasks t = some task := by
    have hts : t ≠ s := by
      rintro rfl
      rw [ht, Option.some.injEq] at hs
      exact hne (hs ▸ hstage)
    exact ⟨hts, by simpa [CdpConnection.put, Function.update_of_ne hts] using ht⟩
  cases hmove with
  | @called s first rest hnone =>
      have hts : t ≠ s := by
        rintro rfl
        rw [hnone] at ht
        cases ht
      have hsame : (c.put s (some ⟨first, rest, .number⟩)).tasks t = some task := by
        simpa [CdpConnection.put, Function.update_of_ne hts] using ht
      exact ⟨⟨hover, task, chan, hsame, hstage, hpending⟩, by simp⟩
  | numbered hs hstage' =>
      exact ⟨⟨hover, task, chan, (other hs (by simp [hstage'])).2, hstage, hpending⟩, by simp⟩
  | registered hs hstage' =>
      exact ⟨⟨hover, task, chan, (other hs (by simp [hstage'])).2, hstage, hpending⟩, by simp⟩
  | pushed hs hstage' =>
      exact ⟨⟨hover, task, chan, (other hs (by simp [hstage'])).2, hstage, hpending⟩, by simp⟩
  | @failed s task' id' chan' hs hstage' hrunning =>
      obtain ⟨hts, hsame⟩ := other hs (o := none) (by simp [hstage'])
      exact ⟨⟨hover, task, chan, hsame, hstage, hpending⟩, by simp [Ne.symm hts]⟩
  | served hs hstage' hbox =>
      rw [hempty] at hbox
      cases hbox
  | @closed s task' id' chan' hs hstage' hopen =>
      obtain ⟨hts, hsame⟩ := other hs (o := none) (fun heq => by
        rw [hstage'] at heq
        cases heq
        rw [CdpConnection.open_of_lookup hlookup] at hopen
        cases hopen)
      exact ⟨⟨hover, task, chan, hsame, hstage, hpending⟩, by simp [Ne.symm hts]⟩
  | @dropped s task' hs =>
      have hts : t ≠ s := fun heq => hkept (heq ▸ rfl)
      have hsame : (c.put s none).tasks t = some task := by
        simpa [CdpConnection.put, Function.update_of_ne hts] using ht
      exact ⟨⟨hover, task, chan, hsame, hstage, hpending⟩, by simp⟩
  | received hrunning =>
      rw [hover] at hrunning
      cases hrunning
  | ended => exact ⟨⟨rfl, task, chan, ht, hstage, hpending⟩, by simp⟩
  | wrote => exact ⟨⟨hover, task, chan, ht, hstage, hpending⟩, by simp⟩
  | skipped => exact ⟨⟨hover, task, chan, ht, hstage, hpending⟩, by simp⟩

theorem Stuck.run (run : Runs CdpConnection.Step .connect tr c) (h : Stuck t id c)
    (run' : Runs CdpConnection.Step c tr' c') (hother : ∀ t', .registered t' id ∉ tr')
    (hkept : .dropped t ∉ tr') : Stuck t id c' ∧ ∀ result, .returned t result ∉ tr' := by
  revert hother hkept
  refine run'.invariant (P := fun tr' c' => (∀ t', .registered t' id ∉ tr') → .dropped t ∉ tr' →
    Stuck t id c' ∧ ∀ result, .returned t result ∉ tr') (fun _ _ => ⟨h, by simp⟩) ?_
  intro tr' c₁ l c₂ hrun ih hstep hother hkept
  simp only [List.mem_append, List.mem_singleton, not_or] at hother hkept
  obtain ⟨hstuck, hnone⟩ := ih (fun t' => (hother t').1) hkept.1
  have hempty := (cdpSound_of_run (run.append hrun)).empty
  obtain ⟨hstuck', hnot⟩ := hstuck.step hempty (CdpMoves.of_step hstep)
    (fun t' heq => (hother t').2 heq.symm) (fun heq => hkept.2 heq.symm)
  refine ⟨hstuck', fun result hmem => ?_⟩
  rcases List.mem_append.mp hmem with hmem | hmem
  · exact hnone result hmem
  · exact hnot result (List.mem_singleton.mp hmem).symm

/-- In every interleaving of commands, the task in the background and what the browser says: no
command returns a response. One that fails with `Connection closed` does so because its response
has come, or its number was used again; and one that waits for its response when the connection
is lost never returns. -/
theorem commands_unserved (run : Runs CdpConnection.Step .connect tr c) :
    (∀ t id, .answered t id ∉ tr) ∧ (∀ t, .returned t (.ok ()) ∉ tr) ∧
    (∀ a b t, tr = a ++ .returned t (.error connectionClosed) :: b →
      ∃ id x y, a = x ++ .registered t id :: y ∧ Taken id y) ∧
    ∀ t id, Stuck t id c → ∀ tr' c', Runs CdpConnection.Step c tr' c' →
      (∀ t', .registered t' id ∉ tr') → .dropped t ∉ tr' →
      ∀ result, .returned t result ∉ tr' := by
  have hsound := cdpSound_of_run run
  exact ⟨hsound.unanswered, hsound.failed, hsound.closed,
    fun t id hstuck tr' c' run' hother hkept => (hstuck.run run run' hother hkept).2⟩

/-- A page enables its domains, and the browser answers the first command. A second command
waits when the connection is lost. -/
def pageTurns : List CdpTurn :=
  .call 0 ⟨"Page.enable", none⟩ (enableDomains ["Network", "Runtime", "Console"]) ::
    List.replicate 3 (.run 0) ++
    .loop (.command .sent) :: .loop (.text (some (.obj [("id", .num (.int 1 (by decide)))]))) ::
    .run 0 :: .call 1 ⟨"Page.reload", none⟩ [] :: List.replicate 3 (.run 1) ++ [.loop .closed]

theorem pageTurns_run : (exec CdpConnection.next .connect pageTurns).isSome = true := by
  decide

theorem commands_unserved_sample :
    ∃ tr c, Runs CdpConnection.Step .connect tr c ∧
      .returned 0 (.error connectionClosed) ∈ tr ∧ .ended ∈ tr ∧
      (∀ t id, .answered t id ∉ tr) ∧ (∀ t, .returned t (.ok ()) ∉ tr) ∧
      (∀ a b t, tr = a ++ .returned t (.error connectionClosed) :: b →
        ∃ id x y, a = x ++ .registered t id :: y ∧ Taken id y) ∧
      ∀ t id, Stuck t id c → ∀ tr' c', Runs CdpConnection.Step c tr' c' →
        (∀ t', .registered t' id ∉ tr') → .dropped t ∉ tr' →
        ∀ result, .returned t result ∉ tr' := by
  have hrun := runs_of_exec_isSome pageTurns pageTurns_run
  exact ⟨_, _, hrun, by decide, by decide, commands_unserved hrun⟩

end Oclaw.BrowserCore
