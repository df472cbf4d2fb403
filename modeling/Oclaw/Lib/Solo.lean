import Mathlib.Data.Finset.Basic
import Mathlib.Data.Fintype.EquivFin
import Oclaw.Lib.RwLock

/-!
# Calls one after the other

A call that runs alone finds every lock free, so it goes from action to action and ends
with an answer. When the calls of a service compute a function of the data in this way,
every sequence of them is a run of the service.
-/

namespace Oclaw.Lib

section

variable {L A R C E D : Type} [DecidableEq L] {svc : Service L A R C E D}
variable {s s' : Sys L A R D} {t : ℕ} {p : Prog L A R} {d d' d'' : D} {r r' : R}

/-- What the actions of a program do when nothing comes between them. -/
inductive Prog.Completes (exec : A → D → D × Prog L A R) :
    Prog L A R → D → D → R → Prop where
  | halt {r : R} {d : D} : Completes exec (.halt r) d d r
  | lock {l : L} {m : Mode} {k : Prog L A R} {d d' : D} {r : R} :
      Completes exec k d d' r → Completes exec (.lock l m k) d d' r
  | unlock {l : L} {m : Mode} {k : Prog L A R} {d d' : D} {r : R} :
      Completes exec k d d' r → Completes exec (.unlock l m k) d d' r
  | act {a : A} {d d' : D} {r : R} :
      Completes exec (exec a d).2 (exec a d).1 d' r → Completes exec (.act a) d d' r

/-- No call is in progress, and none waits. -/
structure Quiet (s : Sys L A R D) : Prop where
  idle : ∀ t, s.procs t = none
  free : ∀ l, (s.locks l).waiters = []

/-- One call is in progress, and none waits. -/
structure OnlyCall (s : Sys L A R D) (t : ℕ) (p : Prog L A R) : Prop where
  proc : s.procs t = some p
  alone : ∀ t', t' ≠ t → s.procs t' = none
  free : ∀ l, (s.locks l).waiters = []

omit [DecidableEq L] in
theorem OnlyCall.update {k : Prog L A R} (h : OnlyCall s t p)
    (hprocs : s'.procs = Function.update s.procs t (some k))
    (hfree : ∀ l, (s'.locks l).waiters = []) : OnlyCall s' t k := by
  refine ⟨?_, ?_, hfree⟩
  · rw [hprocs, Function.update_self]
  · intro t' hne
    rw [hprocs, Function.update_of_ne hne]
    exact h.alone t' hne

/-- A lock that the only call does not hold is free. -/
theorem OnlyCall.admits (h : OnlyCall s t p) (hagrees : Agrees svc s) {l : L}
    (hguard : p.guards svc.held l = none) (m : Mode) : (s.locks l).admits m = true := by
  have hnone : ∀ t', svc.guardsAt s t' l = none := by
    intro t'
    by_cases heq : t' = t
    · rw [heq, Sys.guardsAt_eq h.proc, hguard]
    · simp [Service.guardsAt, h.alone t' heq]
  have hwriter : (s.locks l).writer = none := by
    by_contra hsome
    obtain ⟨t', ht'⟩ := Option.ne_none_iff_exists'.mp hsome
    have hheld := hagrees.writer.mp ht'
    rw [hnone] at hheld
    cases hheld
  have hreaders : (s.locks l).readers = [] := by
    rw [List.eq_nil_iff_forall_not_mem]
    intro t' ht'
    have hheld := hagrees.readers.mp ht'
    rw [hnone] at hheld
    cases hheld
  cases m <;> simp [RwLock.admits, hwriter, hreaders]

theorem step_of_eq {i : Turn C E} (h : svc.step s i = some s') : svc.Step s i s' :=
  ⟨i, by rw [Service.next, h]; rfl⟩

/-! What the only call does next. -/

theorem OnlyCall.halts (h : OnlyCall s t (.halt r)) :
    ∃ tr s', Runs svc.Step s tr s' ∧ Quiet s' ∧ s'.data = s.data ∧
      s'.replies = s.replies ++ [(t, r)] := by
  have hhalt : svc.step s (.run t) = some { s with
      procs := Function.update s.procs t none, replies := s.replies ++ [(t, r)] } := by
    simp only [Service.step, h.proc]
  refine ⟨_, _, Runs.single (step_of_eq hhalt), ⟨fun t' => ?_, h.free⟩, rfl, rfl⟩
  by_cases heq : t' = t
  · simp [heq]
  · simp [Function.update_of_ne heq, h.alone t' heq]

/-- A lock is requested and granted at once. -/
theorem OnlyCall.locks {l : L} {m : Mode} {k : Prog L A R} (hagrees : Agrees svc s)
    (h : OnlyCall s t (.lock l m k)) :
    ∃ tr s', Runs svc.Step s tr s' ∧ OnlyCall s' t k ∧ s'.data = s.data ∧
      s'.replies = s.replies := by
  have hguard : (Prog.lock l m k).guards svc.held l = none := by simp [Prog.guards]
  have hrequest : svc.step s (.run t) =
      some { s with locks := Function.update s.locks l ((s.locks l).enqueue t m) } := by
    simp [Service.step, h.proc, h.free]
  have hwaits : (((s.locks l).enqueue t m).waiters) = [(t, m)] := by
    simp [RwLock.enqueue, h.free]
  have hadmits : ((s.locks l).enqueue t m).admits m = true := by
    have hadmits := h.admits hagrees hguard m
    cases m <;> simpa [RwLock.admits, RwLock.enqueue] using hadmits
  have hgrant : svc.step
      { s with locks := Function.update s.locks l ((s.locks l).enqueue t m) } (.run t) =
      some { s with
        locks := Function.update s.locks l (((s.locks l).enqueue t m).grant t m)
        procs := Function.update s.procs t (some k) } := by
    simp [Service.step, h.proc, hwaits, hadmits]
  refine ⟨_, _, (Runs.single (step_of_eq hrequest)).snoc (step_of_eq hgrant), h.update rfl ?_,
    rfl, rfl⟩
  intro l'
  by_cases heq : l' = l
  · subst heq
    cases m <;> simp [RwLock.grant, hwaits]
  · show ((Function.update s.locks l (((s.locks l).enqueue t m).grant t m)) l').waiters = []
    rw [Function.update_of_ne heq]
    exact h.free l'

theorem OnlyCall.unlocks {l : L} {m : Mode} {k : Prog L A R} (h : OnlyCall s t (.unlock l m k)) :
    ∃ tr s', Runs svc.Step s tr s' ∧ OnlyCall s' t k ∧ s'.data = s.data ∧
      s'.replies = s.replies := by
  have hrelease : svc.step s (.run t) = some { s with
      locks := Function.update s.locks l ((s.locks l).release t)
      procs := Function.update s.procs t (some k) } := by
    simp only [Service.step, h.proc]
  refine ⟨_, _, Runs.single (step_of_eq hrelease), h.update rfl ?_, rfl, rfl⟩
  intro l'
  show ((Function.update s.locks l ((s.locks l).release t)) l').waiters = []
  by_cases heq : l' = l
  · subst heq
    rw [Function.update_self]
    exact h.free l'
  · rw [Function.update_of_ne heq]
    exact h.free l'

theorem OnlyCall.acts {a : A} (h : OnlyCall s t (.act a)) :
    ∃ tr s', Runs svc.Step s tr s' ∧ OnlyCall s' t (svc.exec a s.data).2 ∧
      s'.data = (svc.exec a s.data).1 ∧ s'.replies = s.replies := by
  have hact : svc.step s (.run t) = some { s with
      procs := Function.update s.procs t (some (svc.exec a s.data).2)
      data := (svc.exec a s.data).1 } := by
    simp only [Service.step, h.proc]
  exact ⟨_, _, Runs.single (step_of_eq hact), h.update rfl h.free, rfl, rfl⟩

/-- What is left of the program runs from where its first step leads to. -/
theorem OnlyCall.exists_run_of_step {k : Prog L A R} (hagrees : Agrees svc s)
    (hfirst : ∃ tr s', Runs svc.Step s tr s' ∧ OnlyCall s' t k ∧ s'.data = d ∧
      s'.replies = s.replies)
    (hrest : ∀ {s'}, Agrees svc s' → OnlyCall s' t k → s'.data = d →
      ∃ tr s'', Runs svc.Step s' tr s'' ∧ Quiet s'' ∧ s''.data = d' ∧
        s''.replies = s'.replies ++ [(t, r)]) :
    ∃ tr s', Runs svc.Step s tr s' ∧ Quiet s' ∧ s'.data = d' ∧
      s'.replies = s.replies ++ [(t, r)] := by
  obtain ⟨tr, s', run, honly, hdata, hreplies⟩ := hfirst
  obtain ⟨tr', s'', run', hquiet, hdata', hreplies'⟩ :=
    hrest (agrees_of_runs hagrees run) honly hdata
  exact ⟨_, s'', run.append run', hquiet, hdata', by rw [hreplies', hreplies]⟩

/-- **A call that runs alone** ends with the answer and the data that its actions give. -/
theorem OnlyCall.exists_run (hagrees : Agrees svc s) (h : OnlyCall s t p)
    (hdone : p.Completes svc.exec s.data d' r) :
    ∃ tr s', Runs svc.Step s tr s' ∧ Quiet s' ∧ s'.data = d' ∧
      s'.replies = s.replies ++ [(t, r)] := by
  generalize hd : s.data = d at hdone
  induction hdone generalizing s with
  | halt => exact hd ▸ h.halts
  | lock hk ih => exact exists_run_of_step hagrees (hd ▸ h.locks hagrees) ih
  | unlock hk ih => exact exists_run_of_step hagrees (hd ▸ h.unlocks) ih
  | act hk ih => exact exists_run_of_step hagrees (hd ▸ h.acts) ih

/-! ## Sequences of calls -/

/-- Every call can be made, and alone it computes this function of the data. -/
def Service.Computes (svc : Service L A R C E D) (seq : C → D → D × R) : Prop :=
  ∀ c d, ∃ d₁ p, svc.enter c d = some (d₁, p) ∧
    p.Completes svc.exec d₁ (seq c d).1 (seq c d).2

/-- The data and the answers after a sequence of calls, each at its time. -/
def Service.sequence (svc : Service L A R C E D) (seq : C → D → D × R) (cs : List (E × C)) :
    D × List R :=
  cs.foldl (fun x c => ((seq c.2 (svc.env c.1 x.1)).1, x.2 ++ [(seq c.2 (svc.env c.1 x.1)).2]))
    (svc.init, [])

/-- **A sequence of calls is a run.** -/
theorem Service.Computes.exists_run {seq : C → D → D × R} (h : svc.Computes seq)
    (cs : List (E × C)) :
    ∃ tr s, Runs svc.Step svc.start tr s ∧ Quiet s ∧ s.data = (svc.sequence seq cs).1 ∧
      s.replies.map Prod.snd = (svc.sequence seq cs).2 := by
  induction cs using List.reverseRecOn with
  | nil => exact ⟨[], svc.start, .nil, ⟨fun _ => rfl, fun _ => rfl⟩, rfl, rfl⟩
  | append_singleton cs c ih =>
      obtain ⟨tr, s, hrun, hquiet, hdata, hreplies⟩ := ih
      obtain ⟨t, ht⟩ := Infinite.exists_notMem_finset s.calls.toFinset
      have hnew : t ∉ s.calls := fun hmem => ht (List.mem_toFinset.mpr hmem)
      obtain ⟨d₁, p, henter, hdone⟩ := h c.2 (svc.env c.1 s.data)
      have hclock : svc.Step s (.env c.1) { s with data := svc.env c.1 s.data } :=
        step_of_eq rfl
      have hcall : svc.step { s with data := svc.env c.1 s.data } (.call t c.2) =
          some { s with
            calls := t :: s.calls
            procs := Function.update s.procs t (some p)
            data := d₁ } := by
        simp [Service.step, hnew, henter]
      have run := (hrun.snoc hclock).snoc (step_of_eq hcall)
      have honly : OnlyCall { s with
          calls := t :: s.calls
          procs := Function.update s.procs t (some p)
          data := d₁ } t p :=
        ⟨by simp, fun t' hne => by simp [Function.update_of_ne hne, hquiet.idle t'],
          hquiet.free⟩
      obtain ⟨tr', s', hrest, hquiet', hdata', hreplies'⟩ :=
        honly.exists_run (agrees_of_runs agrees_start run) hdone
      refine ⟨_, s', run.append hrest, hquiet', ?_, ?_⟩
      · rw [hdata', hdata]
        simp [Service.sequence]
      · rw [hreplies', List.map_append, hreplies, hdata]
        simp [Service.sequence]

end

end Oclaw.Lib
