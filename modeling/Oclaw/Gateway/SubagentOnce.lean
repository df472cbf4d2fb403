import Oclaw.Gateway.SubagentCleanup

/-!
# One cleanup at a time

However the tasks of a run are interleaved with kills, steers, dropped tasks and restarts,
one of its cleanup flows is at work at a time, the flows make three attempts to announce
it at the most, none after one that succeeded, and call the hook once at the most.

All of it is one invariant, with what each task knows of the entry and of what has
happened. A step leaves the tasks of other runs alone; a step of a flow at work is the
only one that changes the entry of its run in a way that others could mind.
-/

namespace Oclaw.Gateway.Subagents

open Oclaw.Lib Oclaw.Gateway.Announce

variable {hasHooks : Bool} {w w' : World} {r id : String} {t t' : ℕ} {e : Event}
  {tr tr' : List Event} {entry entry' : RunEntry} {x x' : Option RunEntry} {A : List Bool}
  {N : ℕ} {st : Stage} {task old : Task} {new : Option Task} {runs runs' : Registry}
  {input : Input} {nowMs : ℤ}

/-! ## §1  What has happened to a run -/

def Event.attempt? (r : String) : Event → Option Bool
  | .attempt id announced => if id = r then some announced else none
  | _ => none

/-- A cleanup flow calls the hook. -/
def Event.emits (r : String) : Event → Bool
  | .ended id byFlow _ _ => id == r && byFlow
  | _ => false

def attempts (r : String) (tr : List Event) : List Bool := tr.filterMap (Event.attempt? r)

def emissions (r : String) (tr : List Event) : ℕ := (tr.filter (Event.emits r)).length

/-- A step that neither announces the run nor calls its hook from a flow. -/
def Event.Quiet (r : String) (e : Event) : Prop := e.attempt? r = none ∧ e.emits r = false

theorem attempts_of_quiet (h : e.Quiet r) : attempts r (tr ++ [e]) = attempts r tr := by
  simp [attempts, List.filterMap_append, h.1]

theorem emissions_of_quiet (h : e.Quiet r) : emissions r (tr ++ [e]) = emissions r tr := by
  simp [emissions, List.filter_append, h.2]

/-! ## §2  What the tasks know -/

/-- Past the test of the flag, and the flag is not put down yet. -/
def Stage.inside : Stage → Bool
  | .begin => false
  | .schedule _ => false
  | _ => true

def Task.inside (r : String) : Task → Bool
  | .flow id st => id == r && st.inside
  | _ => false

def Task.atWork (r : String) : Task → Bool
  | .running id => id == r
  | _ => false

/-- The task is a cleanup flow of the run, or is going to start one. -/
def Task.flows (r : String) : Task → Bool
  | .flow id _ => id == r
  | .timer id _ => id == r
  | .resume pending => decide (r ∈ pending.map Prod.fst)
  | _ => false

/-- Nothing was announced, the hook was not called, and the attempts are counted. -/
structure Untold (A : List Bool) (N retryCount : ℕ) : Prop where
  failed : true ∉ A
  silent : N = 0
  counted : A.length ≤ retryCount
  left : retryCount < maxAnnounceRetryCount

/-- What a flow knows at its stages. -/
def StageOk (A : List Bool) (N : ℕ) (x : Option RunEntry) : Stage → Prop
  | .read => true ∉ A ∧ N = 0 ∧ ∀ e ∈ x, Untold A N e.announceRetryCount
  | .count entry _ =>
      Untold A N entry.announceRetryCount ∧
        ∀ e ∈ x, e.announceRetryCount = entry.announceRetryCount
  | .announce entry _ =>
      Untold A N entry.announceRetryCount ∧
        ∀ e ∈ x, e.announceRetryCount = entry.announceRetryCount
  | .wait _ => ∀ e ∈ x, Untold A N e.announceRetryCount
  | .retry retryCount _ => Untold A N retryCount
  | .giveUp _ _ => N = 0
  | .emit _ _ => N = 0
  | .call _ _ _ => N = 0
  | _ => True

structure TaskOk (r : String) (A : List Bool) (N : ℕ) (x : Option RunEntry) (task : Task) :
    Prop where
  work : task.atWork r = true → A = [] ∧ N = 0 ∧ ∀ e ∈ x,
    (e.endedAtMs = none ∨ e.cleanupCompletedAtMs.isSome = true) ∧ e.announceRetryCount = 0
  ended : task.flows r = true → ∀ e ∈ x, e.endedAtMs.isSome = true
  stage : ∀ st, task = .flow r st → st.inside = true →
    (∀ e ∈ x, e.cleanupHandled = true) ∧ StageOk A N x st

/-- What the entry says of what has happened. -/
structure EntryOk (A : List Bool) (N : ℕ) (e : RunEntry) : Prop where
  going : e.endedAtMs = none → A = [] ∧ N = 0 ∧ e.announceRetryCount = 0
  untaken : e.cleanupHandled = false → Untold A N e.announceRetryCount

structure Bounded (A : List Bool) (N : ℕ) : Prop where
  attempts : A.length ≤ maxAnnounceRetryCount
  last : true ∉ A.dropLast
  emissions : N ≤ 1

structure Good (r : String) (tr : List Event) (w : World) : Prop where
  bounded : Bounded (attempts r tr) (emissions r tr)
  entry : ∀ e ∈ w.runs.lookup r, EntryOk (attempts r tr) (emissions r tr) e
  task : ∀ t task, w.tasks t = some task →
    TaskOk r (attempts r tr) (emissions r tr) (w.runs.lookup r) task
  alone : ∀ t t' a b, t ≠ t' → w.tasks t = some a → w.tasks t' = some b →
    (a.inside r = true → b.inside r = false) ∧
      (a.atWork r = true → b.atWork r = false ∧ b.flows r = false)
  fresh : r ∉ w.minted → w.runs.lookup r = none ∧ attempts r tr = [] ∧ emissions r tr = 0 ∧
    ∀ t task, w.tasks t = some task → task.atWork r = false ∧ task.flows r = false

theorem eq_false_of_imp {a b : Bool} (h : a = true → b = true) (hb : b = false) : a = false := by
  cases a
  · rfl
  · rw [h rfl] at hb
    cases hb

theorem Task.flows_of_inside (h : task.inside r = true) : task.flows r = true := by
  cases task with
  | flow id st =>
      simp only [Task.inside, Bool.and_eq_true] at h
      exact h.1
  | _ => cases h

theorem good_init : Good r [] .init where
  bounded := ⟨by simp [attempts], by simp [attempts], by simp [emissions]⟩
  entry e he := by simp [World.init] at he
  task t task ht := by cases ht
  alone t t' a b _ ha := by cases ha
  fresh _ := ⟨by simp [World.init], rfl, rfl, fun t task ht => by cases ht⟩

/-! ## §3  Steps that others do not mind -/

/-- The entry is as before in what the tasks look at, or it has been closed. -/
def Eases (e e' : RunEntry) : Prop :=
  e'.announceRetryCount = e.announceRetryCount ∧
    ((e'.endedAtMs = e.endedAtMs ∧ e'.cleanupHandled = e.cleanupHandled ∧
        e'.cleanupCompletedAtMs = e.cleanupCompletedAtMs) ∨
      (e'.endedAtMs.isSome = true ∧ e'.cleanupHandled = true ∧
        e'.cleanupCompletedAtMs.isSome = true))

theorem Eases.refl (e : RunEntry) : Eases e e := ⟨rfl, Or.inl ⟨rfl, rfl, rfl⟩⟩

theorem EntryOk.ease (h : EntryOk A N entry) (he : Eases entry entry') : EntryOk A N entry' := by
  obtain ⟨hcount, ⟨hended, hhandled, -⟩ | ⟨hended, hhandled, -⟩⟩ := he
  · refine ⟨fun hnone => ?_, fun hfree => ?_⟩
    · rw [hcount]
      exact h.going (hended ▸ hnone)
    · rw [hcount]
      exact h.untaken (hhandled ▸ hfree)
  · refine ⟨fun hnone => ?_, fun hfree => ?_⟩
    · rw [hnone] at hended
      cases hended
    · rw [hhandled] at hfree
      cases hfree

theorem StageOk.ease (h : StageOk A N x st)
    (hx : ∀ e' ∈ x', ∃ e ∈ x, e'.announceRetryCount = e.announceRetryCount) :
    StageOk A N x' st := by
  cases st with
  | read =>
      refine ⟨h.1, h.2.1, fun e' he' => ?_⟩
      obtain ⟨e, he, heq⟩ := hx e' he'
      rw [heq]
      exact h.2.2 e he
  | count entry nowMs =>
      refine ⟨h.1, fun e' he' => ?_⟩
      obtain ⟨e, he, heq⟩ := hx e' he'
      rw [heq]
      exact h.2 e he
  | announce entry nowMs =>
      refine ⟨h.1, fun e' he' => ?_⟩
      obtain ⟨e, he, heq⟩ := hx e' he'
      rw [heq]
      exact h.2 e he
  | wait nowMs =>
      intro e' he'
      obtain ⟨e, he, heq⟩ := hx e' he'
      rw [heq]
      exact h e he
  | _ => exact h

theorem TaskOk.ease (h : TaskOk r A N x task) (hx : ∀ e' ∈ x', ∃ e ∈ x, Eases e e') :
    TaskOk r A N x' task where
  work hwork := by
    obtain ⟨hA, hN, hold⟩ := h.work hwork
    refine ⟨hA, hN, fun e' he' => ?_⟩
    obtain ⟨e, he, hcount, hcase⟩ := hx e' he'
    obtain ⟨hclosed, hzero⟩ := hold e he
    refine ⟨?_, hcount.trans hzero⟩
    rcases hcase with ⟨hended, -, hcompleted⟩ | ⟨-, -, hcompleted⟩
    · rwa [hended, hcompleted]
    · exact Or.inr hcompleted
  ended hflows e' he' := by
    obtain ⟨e, he, -, ⟨hended, -, -⟩ | ⟨hended, -, -⟩⟩ := hx e' he'
    · rw [hended]
      exact h.ended hflows e he
    · exact hended
  stage st hst hinside := by
    obtain ⟨hhandled, hstage⟩ := h.stage st hst hinside
    refine ⟨fun e' he' => ?_, hstage.ease fun e' he' => ?_⟩
    · obtain ⟨e, he, -, ⟨-, hsame, -⟩ | ⟨-, hset, -⟩⟩ := hx e' he'
      · rw [hsame]
        exact hhandled e he
      · exact hset
    · obtain ⟨e, he, hcount, -⟩ := hx e' he'
      exact ⟨e, he, hcount⟩

/-- A task that knows no more of the run than another. -/
structure Task.Lighter (r : String) (a b : Task) : Prop where
  inside : a.inside r = true → a = b
  work : a.atWork r = true → b.atWork r = true
  flows : a.flows r = true → b.flows r = true

theorem Task.Lighter.refl (a : Task) : a.Lighter r a := ⟨fun _ => rfl, fun h => h, fun h => h⟩

/-- A task that has nothing to do with the run. -/
def Task.Apart (r : String) (a : Task) : Prop := a.atWork r = false ∧ a.flows r = false

theorem TaskOk.lighter (h : TaskOk r A N x old) (hl : task.Lighter r old) :
    TaskOk r A N x task where
  work hwork := h.work (hl.work hwork)
  ended hflows := h.ended (hl.flows hflows)
  stage st hst hinside := by
    subst hst
    have heq := hl.inside (by simp [Task.inside, hinside])
    exact h.stage st heq.symm hinside

theorem TaskOk.of_apart (h : task.Apart r) : TaskOk r A N x task where
  work hwork := by rw [h.1] at hwork; cases hwork
  ended hflows := by rw [h.2] at hflows; cases hflows
  stage st hst hinside := by
    subst hst
    have hflows := h.2
    simp [Task.flows] at hflows

theorem Task.Apart.not_inside (h : task.Apart r) : task.inside r = false :=
  eq_false_of_imp Task.flows_of_inside h.2

theorem Good.quiet (h : Good r tr w) (hquiet : e.Quiet r) : Good r (tr ++ [e]) w := by
  have hA : attempts r (tr ++ [e]) = attempts r tr := attempts_of_quiet hquiet
  have hN : emissions r (tr ++ [e]) = emissions r tr := emissions_of_quiet hquiet
  exact ⟨by rw [hA, hN]; exact h.bounded, by rw [hA, hN]; exact h.entry,
    by rw [hA, hN]; exact h.task, h.alone, by rw [hA, hN]; exact h.fresh⟩

/-- Steps that ease the entry, and leave no task that knows more. -/
theorem Good.ease (h : Good r tr w) (hminted : w'.minted = w.minted)
    (hentry : ∀ e' ∈ w'.runs.lookup r, ∃ e ∈ w.runs.lookup r, Eases e e')
    (htasks : ∀ t a, w'.tasks t = some a →
      a.Apart r ∨ ∃ b, w.tasks t = some b ∧ a.Lighter r b) :
    Good r tr w' := by
  refine ⟨h.bounded, ?_, ?_, ?_, ?_⟩
  · intro e' he'
    obtain ⟨e, he, heases⟩ := hentry e' he'
    exact (h.entry e he).ease heases
  · intro t a ha
    rcases htasks t a ha with hapart | ⟨b, hb, hlighter⟩
    · exact TaskOk.of_apart hapart
    · exact ((h.task t b hb).lighter hlighter).ease hentry
  · intro t t' a a' hne ha ha'
    rcases htasks t a ha with hapart | ⟨b, hb, hlighter⟩
    · refine ⟨fun hinside => ?_, fun hwork => ?_⟩
      · rw [hapart.not_inside] at hinside
        cases hinside
      · rw [hapart.1] at hwork
        cases hwork
    · rcases htasks t' a' ha' with hapart' | ⟨b', hb', hlighter'⟩
      · exact ⟨fun _ => hapart'.not_inside, fun _ => hapart'⟩
      · obtain ⟨hinside, hwork⟩ := h.alone t t' b b' hne hb hb'
        have hinside' : a'.inside r = true → b'.inside r = true := fun hin => by
          rwa [← hlighter'.inside hin]
        refine ⟨fun hin => ?_, fun hw => ?_⟩
        · exact eq_false_of_imp hinside' (hinside (hlighter.inside hin ▸ hin))
        · obtain ⟨hnot, hnot'⟩ := hwork (hlighter.work hw)
          exact ⟨eq_false_of_imp hlighter'.work hnot, eq_false_of_imp hlighter'.flows hnot'⟩
  · intro hr
    rw [hminted] at hr
    obtain ⟨hnone, hA, hN, hapart⟩ := h.fresh hr
    refine ⟨?_, hA, hN, fun t a ha => ?_⟩
    · by_contra hsome
      obtain ⟨e', he'⟩ := Option.ne_none_iff_exists'.mp hsome
      obtain ⟨e, he, -⟩ := hentry e' he'
      rw [hnone] at he
      cases he
    · rcases htasks t a ha with hap | ⟨b, hb, hlighter⟩
      · exact hap
      · obtain ⟨hwork, hflows⟩ := hapart t b hb
        exact ⟨eq_false_of_imp hlighter.work hwork, eq_false_of_imp hlighter.flows hflows⟩

/-- A new task that is going to start a flow of the run. -/
theorem Good.add (h : Good r tr w) (ht : w.tasks t = none)
    (hwork : task.atWork r = false) (hinside : task.inside r = false)
    (hflows : task.flows r = true → r ∈ w.minted ∧
      (∀ e ∈ w.runs.lookup r, e.endedAtMs.isSome = true) ∧
      ∀ t' b, w.tasks t' = some b → b.atWork r = false) :
    Good r tr (w.put t (some task)) := by
  have hcases {t' : ℕ} {a : Task} (ha : (w.put t (some task)).tasks t' = some a) :
      (t' = t ∧ a = task) ∨ (t' ≠ t ∧ w.tasks t' = some a) := by
    by_cases heq : t' = t
    · subst heq
      simp only [World.put, Function.update_self, Option.some.injEq] at ha
      exact Or.inl ⟨rfl, ha.symm⟩
    · simp only [World.put, Function.update_of_ne heq] at ha
      exact Or.inr ⟨heq, ha⟩
  refine ⟨h.bounded, h.entry, ?_, ?_, ?_⟩
  · intro t' a ha
    rcases hcases ha with ⟨rfl, rfl⟩ | ⟨-, ha⟩
    · refine ⟨fun hw => ?_, fun hf => (hflows hf).2.1, fun st hst hin => ?_⟩
      · rw [hwork] at hw
        cases hw
      · subst hst
        simp [Task.inside, hin] at hinside
    · exact h.task t' a ha
  · intro t₁ t₂ a b hne ha hb
    rcases hcases ha with ⟨rfl, rfl⟩ | ⟨-, hold⟩
    · refine ⟨fun hin => ?_, fun hw => ?_⟩
      · rw [hinside] at hin
        cases hin
      · rw [hwork] at hw
        cases hw
    · rcases hcases hb with ⟨rfl, rfl⟩ | ⟨-, hold'⟩
      · refine ⟨fun _ => hinside, fun hw => ⟨hwork, ?_⟩⟩
        by_contra hf
        have hnot := (hflows (Bool.eq_true_of_not_eq_false hf)).2.2 t₁ a hold
        rw [hw] at hnot
        cases hnot
      · exact h.alone t₁ t₂ a b hne hold hold'
  · intro hr
    obtain ⟨hnone, hA, hN, hapart⟩ := h.fresh hr
    refine ⟨hnone, hA, hN, fun t' a ha => ?_⟩
    rcases hcases ha with ⟨rfl, rfl⟩ | ⟨-, ha⟩
    · refine ⟨hwork, ?_⟩
      by_contra hf
      exact hr (hflows (Bool.eq_true_of_not_eq_false hf)).1
    · exact hapart t' a ha

/-! ## §4  Steps of the task that has the run to itself -/

/-- All other tasks of the run at most wait to start a flow. -/
def Sole (r : String) (w : World) (t : ℕ) : Prop :=
  ∀ t' b, t' ≠ t → w.tasks t' = some b → b.inside r = false ∧ b.atWork r = false

theorem Good.sole (hsole : Sole r w t) (hminted : r ∈ w.minted)
    (hbounded : Bounded (attempts r (tr ++ [e])) (emissions r (tr ++ [e])))
    (hentry : ∀ e' ∈ runs'.lookup r, e'.endedAtMs.isSome = true ∧
      EntryOk (attempts r (tr ++ [e])) (emissions r (tr ++ [e])) e')
    (hnew : ∀ a, new = some a → a.atWork r = false ∧ ∀ st, a = .flow r st → st.inside = true →
      (∀ e ∈ runs'.lookup r, e.cleanupHandled = true) ∧
        StageOk (attempts r (tr ++ [e])) (emissions r (tr ++ [e])) (runs'.lookup r) st)
    {cleanupTasks : Finset String} :
    Good r (tr ++ [e]) { w.put t new with runs := runs', cleanupTasks := cleanupTasks } := by
  have hcases {t' : ℕ} {a : Task} (ha : (w.put t new).tasks t' = some a) :
      (t' = t ∧ new = some a) ∨ (t' ≠ t ∧ w.tasks t' = some a) := by
    by_cases heq : t' = t
    · subst heq
      simp only [World.put, Function.update_self] at ha
      exact Or.inl ⟨rfl, ha⟩
    · simp only [World.put, Function.update_of_ne heq] at ha
      exact Or.inr ⟨heq, ha⟩
  refine ⟨hbounded, fun e he => (hentry e he).2, ?_, ?_, fun hr => absurd hminted hr⟩
  · intro t' a ha
    rcases hcases ha with ⟨rfl, hnewa⟩ | ⟨hne, ha⟩
    · obtain ⟨hwork, hstage⟩ := hnew a hnewa
      refine ⟨fun hw => ?_, fun _ e he => (hentry e he).1, hstage⟩
      rw [hwork] at hw
      cases hw
    · obtain ⟨hinside, hwork⟩ := hsole t' a hne ha
      refine ⟨fun hw => ?_, fun _ e he => (hentry e he).1, fun st hst hin => ?_⟩
      · rw [hwork] at hw
        cases hw
      · subst hst
        simp [Task.inside, hin] at hinside
  · intro t₁ t₂ a b hne ha hb
    rcases hcases ha with ⟨rfl, hnewa⟩ | ⟨hne₁, ha⟩
    · rcases hcases hb with ⟨rfl, -⟩ | ⟨hne₂, hb⟩
      · exact absurd rfl hne
      · obtain ⟨hinside, hwork⟩ := hsole t₂ b hne₂ hb
        refine ⟨fun _ => hinside, fun hw => ?_⟩
        rw [(hnew a hnewa).1] at hw
        cases hw
    · obtain ⟨hinside, hwork⟩ := hsole t₁ a hne₁ ha
      refine ⟨fun hin => ?_, fun hw => ?_⟩
      · rw [hinside] at hin
        cases hin
      · rw [hwork] at hw
        cases hw

/-- A flow at work has the run to itself. -/
theorem Good.sole_of_inside (h : Good r tr w) (ht : w.tasks t = some task)
    (hinside : task.inside r = true) : Sole r w t := by
  intro t' b hne hb
  refine ⟨(h.alone t t' task b hne.symm ht hb).1 hinside, ?_⟩
  by_contra hwork
  have hflows := ((h.alone t' t b task hne hb ht).2 (Bool.eq_true_of_not_eq_false hwork)).2
  rw [Task.flows_of_inside hinside] at hflows
  cases hflows

/-- So has a flow that finds the flag down, -/
theorem Good.sole_of_free (h : Good r tr w) (ht : w.tasks t = some task)
    (hflows : task.flows r = true) (hlookup : w.runs.lookup r = some entry)
    (hfree : entry.cleanupHandled = false) : Sole r w t := by
  intro t' b hne hb
  constructor
  · by_contra hinside
    have hin := Bool.eq_true_of_not_eq_false hinside
    cases b with
    | flow id st =>
        simp only [Task.inside, Bool.and_eq_true, beq_iff_eq] at hin
        obtain ⟨rfl, hst⟩ := hin
        have hhandled := ((h.task t' _ hb).stage st rfl hst).1 entry hlookup
        rw [hfree] at hhandled
        cases hhandled
    | _ => cases hin
  · by_contra hwork
    have hnot := ((h.alone t' t b task hne hb ht).2 (Bool.eq_true_of_not_eq_false hwork)).2
    rw [hflows] at hnot
    cases hnot

/-- and the run's own task. -/
theorem Good.sole_of_work (h : Good r tr w) (ht : w.tasks t = some task)
    (hwork : task.atWork r = true) : Sole r w t := by
  intro t' b hne hb
  obtain ⟨hnot, hflows⟩ := (h.alone t t' task b hne.symm ht hb).2 hwork
  refine ⟨?_, hnot⟩
  by_contra hinside
  have hin := Task.flows_of_inside (Bool.eq_true_of_not_eq_false hinside)
  rw [hflows] at hin
  cases hin

theorem Good.minted_of_flows (h : Good r tr w) (ht : w.tasks t = some task)
    (hflows : task.flows r = true) : r ∈ w.minted := by
  by_contra hr
  have hnot := ((h.fresh hr).2.2.2 t task ht).2
  rw [hflows] at hnot
  cases hnot

theorem Good.minted_of_work (h : Good r tr w) (ht : w.tasks t = some task)
    (hwork : task.atWork r = true) : r ∈ w.minted := by
  by_contra hr
  have hnot := ((h.fresh hr).2.2.2 t task ht).1
  rw [hwork] at hnot
  cases hnot

/-- A step of a flow at work that does not tell anyone. -/
theorem Good.within (h : Good r tr w) (ht : w.tasks t = some (.flow r st))
    (hst : st.inside = true)
    (hruns : ∀ e' ∈ runs'.lookup r, ∃ e ∈ w.runs.lookup r, e'.endedAtMs = e.endedAtMs ∧
      (e'.cleanupHandled = true ∨ Untold (attempts r tr) (emissions r tr) e'.announceRetryCount))
    (hnew : ∀ a, new = some a → ∃ st', a = .flow r st' ∧ (st'.inside = true →
      (∀ e ∈ runs'.lookup r, e.cleanupHandled = true) ∧
        StageOk (attempts r tr) (emissions r tr) (runs'.lookup r) st'))
    {cleanupTasks : Finset String} :
    Good r tr { w.put t new with runs := runs', cleanupTasks := cleanupTasks } := by
  have hinside : (Task.flow r st).inside r = true := by simp [Task.inside, hst]
  have hflows := Task.flows_of_inside hinside
  have hquiet : Event.Quiet r .internal := ⟨rfl, rfl⟩
  have hA : attempts r (tr ++ [.internal]) = attempts r tr := attempts_of_quiet hquiet
  have hN : emissions r (tr ++ [.internal]) = emissions r tr := emissions_of_quiet hquiet
  have hgood : Good r (tr ++ [.internal])
      { w.put t new with runs := runs', cleanupTasks := cleanupTasks } := by
    refine Good.sole (h.sole_of_inside ht hinside) (h.minted_of_flows ht hflows) ?_ ?_ ?_
    · rw [hA, hN]
      exact h.bounded
    · intro e' he'
      obtain ⟨e, he, hended, hcase⟩ := hruns e' he'
      have hsome : e'.endedAtMs.isSome = true := hended ▸ (h.task t _ ht).ended hflows e he
      rw [hA, hN]
      refine ⟨hsome, fun hnone => ?_, fun hfree => ?_⟩
      · rw [hnone] at hsome
        cases hsome
      · rcases hcase with hset | huntold
        · rw [hfree] at hset
          cases hset
        · exact huntold
    · intro a ha
      obtain ⟨st', rfl, hstage⟩ := hnew a ha
      refine ⟨rfl, fun st'' heq hin => ?_⟩
      cases heq
      rw [hA, hN]
      exact hstage hin
  exact ⟨hA ▸ hN ▸ hgood.bounded, hA ▸ hN ▸ hgood.entry, hA ▸ hN ▸ hgood.task, hgood.alone,
    hA ▸ hN ▸ hgood.fresh⟩

/-- A task that goes away, or goes on without knowing more, with the registry as it is or
smaller. -/
theorem Good.moveOn (h : Good r tr w) (ht : w.tasks t = some old)
    (hruns : ∀ e' ∈ runs'.lookup r, ∃ e ∈ w.runs.lookup r, Eases e e')
    (hnew : ∀ a, new = some a → a.Apart r ∨ a.Lighter r old) {cleanupTasks : Finset String} :
    Good r tr { w.put t new with runs := runs', cleanupTasks := cleanupTasks } := by
  refine h.ease rfl hruns ?_
  intro t' a ha
  by_cases heq : t' = t
  · subst heq
    have ha' : new = some a := by simpa [World.put] using ha
    rcases hnew a ha' with hapart | hlighter
    · exact Or.inl hapart
    · exact Or.inr ⟨old, ht, hlighter⟩
  · exact Or.inr ⟨a, by simpa [World.put, heq] using ha, Task.Lighter.refl a⟩

/-- A timer is set by a task that was going to start a flow, or was one. -/
theorem Good.schedule {fresh : ℕ} {asked : Option (String × ℤ)} (h : Good r tr w)
    (hfresh : w.tasks fresh = none)
    (hasked : ∀ delayMs, asked = some (r, delayMs) → r ∈ w.minted ∧
      (∀ e ∈ w.runs.lookup r, e.endedAtMs.isSome = true) ∧
      ∀ t' b, w.tasks t' = some b → b.atWork r = false) :
    Good r tr (w.schedule fresh asked) := by
  cases asked with
  | none => exact h
  | some ask =>
      obtain ⟨id, delayMs⟩ := ask
      simp only [World.schedule]
      split
      · exact h
      · have hadd : Good r tr (w.put fresh (some (.timer id delayMs))) := by
          refine h.add hfresh rfl rfl fun hflows => ?_
          have hid : id = r := by simpa [Task.flows] using hflows
          subst hid
          exact hasked delayMs rfl
        exact ⟨hadd.bounded, hadd.entry, hadd.task, hadd.alone, hadd.fresh⟩

/-! ## §5  The steps of a flow -/

theorem Registry.lookup_patchRun_of_ne {f : RunEntry → RunEntry} (h : r ≠ id) :
    (runs.patchRun id f).lookup r = runs.lookup r := by
  rw [Registry.lookup_patchRun, if_neg h]

theorem Registry.lookup_patchRun_self {f : RunEntry → RunEntry} :
    (runs.patchRun id f).lookup id = (runs.lookup id).map f := by
  rw [Registry.lookup_patchRun, if_pos rfl]

theorem Registry.lookup_finalize_of_ne {mode : String} (h : r ≠ id) :
    (runs.finalize id mode nowMs).lookup r = runs.lookup r := by
  unfold Registry.finalize
  split
  · rw [HashMap.lookup_erase_eq, if_neg h]
  · exact Registry.lookup_patchRun_of_ne h

theorem mem_finalize {mode : String} (he : entry' ∈ (runs.finalize id mode nowMs).lookup id) :
    ∃ e ∈ runs.lookup id, entry' = e.complete nowMs := by
  unfold Registry.finalize at he
  split at he
  · rw [HashMap.lookup_erase_eq, if_pos rfl] at he
    cases he
  · rw [Registry.lookup_patchRun_self] at he
    obtain ⟨e, hlookup, rfl⟩ := Option.map_eq_some_iff.mp he
    exact ⟨e, hlookup, rfl⟩

/-- What a flow leaves of the runs that it is not about. -/
theorem flowStep_apart (hasHooks : Bool) (runs : Registry) (input : Input) (st : Stage)
    (hid : r ≠ id) :
    (∀ e' ∈ (flowStep hasHooks runs id input st).runs.lookup r, e' ∈ runs.lookup r) ∧
      (flowStep hasHooks runs id input st).event.Quiet r ∧
      ∀ a, (flowStep hasHooks runs id input st).task = some a → a.Apart r := by
  have hapart (st' : Stage) : (Task.flow id st').Apart r := by
    simp [Task.Apart, Task.atWork, Task.flows, Ne.symm hid]
  have hquiet : Event.Quiet r .internal := ⟨rfl, rfl⟩
  cases st with
  | begin =>
      simp only [flowStep]
      split
      · exact ⟨fun _ h => h, hquiet, by simp⟩
      · split
        · refine ⟨fun e' he' => ?_, ⟨rfl, rfl⟩, by rintro a ⟨⟩; exact hapart _⟩
          rwa [Registry.lookup_patchRun_of_ne hid] at he'
        · exact ⟨fun _ h => h, hquiet, by simp⟩
  | read =>
      simp only [flowStep]
      split
      · exact ⟨fun _ h => h, hquiet, by simp⟩
      · split
        · exact ⟨fun _ h => h, hquiet, by simp⟩
        · split
          · exact ⟨fun _ h => h, hquiet, by simp⟩
          · split <;> exact ⟨fun _ h => h, hquiet, by rintro a ⟨⟩; exact hapart _⟩
  | count entry nowMs =>
      exact ⟨fun e' he' => Registry.lookup_sweepArchived he', hquiet,
        by rintro a ⟨⟩; exact hapart _⟩
  | announce entry nowMs =>
      refine ⟨fun _ h => h, ⟨?_, rfl⟩, by rintro a ⟨⟩; exact hapart _⟩
      simp [flowStep, Event.attempt?, Ne.symm hid]
  | wait nowMs =>
      refine ⟨fun e' he' => ?_, hquiet, by rintro a ⟨⟩; exact hapart _⟩
      simpa only [flowStep, Registry.lookup_patchRun_of_ne hid] using he'
  | retry retryCount nowMs =>
      refine ⟨fun e' he' => ?_, hquiet, by rintro a ⟨⟩; exact hapart _⟩
      simpa only [flowStep, Registry.lookup_patchRun_of_ne hid] using he'
  | giveUp retryCount nowMs =>
      refine ⟨fun e' he' => ?_, hquiet, by rintro a ⟨⟩; exact hapart _⟩
      simpa only [flowStep, Registry.lookup_patchRun_of_ne hid] using he'
  | emit mode nowMs =>
      simp only [flowStep]
      split
      · exact ⟨fun _ h => h, hquiet, by rintro a ⟨⟩; exact hapart _⟩
      · split <;> exact ⟨fun _ h => h, hquiet, by rintro a ⟨⟩; exact hapart _⟩
  | call mode nowMs entry =>
      refine ⟨fun _ h => h, ⟨rfl, ?_⟩, by rintro a ⟨⟩; exact hapart _⟩
      simp [flowStep, RunEntry.endedEvent, Event.emits, Ne.symm hid]
  | emitted mode nowMs =>
      refine ⟨fun e' he' => ?_, hquiet, by rintro a ⟨⟩; exact hapart _⟩
      simpa only [flowStep, Registry.lookup_patchRun_of_ne hid] using he'
  | finalize mode nowMs =>
      refine ⟨fun e' he' => ?_, ⟨rfl, rfl⟩, by simp [flowStep]⟩
      simpa only [flowStep, Registry.lookup_finalize_of_ne hid] using he'
  | schedule delayMs => exact ⟨fun _ h => h, hquiet, by simp [flowStep]⟩

theorem mem_patchRun {f : RunEntry → RunEntry} (he : entry' ∈ (runs.patchRun id f).lookup id) :
    ∃ e ∈ runs.lookup id, entry' = f e := by
  rw [Registry.lookup_patchRun_self] at he
  obtain ⟨e, hlookup, rfl⟩ := Option.map_eq_some_iff.mp he
  exact ⟨e, hlookup, rfl⟩

/-- The test of the flag. Where it is down, the flow has the run to itself from here on. -/
theorem Good.flow_begin (h : Good r tr w) (ht : w.tasks t = some (.flow r .begin))
    {cleanupTasks : Finset String} :
    Good r (tr ++ [(flowStep hasHooks w.runs r input .begin).event])
      { w.put t (flowStep hasHooks w.runs r input .begin).task with
        runs := (flowStep hasHooks w.runs r input .begin).runs
        cleanupTasks := cleanupTasks } := by
  have hflows : (Task.flow r .begin).flows r = true := by simp [Task.flows]
  have gone : Good r (tr ++ [.internal])
      { w.put t none with runs := w.runs, cleanupTasks := cleanupTasks } :=
    (h.moveOn ht (fun e he => ⟨e, he, Eases.refl e⟩) (by simp)).quiet ⟨rfl, rfl⟩
  simp only [flowStep]
  cases hlookup : w.runs.lookup r with
  | none => exact gone
  | some entry =>
      by_cases hfree : entry.free = true
      · simp only [hfree, if_true]
        have hdown : entry.cleanupHandled = false := by
          simp only [RunEntry.free, Bool.and_eq_true, Bool.not_eq_true'] at hfree
          exact hfree.2
        have hquiet : Event.Quiet r (.begun r) := ⟨rfl, rfl⟩
        have huntold := (h.entry entry hlookup).untaken hdown
        have hended := (h.task t _ ht).ended hflows entry hlookup
        have htaken : ∀ e' ∈ (w.runs.patchRun r RunEntry.take).lookup r, e' = entry.take := by
          intro e' he'
          obtain ⟨e, he, rfl⟩ := mem_patchRun he'
          rw [hlookup] at he
          cases he
          rfl
        refine Good.sole (h.sole_of_free ht hflows hlookup hdown) (h.minted_of_flows ht hflows)
          ?_ ?_ ?_
        · rw [attempts_of_quiet hquiet, emissions_of_quiet hquiet]
          exact h.bounded
        · intro e' he'
          rw [htaken e' he']
          refine ⟨hended, fun hnone => ?_, fun hset => by cases hset⟩
          have hnone' : entry.endedAtMs = none := hnone
          rw [hnone'] at hended
          cases hended
        · rintro a ⟨⟩
          refine ⟨rfl, fun st hst _ => ?_⟩
          cases hst
          rw [attempts_of_quiet hquiet, emissions_of_quiet hquiet]
          refine ⟨fun e' he' => by rw [htaken e' he']; rfl, huntold.failed, huntold.silent,
            fun e' he' => by rw [htaken e' he']; exact huntold⟩
      · simp only [hfree]
        exact gone

/-- An announcement is attempted. -/
theorem Good.flow_announce (h : Good r tr w) {entry : RunEntry} {nowMs : ℤ}
    (ht : w.tasks t = some (.flow r (.announce entry nowMs))) {cleanupTasks : Finset String} :
    Good r (tr ++ [(flowStep hasHooks w.runs r input (.announce entry nowMs)).event])
      { w.put t (flowStep hasHooks w.runs r input (.announce entry nowMs)).task with
        runs := (flowStep hasHooks w.runs r input (.announce entry nowMs)).runs
        cleanupTasks := cleanupTasks } := by
  have hinside : (Task.flow r (.announce entry nowMs)).inside r = true := by
    simp [Task.inside, Stage.inside]
  have hflows := Task.flows_of_inside hinside
  obtain ⟨hhandled, huntold, -⟩ := (h.task t _ ht).stage _ rfl rfl
  simp only [flowStep]
  generalize (input.announced && decide (entry.suppressAnnounceReason ≠ some "killed")) =
    announced
  have hA : attempts r (tr ++ [.attempt r announced]) = attempts r tr ++ [announced] := by
    simp [attempts, List.filterMap_append, Event.attempt?]
  have hN : emissions r (tr ++ [.attempt r announced]) = emissions r tr := by
    simp [emissions, List.filter_append, Event.emits]
  have hlength : (attempts r tr).length < maxAnnounceRetryCount :=
    Nat.lt_of_le_of_lt huntold.counted huntold.left
  refine Good.sole (h.sole_of_inside ht hinside) (h.minted_of_flows ht hflows) ?_ ?_ ?_
  · rw [hA, hN]
    refine ⟨?_, ?_, h.bounded.emissions⟩
    · rw [List.length_append, List.length_singleton]
      omega
    · rw [List.dropLast_concat]
      exact huntold.failed
  · intro e he
    refine ⟨(h.task t _ ht).ended hflows e he, fun hnone => ?_, fun hset => ?_⟩
    · have hsome := (h.task t _ ht).ended hflows e he
      rw [hnone] at hsome
      cases hsome
    · rw [hhandled e he] at hset
      cases hset
  · rintro a ⟨⟩
    refine ⟨rfl, fun st hst _ => ⟨hhandled, ?_⟩⟩
    simp only [Task.flow.injEq, true_and] at hst
    subst hst
    rw [hA, hN]
    unfold decideStage
    split
    · exact huntold.silent
    · rename_i hnot
      dsimp only
      split
      · exact huntold.silent
      · rename_i hmore
        have hfailed : announced = false := by
          cases announced
          · rfl
          · simp at hnot
        refine ⟨?_, huntold.silent, ?_, ?_⟩
        · simp [hfailed, huntold.failed]
        · rw [List.length_append, List.length_singleton]
          exact Nat.succ_le_succ huntold.counted
        · rw [not_or] at hmore
          exact Nat.lt_of_not_le hmore.1

/-- The hook is called. -/
theorem Good.flow_call (h : Good r tr w) {mode : String} {nowMs : ℤ} {entry : RunEntry}
    (ht : w.tasks t = some (.flow r (.call mode nowMs entry))) {cleanupTasks : Finset String} :
    Good r (tr ++ [(flowStep hasHooks w.runs r input (.call mode nowMs entry)).event])
      { w.put t (flowStep hasHooks w.runs r input (.call mode nowMs entry)).task with
        runs := (flowStep hasHooks w.runs r input (.call mode nowMs entry)).runs
        cleanupTasks := cleanupTasks } := by
  have hinside : (Task.flow r (.call mode nowMs entry)).inside r = true := by
    simp [Task.inside, Stage.inside]
  have hflows := Task.flows_of_inside hinside
  obtain ⟨hhandled, hsilent⟩ := (h.task t _ ht).stage _ rfl rfl
  have hsilent' : emissions r tr = 0 := hsilent
  have hA : attempts r (tr ++ [entry.endedEvent r true]) = attempts r tr := by
    simp [attempts, List.filterMap_append, RunEntry.endedEvent, Event.attempt?]
  have hN : emissions r (tr ++ [entry.endedEvent r true]) = 1 := by
    have hone : emissions r (tr ++ [entry.endedEvent r true]) = emissions r tr + 1 := by
      simp [emissions, List.filter_append, RunEntry.endedEvent, Event.emits]
    rw [hone, hsilent']
  simp only [flowStep]
  refine Good.sole (h.sole_of_inside ht hinside) (h.minted_of_flows ht hflows) ?_ ?_ ?_
  · rw [hA, hN]
    exact ⟨h.bounded.attempts, h.bounded.last, Nat.le_refl _⟩
  · intro e he
    refine ⟨(h.task t _ ht).ended hflows e he, fun hnone => ?_, fun hset => ?_⟩
    · have hsome := (h.task t _ ht).ended hflows e he
      rw [hnone] at hsome
      cases hsome
    · rw [hhandled e he] at hset
      cases hset
  · rintro a ⟨⟩
    refine ⟨rfl, fun st hst _ => ⟨hhandled, ?_⟩⟩
    simp only [Task.flow.injEq, true_and] at hst
    subst hst
    trivial

theorem Good.flow_step (h : Good r tr w) (ht : w.tasks t = some (.flow r st))
    {cleanupTasks : Finset String} :
    Good r (tr ++ [(flowStep hasHooks w.runs r input st).event])
      { w.put t (flowStep hasHooks w.runs r input st).task with
        runs := (flowStep hasHooks w.runs r input st).runs, cleanupTasks := cleanupTasks } := by
  have hquiet : Event.Quiet r .internal := ⟨rfl, rfl⟩
  have stay (hst : st.inside = true) : ∀ e' ∈ w.runs.lookup r, ∃ e ∈ w.runs.lookup r,
      e'.endedAtMs = e.endedAtMs ∧ (e'.cleanupHandled = true ∨
        Untold (attempts r tr) (emissions r tr) e'.announceRetryCount) :=
    fun e he => ⟨e, he, rfl, Or.inl (((h.task t _ ht).stage st rfl hst).1 e he)⟩
  cases st with
  | begin => exact h.flow_begin ht
  | read =>
      obtain ⟨hhandled, hfailed, hsilent, huntold⟩ := (h.task t _ ht).stage _ rfl rfl
      have gone : Good r (tr ++ [.internal])
          { w.put t none with runs := w.runs, cleanupTasks := cleanupTasks } :=
        (h.within ht rfl (stay rfl) (by simp)).quiet hquiet
      simp only [flowStep]
      cases hlookup : w.runs.lookup r with
      | none => exact gone
      | some entry =>
          have hsame : ∀ e ∈ w.runs.lookup r, e.announceRetryCount = entry.announceRetryCount := by
            intro e he
            rw [hlookup] at he
            cases he
            rfl
          dsimp only
          split
          · exact gone
          · split
            · exact gone
            · split
              · refine (h.within ht rfl (stay rfl) ?_).quiet hquiet
                rintro a ⟨⟩
                exact ⟨_, rfl, fun _ => ⟨hhandled, huntold entry hlookup, hsame⟩⟩
              · refine (h.within ht rfl (stay rfl) ?_).quiet hquiet
                rintro a ⟨⟩
                exact ⟨_, rfl, fun _ => ⟨hhandled, huntold entry hlookup, hsame⟩⟩
  | count entry nowMs =>
      obtain ⟨hhandled, huntold, hsame⟩ := (h.task t _ ht).stage _ rfl rfl
      have hswept : ∀ e ∈ (w.runs.sweepArchived input.nowMs).lookup r, e ∈ w.runs.lookup r :=
        fun e he => Registry.lookup_sweepArchived he
      refine (h.within ht rfl (fun e he => stay rfl e (hswept e he)) ?_).quiet hquiet
      rintro a ⟨⟩
      refine ⟨_, rfl, fun _ => ⟨fun e he => hhandled e (hswept e he), ?_⟩⟩
      split
      · exact ⟨huntold, fun e he => hsame e (hswept e he)⟩
      · split
        · exact huntold.silent
        · intro e he
          rw [hsame e (hswept e he)]
          exact huntold
  | announce entry nowMs => exact h.flow_announce ht
  | wait nowMs =>
      obtain ⟨-, huntold⟩ := (h.task t _ ht).stage _ rfl rfl
      refine (h.within ht rfl ?_ ?_).quiet hquiet
      · intro e' he'
        obtain ⟨e, he, rfl⟩ := mem_patchRun he'
        exact ⟨e, he, rfl, Or.inr (huntold e he)⟩
      · rintro a ⟨⟩
        exact ⟨_, rfl, fun hin => by cases hin⟩
  | retry retryCount nowMs =>
      obtain ⟨-, huntold⟩ := (h.task t _ ht).stage _ rfl rfl
      refine (h.within ht rfl ?_ ?_).quiet hquiet
      · intro e' he'
        obtain ⟨e, he, rfl⟩ := mem_patchRun he'
        exact ⟨e, he, rfl, Or.inr huntold⟩
      · rintro a ⟨⟩
        exact ⟨_, rfl, fun hin => by cases hin⟩
  | giveUp retryCount nowMs =>
      obtain ⟨hhandled, hsilent⟩ := (h.task t _ ht).stage _ rfl rfl
      have hset : ∀ e' ∈ (w.runs.patchRun r (fun e => e.noteRetry retryCount nowMs)).lookup r,
          ∃ e ∈ w.runs.lookup r, e'.endedAtMs = e.endedAtMs ∧ e'.cleanupHandled = true := by
        intro e' he'
        obtain ⟨e, he, rfl⟩ := mem_patchRun he'
        exact ⟨e, he, rfl, hhandled e he⟩
      refine (h.within ht rfl (fun e' he' => ?_) ?_).quiet hquiet
      · obtain ⟨e, he, hended, hhand⟩ := hset e' he'
        exact ⟨e, he, hended, Or.inl hhand⟩
      · rintro a ⟨⟩
        refine ⟨_, rfl, fun _ => ⟨fun e' he' => ?_, hsilent⟩⟩
        obtain ⟨-, -, -, hhand⟩ := hset e' he'
        exact hhand
  | emit mode nowMs =>
      obtain ⟨hhandled, hsilent⟩ := (h.task t _ ht).stage _ rfl rfl
      simp only [flowStep]
      cases hlookup : w.runs.lookup r with
      | none =>
          refine (h.within ht rfl (stay rfl) ?_).quiet hquiet
          rintro a ⟨⟩
          exact ⟨_, rfl, fun _ => ⟨hhandled, trivial⟩⟩
      | some entry =>
          dsimp only
          split
          · refine (h.within ht rfl (stay rfl) ?_).quiet hquiet
            rintro a ⟨⟩
            exact ⟨_, rfl, fun _ => ⟨hhandled, hsilent⟩⟩
          · refine (h.within ht rfl (stay rfl) ?_).quiet hquiet
            rintro a ⟨⟩
            exact ⟨_, rfl, fun _ => ⟨hhandled, trivial⟩⟩
  | call mode nowMs entry => exact h.flow_call ht
  | emitted mode nowMs =>
      obtain ⟨hhandled, -⟩ := (h.task t _ ht).stage _ rfl rfl
      have hset : ∀ e' ∈ (w.runs.patchRun r (fun e => e.noteEmitted input.nowMs)).lookup r,
          ∃ e ∈ w.runs.lookup r, e'.endedAtMs = e.endedAtMs ∧ e'.cleanupHandled = true := by
        intro e' he'
        obtain ⟨e, he, rfl⟩ := mem_patchRun he'
        exact ⟨e, he, rfl, hhandled e he⟩
      refine (h.within ht rfl (fun e' he' => ?_) ?_).quiet hquiet
      · obtain ⟨e, he, hended, hhand⟩ := hset e' he'
        exact ⟨e, he, hended, Or.inl hhand⟩
      · rintro a ⟨⟩
        refine ⟨_, rfl, fun _ => ⟨fun e' he' => ?_, trivial⟩⟩
        obtain ⟨-, -, -, hhand⟩ := hset e' he'
        exact hhand
  | finalize mode nowMs =>
      refine (h.within ht rfl (fun e' he' => ?_) (by simp [flowStep])).quiet ⟨rfl, rfl⟩
      obtain ⟨e, he, rfl⟩ := mem_finalize he'
      exact ⟨e, he, rfl, Or.inl rfl⟩
  | schedule delayMs =>
      exact (h.moveOn ht (fun e he => ⟨e, he, Eases.refl e⟩) (by simp [flowStep])).quiet hquiet

end Oclaw.Gateway.Subagents
