import Mathlib.Data.Set.Basic
import Mathlib.Data.Fintype.Defs
import Oclaw.Lib.Transition

/-!
# Programs that share read-write locks

A service is a piece of data, guarded by locks, and the programs of its calls. A
program takes guards, drops guards and performs actions; an action reads and writes
the data in one step and chooses the program that follows. Any number of calls run
side by side.

A lock is fair: requests wait in the order in which they were made, and the first of
them is granted when the lock admits it. Every action declares the guards that are
alive while it runs, so that a program's text says what it holds; `Agrees` connects
that to the state of the locks. From it follow mutual exclusion, the invariant rule
`Service.focus_invariant`, and the absence of deadlocks from an order of the locks.
-/

namespace Oclaw.Lib

/-! ## §1  Locks -/

inductive Mode : Type where
  | read
  | write
deriving DecidableEq

/-- A lock: the calls that read, the call that writes, the requests that wait. -/
structure RwLock : Type where
  readers : List ℕ
  writer : Option ℕ
  waiters : List (ℕ × Mode)

namespace RwLock

def idle : RwLock := ⟨[], none, []⟩

def holders (k : RwLock) : List ℕ := k.readers ++ k.writer.toList

/-- The guards that are out leave room for one more of this mode. -/
def admits (k : RwLock) : Mode → Bool
  | .read => k.writer.isNone
  | .write => k.writer.isNone && k.readers.isEmpty

def enqueue (k : RwLock) (t : ℕ) (m : Mode) : RwLock :=
  { k with waiters := k.waiters ++ [(t, m)] }

/-- The first request is granted. -/
def grant (k : RwLock) (t : ℕ) : Mode → RwLock
  | .read => { k with readers := t :: k.readers, waiters := k.waiters.tail }
  | .write => { k with writer := some t, waiters := k.waiters.tail }

def release (k : RwLock) (t : ℕ) : RwLock :=
  { k with
    readers := k.readers.filter (· ≠ t)
    writer := k.writer.filter (· ≠ t) }

end RwLock

/-! ## §2  Programs and services -/

/-- Take and drop guards up to the next action. -/
inductive Prog (L A R : Type) : Type where
  | halt (r : R)
  | lock (l : L) (m : Mode) (k : Prog L A R)
  | unlock (l : L) (m : Mode) (k : Prog L A R)
  | act (a : A)

section Programs

variable {L A R : Type} [DecidableEq L]

namespace Prog

/-- The action that a program performs next. -/
def focus : Prog L A R → Option A
  | halt _ => none
  | lock _ _ k => k.focus
  | unlock _ _ k => k.focus
  | act a => some a

/-- The guards that a program starts with, from those that its action runs under. -/
def guards (held : A → L → Option Mode) : Prog L A R → L → Option Mode
  | halt _ => fun _ => none
  | lock l _ k => Function.update (k.guards held) l none
  | unlock l m k => Function.update (k.guards held) l (some m)
  | act a => held a

/-- Guards match the locks and unlocks around the action, a lock is asked for only
inside those it nests in, and the guards that pin an action are not touched on the way
to it. -/
def Wf (held pins : A → L → Option Mode) (nests : L → L → Prop) : Prog L A R → Prop
  | halt _ => True
  | lock l m k =>
      k.guards held l = some m ∧ (∀ l', l' ≠ l → k.guards held l' ≠ none → nests l' l) ∧
        (∀ a, k.focus = some a → pins a l = none) ∧ k.Wf held pins nests
  | unlock l _ k =>
      k.guards held l = none ∧ (∀ a, k.focus = some a → pins a l = none) ∧
        k.Wf held pins nests
  | act _ => True

end Prog

end Programs

/-- Data behind locks and the programs of the calls. `pins` are those guards of an
action that its call holds from the action before it on. -/
structure Service (L A R C E D : Type) [DecidableEq L] where
  init : D
  /-- The program of a call; `none` if the values it draws are not fresh. -/
  enter : C → D → Option (D × Prog L A R)
  exec : A → D → D × Prog L A R
  /-- What happens outside of the calls: clock readings, the disk. -/
  env : E → D → D
  held : A → L → Option Mode
  pins : A → L → Option Mode
  nests : L → L → Prop
  pins_held : ∀ {a l m}, pins a l = some m → held a l = some m
  enter_wf : ∀ {c d d' p}, enter c d = some (d', p) →
    p.Wf held pins nests ∧ p.guards held = fun _ => none
  exec_wf : ∀ a d, (exec a d).2.Wf held pins nests ∧ (exec a d).2.guards held = held a

/-- The locks, the calls made so far, the rest of the programs of those in progress, the
answers given so far and the data. -/
structure Sys (L A R D : Type) : Type where
  locks : L → RwLock
  calls : List ℕ
  procs : ℕ → Option (Prog L A R)
  replies : List (ℕ × R)
  data : D

/-- Whose turn it is. -/
inductive Turn (C E : Type) : Type where
  | call (t : ℕ) (c : C)
  | run (t : ℕ)
  | env (e : E)

namespace Service

variable {L A R C E D : Type} [DecidableEq L] (svc : Service L A R C E D)

def start : Sys L A R D := ⟨fun _ => .idle, [], fun _ => none, [], svc.init⟩

/-- One turn. A call at a lock first makes its request and then waits until the request
is the first one and the lock admits it. -/
def step (s : Sys L A R D) : Turn C E → Option (Sys L A R D)
  | .call t c =>
      if t ∈ s.calls then none
      else
        (svc.enter c s.data).map (fun (d, p) =>
          { s with
            calls := t :: s.calls
            procs := Function.update s.procs t (some p)
            data := d })
  | .run t =>
      match s.procs t with
      | none => none
      | some (.halt r) =>
          some { s with procs := Function.update s.procs t none, replies := s.replies ++ [(t, r)] }
      | some (.lock l m k) =>
          if (t, m) ∈ (s.locks l).waiters then
            if (s.locks l).waiters.head? = some (t, m) ∧ (s.locks l).admits m = true then
              some { s with
                locks := Function.update s.locks l ((s.locks l).grant t m)
                procs := Function.update s.procs t (some k) }
            else none
          else some { s with locks := Function.update s.locks l ((s.locks l).enqueue t m) }
      | some (.unlock l _ k) =>
          some { s with
            locks := Function.update s.locks l ((s.locks l).release t)
            procs := Function.update s.procs t (some k) }
      | some (.act a) =>
          some { s with
            procs := Function.update s.procs t (some (svc.exec a s.data).2)
            data := (svc.exec a s.data).1 }
  | .env e => some { s with data := svc.env e s.data }

/-- The machine of the service, labelled by its turns. -/
def next (s : Sys L A R D) (i : Turn C E) : Option (Turn C E × Sys L A R D) :=
  (svc.step s i).map (fun s' => (i, s'))

def Step : Sys L A R D → Turn C E → Sys L A R D → Prop := Induced svc.next

/-- The guards of a call. -/
def guardsAt (s : Sys L A R D) (t : ℕ) (l : L) : Option Mode :=
  (s.procs t).bind (fun p => p.guards svc.held l)

end Service

/-- The next action of a call. -/
def Sys.focusAt {L A R D : Type} (s : Sys L A R D) (t : ℕ) : Option A :=
  (s.procs t).bind Prog.focus

/-! ## §3  What a turn can do -/

section Turns

variable {L A R C E D : Type} [DecidableEq L] {svc : Service L A R C E D}
variable {s s' : Sys L A R D} {t t' : ℕ} {l : L} {m : Mode} {p k : Prog L A R} {a : A}

/-- The turns, by what they do. -/
inductive Moves (svc : Service L A R C E D) (s : Sys L A R D) :
    Turn C E → Sys L A R D → Prop where
  | call {t : ℕ} {c : C} {d : D} {p : Prog L A R} (hnew : t ∉ s.calls)
      (henter : svc.enter c s.data = some (d, p)) :
      Moves svc s (.call t c)
        { s with
          calls := t :: s.calls
          procs := Function.update s.procs t (some p)
          data := d }
  | halt {t : ℕ} {r : R} (hproc : s.procs t = some (.halt r)) :
      Moves svc s (.run t)
        { s with procs := Function.update s.procs t none, replies := s.replies ++ [(t, r)] }
  | request {t : ℕ} {l : L} {m : Mode} {k : Prog L A R}
      (hproc : s.procs t = some (.lock l m k)) (hnew : (t, m) ∉ (s.locks l).waiters) :
      Moves svc s (.run t)
        { s with locks := Function.update s.locks l ((s.locks l).enqueue t m) }
  | grant {t : ℕ} {l : L} {m : Mode} {k : Prog L A R}
      (hproc : s.procs t = some (.lock l m k))
      (hhead : (s.locks l).waiters.head? = some (t, m))
      (hadmits : (s.locks l).admits m = true) :
      Moves svc s (.run t)
        { s with
          locks := Function.update s.locks l ((s.locks l).grant t m)
          procs := Function.update s.procs t (some k) }
  | release {t : ℕ} {l : L} {m : Mode} {k : Prog L A R}
      (hproc : s.procs t = some (.unlock l m k)) :
      Moves svc s (.run t)
        { s with
          locks := Function.update s.locks l ((s.locks l).release t)
          procs := Function.update s.procs t (some k) }
  | act {t : ℕ} {a : A} (hproc : s.procs t = some (.act a)) :
      Moves svc s (.run t)
        { s with
          procs := Function.update s.procs t (some (svc.exec a s.data).2)
          data := (svc.exec a s.data).1 }
  | env {e : E} : Moves svc s (.env e) { s with data := svc.env e s.data }

theorem moves_of_step {i : Turn C E} (h : svc.step s i = some s') : Moves svc s i s' := by
  cases i with
  | call t c =>
      simp only [Service.step] at h
      split at h
      · cases h
      · rename_i hnew
        obtain ⟨⟨d, p⟩, henter, rfl⟩ := Option.map_eq_some_iff.mp h
        exact .call hnew henter
  | env e =>
      cases h
      exact .env
  | run t =>
      simp only [Service.step] at h
      split at h
      · cases h
      · rename_i hproc
        cases h
        exact .halt hproc
      · rename_i hproc
        split at h
        · split at h
          · rename_i hgo
            cases h
            exact .grant hproc hgo.1 hgo.2
          · cases h
        · rename_i hnew
          cases h
          exact .request hproc hnew
      · rename_i hproc
        cases h
        exact .release hproc
      · rename_i hproc
        cases h
        exact .act hproc

theorem moves_of_next {i e : Turn C E} (h : svc.next s i = some (e, s')) :
    i = e ∧ Moves svc s e s' := by
  obtain ⟨u, hstep, heq⟩ := Option.map_eq_some_iff.mp h
  cases heq
  exact ⟨rfl, moves_of_step hstep⟩

end Turns

/-! ## §4  Guards and locks -/

section Guards

variable {L A R C E D : Type} [DecidableEq L] {svc : Service L A R C E D}
variable {s s' : Sys L A R D} {t t' : ℕ} {l : L} {m : Mode} {p k : Prog L A R} {a : A}

/-- The locks are in the state that the rest of the programs says. -/
structure Agrees (svc : Service L A R C E D) (s : Sys L A R D) : Prop where
  known : ∀ {t p}, s.procs t = some p → t ∈ s.calls
  wf : ∀ {t p}, s.procs t = some p → p.Wf svc.held svc.pins svc.nests
  readers : ∀ {l t}, t ∈ (s.locks l).readers ↔ svc.guardsAt s t l = some .read
  writer : ∀ {l t}, (s.locks l).writer = some t ↔ svc.guardsAt s t l = some .write
  waiting : ∀ {l t m}, (t, m) ∈ (s.locks l).waiters → ∃ k, s.procs t = some (.lock l m k)
  queued : ∀ l, (s.locks l).waiters.Nodup
  alone : ∀ {l t}, (s.locks l).writer = some t → (s.locks l).readers = []

theorem agrees_start : Agrees svc svc.start where
  known h := by simp [Service.start] at h
  wf h := by simp [Service.start] at h
  readers := by simp [Service.start, RwLock.idle, Service.guardsAt]
  writer := by simp [Service.start, RwLock.idle, Service.guardsAt]
  waiting h := by simp [Service.start, RwLock.idle] at h
  queued := by simp [Service.start, RwLock.idle]
  alone h := by simp [Service.start, RwLock.idle] at h

/-- A call that has not been made has no program. -/
theorem Agrees.free (h : Agrees svc s) (hnew : t ∉ s.calls) : s.procs t = none := by
  by_contra hsome
  obtain ⟨p, hp⟩ := Option.ne_none_iff_exists'.mp hsome
  exact hnew (h.known hp)

theorem Sys.guardsAt_eq {s : Sys L A R D} (h : s.procs t = some p) :
    svc.guardsAt s t l = p.guards svc.held l := by
  simp [Service.guardsAt, h]

theorem guardsAt_update (svc : Service L A R C E D) {o : Option (Prog L A R)}
    (h : s'.procs = Function.update s.procs t o) (t' : ℕ) (l : L) :
    svc.guardsAt s' t' l =
      if t' = t then o.bind (fun p => p.guards svc.held l) else svc.guardsAt s t' l := by
  simp only [Service.guardsAt, h, Function.update_apply]
  split <;> rfl

/-- A call that is at no lock goes on with a program that has the same guards. -/
theorem Agrees.replace (h : Agrees svc s) {o : Option (Prog L A R)}
    (hlocks : s'.locks = s.locks) (hcalls : s.calls ⊆ s'.calls) (ht : t ∈ s'.calls)
    (hprocs : s'.procs = Function.update s.procs t o)
    (hwf : ∀ p, o = some p → p.Wf svc.held svc.pins svc.nests)
    (hguards : ∀ l, o.bind (fun p => p.guards svc.held l) = svc.guardsAt s t l)
    (hlock : ∀ l m k, s.procs t ≠ some (.lock l m k)) : Agrees svc s' := by
  have hsame (t' : ℕ) (l : L) : svc.guardsAt s' t' l = svc.guardsAt s t' l := by
    rw [guardsAt_update svc hprocs]
    split
    · rename_i heq
      rw [heq, hguards]
    · rfl
  constructor
  · intro t' p hp
    rw [hprocs, Function.update_apply] at hp
    split at hp
    · rename_i heq
      exact heq ▸ ht
    · exact hcalls (h.known hp)
  · intro t' p hp
    rw [hprocs, Function.update_apply] at hp
    split at hp
    · exact hwf p hp
    · exact h.wf hp
  · intro l t'
    rw [hlocks, hsame, h.readers]
  · intro l t'
    rw [hlocks, hsame, h.writer]
  · intro l t' m hw
    rw [hlocks] at hw
    obtain ⟨k, hk⟩ := h.waiting hw
    have hne : t' ≠ t := by
      rintro rfl
      exact hlock _ _ _ hk
    exact ⟨k, by rw [hprocs, Function.update_of_ne hne, hk]⟩
  · intro l
    rw [hlocks]
    exact h.queued l
  · intro l t' hw
    rw [hlocks] at hw ⊢
    exact h.alone hw

/-- A call changes the state of the lock that it is at, and its own guard there. -/
theorem Agrees.relock (h : Agrees svc s) {k' : RwLock} {p p' : Prog L A R}
    (hlocks : s'.locks = Function.update s.locks l k') (hcalls : s'.calls = s.calls)
    (hprocs : s'.procs = Function.update s.procs t (some p'))
    (hproc : s.procs t = some p) (hwf : p'.Wf svc.held svc.pins svc.nests)
    (hat : ∀ l' m' k, p = .lock l' m' k → l' = l)
    (hguards : ∀ l', l' ≠ l → p'.guards svc.held l' = p.guards svc.held l')
    (hreaders : ∀ t', t' ∈ k'.readers ↔
      if t' = t then p'.guards svc.held l = some .read else t' ∈ (s.locks l).readers)
    (hwriter : ∀ t', k'.writer = some t' ↔
      if t' = t then p'.guards svc.held l = some .write else (s.locks l).writer = some t')
    (hwaiting : ∀ t' m', (t', m') ∈ k'.waiters →
      if t' = t then ∃ k, p' = .lock l m' k else (t', m') ∈ (s.locks l).waiters)
    (hqueued : k'.waiters.Nodup) (halone : ∀ t', k'.writer = some t' → k'.readers = []) :
    Agrees svc s' := by
  have hafter := guardsAt_update svc hprocs
  have hother (t' : ℕ) (l' : L) (hl : l' ≠ l) : svc.guardsAt s' t' l' = svc.guardsAt s t' l' := by
    rw [hafter]
    split
    · rename_i heq
      rw [heq, Option.bind_some, hguards l' hl, Sys.guardsAt_eq hproc]
    · rfl
  constructor
  · intro t' q hq
    rw [hprocs, Function.update_apply] at hq
    rw [hcalls]
    split at hq
    · rename_i heq
      exact heq ▸ h.known hproc
    · exact h.known hq
  · intro t' q hq
    rw [hprocs, Function.update_apply] at hq
    split at hq
    · cases hq
      exact hwf
    · exact h.wf hq
  · intro l' t'
    rw [hlocks, Function.update_apply]
    split
    · rename_i heq
      rw [heq, hreaders, hafter]
      split
      · rfl
      · exact h.readers
    · rename_i hl
      rw [hother t' l' hl, h.readers]
  · intro l' t'
    rw [hlocks, Function.update_apply]
    split
    · rename_i heq
      rw [heq, hwriter, hafter]
      split
      · rfl
      · exact h.writer
    · rename_i hl
      rw [hother t' l' hl, h.writer]
  · intro l' t' m' hw
    rw [hlocks, Function.update_apply] at hw
    rw [hprocs, Function.update_apply]
    split at hw
    · rename_i heq
      have hw := hwaiting t' m' hw
      split at hw
      · rename_i ht
        obtain ⟨k, hk⟩ := hw
        exact ⟨k, by rw [if_pos ht, hk, heq]⟩
      · rename_i ht
        rw [if_neg ht, heq]
        exact h.waiting hw
    · rename_i hl
      obtain ⟨k, hk⟩ := h.waiting hw
      have ht : t' ≠ t := by
        rintro rfl
        rw [hproc] at hk
        exact hl (hat _ _ _ (Option.some.inj hk))
      exact ⟨k, by rw [if_neg ht, hk]⟩
  · intro l'
    rw [hlocks, Function.update_apply]
    split
    · exact hqueued
    · exact h.queued l'
  · intro l' t' hw
    rw [hlocks, Function.update_apply] at hw ⊢
    split at hw
    · rename_i heq
      rw [if_pos heq]
      exact halone t' hw
    · rename_i hl
      rw [if_neg hl]
      exact h.alone hw

theorem Agrees.enqueue (h : Agrees svc s) (hproc : s.procs t = some (.lock l m k))
    (hnew : (t, m) ∉ (s.locks l).waiters) :
    Agrees svc { s with locks := Function.update s.locks l ((s.locks l).enqueue t m) } := by
  have hnone : (Prog.lock l m k).guards svc.held l = none := by simp [Prog.guards]
  refine h.relock rfl rfl (Function.update_eq_self_iff.mpr hproc.symm).symm hproc (h.wf hproc)
    ?_ (fun _ _ => rfl) ?_ ?_ ?_ ?_ ?_
  · rintro _ _ _ ⟨⟩
    rfl
  · intro t'
    split
    · rename_i heq
      rw [hnone, heq, RwLock.enqueue, h.readers, Sys.guardsAt_eq hproc, hnone]
    · rfl
  · intro t'
    split
    · rename_i heq
      rw [hnone, heq, RwLock.enqueue, h.writer, Sys.guardsAt_eq hproc, hnone]
    · rfl
  · intro t' m' hw
    rcases List.mem_append.mp hw with hw | hw
    · split
      · rename_i heq
        obtain ⟨k', hk'⟩ := h.waiting hw
        rw [heq, hproc] at hk'
        exact ⟨k', Option.some.inj hk'⟩
      · exact hw
    · rw [List.mem_singleton] at hw
      cases hw
      rw [if_pos rfl]
      exact ⟨k, rfl⟩
  · exact List.Nodup.append (h.queued l) (List.nodup_singleton _) (by simpa using hnew)
  · intro t' hw
    exact h.alone hw

theorem RwLock.admits_write {k : RwLock} (h : k.admits .write = true) :
    k.writer = none ∧ k.readers = [] := by
  simpa [RwLock.admits] using h

theorem RwLock.admits_read {k : RwLock} (h : k.admits .read = true) : k.writer = none := by
  simpa [RwLock.admits] using h

theorem RwLock.mem_readers_grant {k : RwLock} :
    t' ∈ (k.grant t m).readers ↔ t' ∈ k.readers ∨ (t' = t ∧ m = .read) := by
  cases m <;> simp [RwLock.grant, or_comm]

theorem RwLock.writer_grant {k : RwLock} (h : k.admits m = true) :
    (k.grant t m).writer = some t' ↔ k.writer = some t' ∨ (t' = t ∧ m = .write) := by
  cases m with
  | read => simp [RwLock.grant]
  | write =>
      rw [(RwLock.admits_write h).1]
      simp [RwLock.grant, eq_comm]

@[simp] theorem RwLock.waiters_grant {k : RwLock} :
    (k.grant t m).waiters = k.waiters.tail := by
  cases m <;> rfl

theorem Agrees.grant (h : Agrees svc s) (hproc : s.procs t = some (.lock l m k))
    (hhead : (s.locks l).waiters.head? = some (t, m)) (hadmits : (s.locks l).admits m = true) :
    Agrees svc { s with
      locks := Function.update s.locks l ((s.locks l).grant t m)
      procs := Function.update s.procs t (some k) } := by
  obtain ⟨hk, -, -, hwf⟩ := h.wf hproc
  have hbefore : svc.guardsAt s t l = none := by
    rw [Sys.guardsAt_eq hproc]
    simp [Prog.guards]
  have hqueue : (s.locks l).waiters = (t, m) :: (s.locks l).waiters.tail := by
    cases hw : (s.locks l).waiters with
    | nil => simp [hw] at hhead
    | cons x xs => simpa [hw] using hhead
  refine h.relock rfl rfl rfl hproc hwf ?_ ?_ ?_ ?_ ?_ ?_ ?_
  · rintro _ _ _ ⟨⟩
    rfl
  · intro l' hl
    rw [Prog.guards, Function.update_of_ne hl]
  · intro t'
    rw [RwLock.mem_readers_grant, hk, h.readers]
    split
    · rename_i heq
      simp [heq, hbefore]
    · simp [*]
  · intro t'
    rw [RwLock.writer_grant hadmits, hk, h.writer]
    split
    · rename_i heq
      simp [heq, hbefore]
    · simp [*]
  · intro t' m' hw
    rw [RwLock.waiters_grant] at hw
    split
    · -- the call waited here once only
      rename_i heq
      obtain ⟨k', hk'⟩ := h.waiting (List.mem_of_mem_tail hw)
      rw [heq, hproc] at hk'
      cases hk'
      have hnodup := h.queued l
      rw [hqueue] at hnodup
      exact absurd (heq ▸ hw) (List.nodup_cons.mp hnodup).1
    · exact List.mem_of_mem_tail hw
  · rw [RwLock.waiters_grant]
    exact (h.queued l).tail
  · intro t' hw
    cases m with
    | read =>
        rw [RwLock.grant, RwLock.admits_read hadmits] at hw
        cases hw
    | write => exact (RwLock.admits_write hadmits).2

theorem Agrees.release (h : Agrees svc s) (hproc : s.procs t = some (.unlock l m k)) :
    Agrees svc { s with
      locks := Function.update s.locks l ((s.locks l).release t)
      procs := Function.update s.procs t (some k) } := by
  obtain ⟨hk, -, hwf⟩ := h.wf hproc
  refine h.relock rfl rfl rfl hproc hwf ?_ ?_ ?_ ?_ ?_ (h.queued l) ?_
  · rintro _ _ _ ⟨⟩
  · intro l' hl
    rw [Prog.guards, Function.update_of_ne hl]
  · intro t'
    rw [RwLock.release, List.mem_filter, hk]
    split
    · simp [*]
    · simp [*]
  · intro t'
    rw [RwLock.release, Option.filter_eq_some_iff, hk]
    split
    · simp [*]
    · simp [*]
  · intro t' m' hw
    split
    · rename_i heq
      obtain ⟨k', hk'⟩ := h.waiting hw
      rw [heq, hproc] at hk'
      cases hk'
    · exact hw
  · intro t' hw
    obtain ⟨hw, -⟩ := Option.filter_eq_some_iff.mp hw
    simp [RwLock.release, h.alone hw]

theorem Agrees.moves (h : Agrees svc s) {i : Turn C E} (hmove : Moves svc s i s') :
    Agrees svc s' := by
  cases hmove with
  | @call t c d p hnew henter =>
      obtain ⟨hwf, hguards⟩ := svc.enter_wf henter
      have hfree := h.free hnew
      refine h.replace rfl (List.subset_cons_self ..) List.mem_cons_self rfl
        (o := some p) (t := t) ?_ ?_ (by simp [hfree])
      · rintro _ ⟨⟩
        exact hwf
      · intro l
        simp [Service.guardsAt, hfree, hguards]
  | @halt t r hproc =>
      refine h.replace rfl (List.Subset.refl _) (h.known hproc) rfl
        (o := none) (t := t) (by simp) ?_ (by simp [hproc])
      intro l
      rw [Sys.guardsAt_eq hproc]
      rfl
  | request hproc hnew => exact h.enqueue hproc hnew
  | grant hproc hhead hadmits => exact h.grant hproc hhead hadmits
  | release hproc => exact h.release hproc
  | @act t a hproc =>
      obtain ⟨hwf, hguards⟩ := svc.exec_wf a s.data
      refine h.replace rfl (List.Subset.refl _) (h.known hproc) rfl
        (o := some (svc.exec a s.data).2) (t := t) ?_ ?_ (by simp [hproc])
      · rintro _ ⟨⟩
        exact hwf
      · intro l
        rw [Sys.guardsAt_eq hproc, Option.bind_some, hguards]
        rfl
  | env => exact ⟨h.known, h.wf, h.readers, h.writer, h.waiting, h.queued, h.alone⟩

/-- A guard for writing is the only guard of its lock. -/
theorem Agrees.exclusive (h : Agrees svc s) (hw : svc.guardsAt s t l = some .write)
    (hg : svc.guardsAt s t' l ≠ none) : t' = t := by
  rw [← h.writer] at hw
  obtain ⟨m, hm⟩ := Option.ne_none_iff_exists'.mp hg
  cases m with
  | read =>
      rw [← h.readers, h.alone hw] at hm
      cases hm
  | write =>
      rw [← h.writer, hw] at hm
      exact (Option.some.inj hm).symm

theorem Agrees.mem_holders (h : Agrees svc s) :
    t ∈ (s.locks l).holders ↔ svc.guardsAt s t l ≠ none := by
  rw [RwLock.holders, List.mem_append, Option.mem_toList, h.readers, h.writer]
  cases hg : svc.guardsAt s t l with
  | none => simp
  | some m => cases m <;> simp

omit [DecidableEq L] in
/-- Of the guards that pin the next action none is taken or dropped on the way to it. -/
theorem Prog.ne_of_pins {pins : A → L → Option Mode} {l₁ : L}
    (hfree : ∀ a, p.focus = some a → pins a l₁ = none) (hfocus : p.focus = some a)
    (hpin : pins a l = some m) : l ≠ l₁ := by
  rintro rfl
  rw [hfree a hfocus] at hpin
  cases hpin

/-- A guard that pins the next action is there already. -/
theorem Prog.guards_of_pins {held pins : A → L → Option Mode} {nests : L → L → Prop}
    (hpins : ∀ {a l m}, pins a l = some m → held a l = some m) :
    ∀ {p : Prog L A R}, p.Wf held pins nests → p.focus = some a → pins a l = some m →
      p.guards held l = some m
  | .halt _, _, hfocus, _ => by cases hfocus
  | .lock l₁ m₁ k, ⟨_, _, hfree, hwf⟩, hfocus, hpin => by
      rw [Prog.guards, Function.update_of_ne (k.ne_of_pins hfree hfocus hpin)]
      exact Prog.guards_of_pins hpins hwf hfocus hpin
  | .unlock l₁ m₁ k, ⟨_, hfree, hwf⟩, hfocus, hpin => by
      rw [Prog.guards, Function.update_of_ne (k.ne_of_pins hfree hfocus hpin)]
      exact Prog.guards_of_pins hpins hwf hfocus hpin
  | .act _, _, hfocus, hpin => by
      cases hfocus
      exact hpins hpin

theorem Agrees.pinned (h : Agrees svc s) (hfocus : s.focusAt t = some a)
    (hpin : svc.pins a l = some m) : svc.guardsAt s t l = some m := by
  obtain ⟨p, hp, hfocus⟩ := Option.bind_eq_some_iff.mp hfocus
  rw [Sys.guardsAt_eq hp]
  exact Prog.guards_of_pins svc.pins_held (h.wf hp) hfocus hpin

theorem agrees_of_runs {i : List (Turn C E)} (h : Agrees svc s) (run : Runs svc.Step s i s') :
    Agrees svc s' := by
  refine run.state_invariant h ?_
  rintro u e v hu ⟨j, hnext⟩
  obtain ⟨rfl, hmove⟩ := moves_of_next hnext
  exact hu.moves hmove

end Guards

/-! ## §5  Invariants of the data and of the next actions -/

section Invariants

variable {L A R C E D : Type} [DecidableEq L] {svc : Service L A R C E D}
variable {s s' : Sys L A R D} {t t' : ℕ} {a : A} {f : ℕ → Option A} {d : D}

/-- The action that is a call's next turn. -/
def Sys.acting (s : Sys L A R D) (t : ℕ) : Option A :=
  match s.procs t with
  | some (.act a) => some a
  | _ => none

/-- A condition on the calls that start and on the actions that run. -/
def TurnsWhere (K : Sys L A R D → C → Prop) (Q : Sys L A R D → ℕ → A → Prop)
    (s : Sys L A R D) : Turn C E → Prop
  | .call _ c => K s c
  | .run t => ∀ a ∈ s.acting t, Q s t a
  | .env _ => True

/-- Every run meets the condition that asks nothing. -/
theorem runs_any {svc : Service L A R C E D} {tr : List (Turn C E)}
    (run : Runs svc.Step s tr s') :
    Runs (StepWhere svc.Step (TurnsWhere (fun _ _ => True) (fun _ _ _ => True))) s tr s' := by
  refine run.mono ?_
  rintro (_ | _ | _) - u v hstep
  · exact ⟨hstep, trivial⟩
  · exact ⟨hstep, fun _ _ => trivial⟩
  · exact ⟨hstep, trivial⟩

instance TurnsWhere.decidable {K : Sys L A R D → C → Prop} {Q : Sys L A R D → ℕ → A → Prop}
    [∀ s c, Decidable (K s c)] [∀ s t a, Decidable (Q s t a)] (s : Sys L A R D) :
    ∀ i : Turn C E, Decidable (TurnsWhere K Q s i)
  | .call _ c => inferInstanceAs (Decidable (K s c))
  | .run t => inferInstanceAs (Decidable (∀ a ∈ s.acting t, Q s t a))
  | .env _ => inferInstanceAs (Decidable True)

/-- What the guards of a running action exclude. -/
def Alone (svc : Service L A R C E D) (f : ℕ → Option A) (t : ℕ) (a : A) : Prop :=
  ∀ ⦃t' a' l⦄, f t' = some a' → t' ≠ t →
    (svc.held a l = some .write → svc.pins a' l = none) ∧
      (svc.held a l ≠ none → svc.pins a' l ≠ some .write)

theorem Agrees.alone_act (h : Agrees svc s) (hproc : s.procs t = some (.act a)) :
    Alone svc s.focusAt t a := by
  intro t' a' l ht' hne
  have hat : svc.guardsAt s t l = svc.held a l := Sys.guardsAt_eq hproc
  constructor
  · intro hw
    by_contra hpin
    obtain ⟨m, hm⟩ := Option.ne_none_iff_exists'.mp hpin
    refine hne (h.exclusive (hat.trans hw) ?_)
    rw [h.pinned ht' hm]
    simp
  · intro hg hpin
    refine hne (h.exclusive (h.pinned ht' hpin) ?_).symm
    rwa [hat]

omit [DecidableEq L] in
theorem focusAt_update {o : Option (Prog L A R)} {s' : Sys L A R D}
    (h : s'.procs = Function.update s.procs t o) :
    s'.focusAt = Function.update s.focusAt t (o.bind Prog.focus) := by
  funext t'
  simp only [Sys.focusAt, h, Function.update_apply]
  split <;> rfl

omit [DecidableEq L] in
/-- A turn at a lock changes no next action. -/
theorem focusAt_skip {p k : Prog L A R} (hproc : s.procs t = some p)
    (hfocus : p.focus = k.focus) :
    Function.update s.focusAt t ((some k).bind Prog.focus) = s.focusAt := by
  refine Function.update_eq_self_iff.mpr ?_
  simp [Sys.focusAt, hproc, hfocus]

/-- After a turn of `t`, a next action is that of `t` or of a call that has not moved. -/
theorem update_eq_some {A : Type} {f : ℕ → Option A} {t t' : ℕ} {o : Option A} {a' : A}
    (h : Function.update f t o t' = some a') :
    (t' = t ∧ o = some a') ∨ (t' ≠ t ∧ f t' = some a') := by
  rw [Function.update_apply] at h
  split at h
  · exact Or.inl ⟨‹_›, h⟩
  · exact Or.inr ⟨‹_›, h⟩

section Carried

variable {A B : Type} {f : ℕ → Option A} {t t' t₁ t₂ : ℕ} {o : Option A} {a' a₁ a₂ : A}
variable {g : A → Option B} {c : B}

/-- What a call carries from one action to the next, it carried before. -/
theorem carried_of_update (h : o.bind g = some c → (f t).bind g = some c)
    (hf : Function.update f t o t' = some a') (hc : g a' = some c) :
    ∃ a, f t' = some a ∧ g a = some c := by
  rcases update_eq_some hf with ⟨rfl, rfl⟩ | ⟨-, hf⟩
  · exact Option.bind_eq_some_iff.mp (h hc)
  · exact ⟨a', hf, hc⟩

/-- What a call does not carry on, another call carries. -/
theorem other_of_update (h : o.bind g ≠ some c) (hf : Function.update f t o t' = some a')
    (hc : g a' = some c) : t' ≠ t ∧ f t' = some a' := by
  rcases update_eq_some hf with ⟨-, rfl⟩ | hother
  · exact absurd hc h
  · exact hother

/-- Calls that carry different things still do when one of them takes up something that
no other call carries. -/
theorem apart_of_update
    (h : ∀ {t t' a a' c}, f t = some a → f t' = some a' → g a = some c → g a' = some c → t' = t)
    (hnew : ∀ {t' a'}, t' ≠ t → f t' = some a' → g a' = some c → o.bind g ≠ some c)
    (hf₁ : Function.update f t o t₁ = some a₁) (hf₂ : Function.update f t o t₂ = some a₂)
    (h₁ : g a₁ = some c) (h₂ : g a₂ = some c) : t₂ = t₁ := by
  rcases update_eq_some hf₁ with ⟨rfl, rfl⟩ | ⟨hne₁, hold₁⟩
  · rcases update_eq_some hf₂ with ⟨rfl, -⟩ | ⟨hne₂, hold₂⟩
    · rfl
    · exact absurd h₁ (hnew hne₂ hold₂ h₂)
  · rcases update_eq_some hf₂ with ⟨rfl, rfl⟩ | ⟨-, hold₂⟩
    · exact absurd h₂ (hnew hne₁ hold₁ h₁)
    · exact h hold₁ hold₂ h₁ h₂

end Carried

omit [DecidableEq L] in
theorem focusAt_act (hproc : s.procs t = some (.act a)) : s.focusAt t = some a := by
  simp [Sys.focusAt, hproc, Prog.focus]

/-- The invariant rule: what calls, outside events and single actions preserve, where
the state of the locks says what the actions exclude, holds after every run. -/
theorem Service.focus_invariant {K : Sys L A R D → C → Prop} {Q : Sys L A R D → ℕ → A → Prop}
    {P : (ℕ → Option A) → D → Prop} {tr : List (Turn C E)} (hagree : Agrees svc s)
    (hinit : P s.focusAt s.data)
    (hcall : ∀ {tr u t c d p}, Runs (StepWhere svc.Step (TurnsWhere K Q)) s tr u →
      P u.focusAt u.data → u.focusAt t = none → K u c → svc.enter c u.data = some (d, p) →
      P (Function.update u.focusAt t p.focus) d)
    (henv : ∀ {f d e}, P f d → P f (svc.env e d))
    (hact : ∀ {tr u t a}, Runs (StepWhere svc.Step (TurnsWhere K Q)) s tr u → Agrees svc u →
      P u.focusAt u.data → u.procs t = some (.act a) → Q u t a →
      P (Function.update u.focusAt t (svc.exec a u.data).2.focus) (svc.exec a u.data).1)
    (run : Runs (StepWhere svc.Step (TurnsWhere K Q)) s tr s') : P s'.focusAt s'.data := by
  refine (run.invariant (P := fun _ u => Agrees svc u ∧ P u.focusAt u.data)
    ⟨hagree, hinit⟩ ?_).2
  rintro tr u e v hrun ⟨hu, hP⟩ ⟨⟨j, hnext⟩, hwhere⟩
  obtain ⟨rfl, hmove⟩ := moves_of_next hnext
  refine ⟨hu.moves hmove, ?_⟩
  cases hmove with
  | call hnew henter =>
      rw [focusAt_update (s := u) rfl]
      exact hcall hrun hP (by simp [Sys.focusAt, hu.free hnew]) hwhere henter
  | @halt t r hproc =>
      -- a finished program had no next action
      have hsame : Function.update u.focusAt t none = u.focusAt :=
        Function.update_eq_self_iff.mpr (by simp [Sys.focusAt, hproc, Prog.focus])
      rw [focusAt_update (s := u) rfl]
      simpa [hsame] using hP
  | request hproc hnew => exact hP
  | @grant t l m k hproc hhead hadmits =>
      rw [focusAt_update (s := u) rfl, focusAt_skip (k := k) hproc rfl]
      exact hP
  | @release t l m k hproc =>
      rw [focusAt_update (s := u) rfl, focusAt_skip (k := k) hproc rfl]
      exact hP
  | @act t a hproc =>
      rw [focusAt_update (s := u) rfl]
      exact hact hrun hu hP hproc (hwhere a (by simp [Sys.acting, hproc]))
  | env => exact henv hP

end Invariants

/-! ## §6  Deadlocks -/

section Deadlocks

variable {L A R C E D : Type} [DecidableEq L] {svc : Service L A R C E D}
variable {s : Sys L A R D} {t t' : ℕ} {l l' x y : L}

namespace Sys

/-- The call has asked for the lock and has not been granted it. -/
def Waits (s : Sys L A R D) (t : ℕ) (l : L) : Prop := t ∈ (s.locks l).waiters.map Prod.fst

/-- Some calls wait each for a lock that another one of them holds. -/
def Deadlock (s : Sys L A R D) : Prop :=
  ∃ S : Set ℕ, S.Nonempty ∧
    ∀ t ∈ S, ∃ l, s.Waits t l ∧ ∃ t' ∈ S, t' ≠ t ∧ t' ∈ (s.locks l).holders

/-- The lock that a call takes next. -/
def asks (s : Sys L A R D) (t : ℕ) : Option L :=
  match s.procs t with
  | some (.lock l _ _) => some l
  | _ => none

/-- The call holds the first lock and takes the second one next. -/
def Between (s : Sys L A R D) (t : ℕ) (l l' : L) : Prop :=
  t ∈ (s.locks l).holders ∧ s.asks t = some l'

/-- Two calls are between two locks, in opposite orders. -/
def Crossed (s : Sys L A R D) : Prop :=
  ∃ l l', ∃ t ∈ (s.locks l).holders, s.asks t = some l' ∧
    ∃ t' ∈ (s.locks l').holders, s.asks t' = some l

instance Crossed.decidable [Fintype L] (s : Sys L A R D) : Decidable s.Crossed :=
  inferInstanceAs (Decidable (∃ l l', ∃ t ∈ (s.locks l).holders, s.asks t = some l' ∧
    ∃ t' ∈ (s.locks l').holders, s.asks t' = some l))

omit [DecidableEq L] in
theorem crossed_iff : s.Crossed ↔ ∃ l l' t t', s.Between t l l' ∧ s.Between t' l' l := by
  constructor
  · rintro ⟨l, l', t, ht, hasks, t', ht', hasks'⟩
    exact ⟨l, l', t, t', ⟨ht, hasks⟩, ht', hasks'⟩
  · rintro ⟨l, l', t, t', ⟨ht, hasks⟩, ht', hasks'⟩
    exact ⟨l, l', t, ht, hasks, t', ht', hasks'⟩

omit [DecidableEq L] in
/-- Two calls that have crossed and have both made their requests never go on. -/
theorem deadlock_of_crossing (hne : t ≠ t') (h : t ∈ (s.locks l).holders)
    (h' : t' ∈ (s.locks l').holders) (hw : s.Waits t l') (hw' : s.Waits t' l) : s.Deadlock := by
  refine ⟨{t, t'}, ⟨t, by simp⟩, ?_⟩
  rintro u (rfl | rfl)
  · exact ⟨l', hw, t', by simp, hne.symm, h'⟩
  · exact ⟨l, hw', t, by simp, hne, h⟩

end Sys

theorem Agrees.asks_of_waits (h : Agrees svc s) (hw : s.Waits t l) : s.asks t = some l := by
  obtain ⟨⟨_, m⟩, hm, rfl⟩ := List.mem_map.mp hw
  obtain ⟨k, hk⟩ := h.waiting hm
  simp [Sys.asks, hk]

/-- Locks are only taken inside those that the service nests them in. -/
theorem Agrees.nests (h : Agrees svc s) (hb : s.Between t l l') : svc.nests l l' := by
  obtain ⟨hhold, hasks⟩ := hb
  simp only [Sys.asks] at hasks
  split at hasks
  · rename_i l₁ m k hproc
    cases hasks
    rw [h.mem_holders, Sys.guardsAt_eq hproc, Prog.guards, Function.update_apply] at hhold
    split at hhold
    · exact absurd rfl hhold
    · rename_i hne
      exact (h.wf hproc).2.1 l hne hhold
  · cases hasks

/-- Locks that are taken in the order of a rank never block each other for good. -/
theorem Agrees.not_deadlock_of_rank (h : Agrees svc s) (rank : L → ℕ)
    (hrank : ∀ {t l l'}, s.Between t l l' → rank l' < rank l) : ¬ s.Deadlock := by
  rintro ⟨S, ⟨t₀, ht₀⟩, hS⟩
  -- from a call of the set to the one it waits for, the ranks of the locks descend
  have hdesc : ∀ n, ∀ t ∈ S, ∀ l, s.Waits t l → rank l = n → False := by
    intro n
    induction n using Nat.strong_induction_on with
    | _ n ih =>
        intro t ht l hw hn
        obtain ⟨l₁, hw₁, t', ht', -, hhold⟩ := hS t ht
        have hl : l₁ = l :=
          Option.some.inj ((h.asks_of_waits hw₁).symm.trans (h.asks_of_waits hw))
        obtain ⟨l', hw', -⟩ := hS t' ht'
        have hlt : rank l' < rank l := hrank ⟨hl ▸ hhold, h.asks_of_waits hw'⟩
        exact ih (rank l') (hn ▸ hlt) t' ht' l' hw' rfl
  obtain ⟨l, hw, -⟩ := hS t₀ ht₀
  exact hdesc _ t₀ ht₀ l hw rfl

/-- Where the nesting of the locks has an order but for one pair, and another order but
for the inverse pair, only calls that cross can deadlock. -/
theorem Agrees.not_deadlock_of_not_crossed (h : Agrees svc s) (rank rank' : L → ℕ)
    (hrank : ∀ l l', svc.nests l l' → (l = x ∧ l' = y) ∨ rank l' < rank l)
    (hrank' : ∀ l l', svc.nests l l' → (l = y ∧ l' = x) ∨ rank' l' < rank' l)
    (hcross : ¬ s.Crossed) : ¬ s.Deadlock := by
  by_cases hx : ∃ t, s.Between t x y
  · obtain ⟨t, ht⟩ := hx
    refine h.not_deadlock_of_rank rank' ?_
    intro t' l l' hb
    rcases hrank' l l' (h.nests hb) with ⟨rfl, rfl⟩ | hlt
    · exact absurd (Sys.crossed_iff.mpr ⟨_, _, t, t', ht, hb⟩) hcross
    · exact hlt
  · refine h.not_deadlock_of_rank rank ?_
    intro t' l l' hb
    rcases hrank l l' (h.nests hb) with ⟨rfl, rfl⟩ | hlt
    · exact absurd ⟨t', hb⟩ hx
    · exact hlt

/-- The case of two locks that are each taken inside the other, and no others. -/
theorem Agrees.not_deadlock_of_pair (h : Agrees svc s) (hne : x ≠ y)
    (hnests : ∀ l l', svc.nests l l' → (l = x ∧ l' = y) ∨ (l = y ∧ l' = x))
    (hcross : ¬ s.Crossed) : ¬ s.Deadlock := by
  refine h.not_deadlock_of_not_crossed (x := x) (y := y) (fun l => if l = y then 1 else 0)
    (fun l => if l = x then 1 else 0) ?_ ?_ hcross
  · intro l l' hl
    rcases hnests l l' hl with hxy | ⟨rfl, rfl⟩
    · exact Or.inl hxy
    · exact Or.inr (by simp [hne])
  · intro l l' hl
    rcases hnests l l' hl with ⟨rfl, rfl⟩ | hyx
    · exact Or.inr (by simp [hne.symm])
    · exact Or.inl hyx

namespace Service

/-- The turn does not leave two calls crossed. -/
def KeepsOrder (svc : Service L A R C E D) (s : Sys L A R D) (i : Turn C E) : Prop :=
  ∀ s' ∈ svc.step s i, ¬ s'.Crossed

instance KeepsOrder.decidable [Fintype L] (svc : Service L A R C E D) (s : Sys L A R D)
    (i : Turn C E) : Decidable (svc.KeepsOrder s i) :=
  match h : svc.step s i with
  | none => isTrue (by simp [KeepsOrder, h])
  | some s' =>
      decidable_of_iff (¬ s'.Crossed) (by simp [KeepsOrder, h])

/-- Runs whose turns keep the order reach no crossed state. -/
theorem not_crossed_of_runs {tr : List (Turn C E)}
    (run : Runs (StepWhere svc.Step svc.KeepsOrder) svc.start tr s) : ¬ s.Crossed := by
  refine run.state_invariant (P := fun u => ¬ u.Crossed) ?_ ?_
  · rw [Sys.crossed_iff]
    rintro ⟨l, l', t, t', ⟨ht, -⟩, -⟩
    simp [start, RwLock.idle, RwLock.holders] at ht
  · rintro u e v - ⟨⟨j, hnext⟩, hkeep⟩
    obtain ⟨w, hstep, heq⟩ := Option.map_eq_some_iff.mp hnext
    cases heq
    exact hkeep _ hstep

/-- A computed run that ends with two calls at each other's locks. -/
theorem deadlock_of_exec (is : List (Turn C E)) (t t' : ℕ) (l l' : L)
    (h : (Oclaw.Lib.exec svc.next svc.start is).any (fun p => decide (t ≠ t' ∧
      t ∈ (p.2.locks l).holders ∧ t' ∈ (p.2.locks l').holders ∧
      t ∈ (p.2.locks l').waiters.map Prod.fst ∧ t' ∈ (p.2.locks l).waiters.map Prod.fst)) = true) :
    ∃ tr s, Runs svc.Step svc.start tr s ∧ s.Deadlock := by
  obtain ⟨⟨tr, s⟩, hexec, hstuck⟩ := (Option.any_eq_true _ _).mp h
  obtain ⟨hne, hhold, hhold', hw, hw'⟩ := of_decide_eq_true hstuck
  exact ⟨tr, s, runs_of_exec hexec, Sys.deadlock_of_crossing hne hhold hhold' hw hw'⟩

end Service

end Deadlocks

end Oclaw.Lib
