import Oclaw.Lib.Transition

/-!
# Answers that are remembered

Requests are answered by a partial function. A table is asked first, by a key of the
request; on a miss the answer, if there is one, may be entered, and entries may be
forgotten at any time. What is remembered is the answer to an earlier request of the
same key. So the table cannot be noticed as long as requests of one key have one
answer, and where nothing is forgotten it can be noticed as soon as they do not.
-/

namespace Oclaw.Lib.Memo

variable {ρ κ β : Type*} {key : ρ → κ} {answer : ρ → Option β}
variable {t t' : κ → Option β} {tr : List ρ} {r r' : ρ} {k : κ} {b : β}

abbrev Table (κ β : Type*) : Type _ := κ → Option β

def empty : Table κ β := fun _ => none

/-- What is answered when the table is asked first. -/
def ask (key : ρ → κ) (answer : ρ → Option β) (t : Table κ β) (r : ρ) : Option β :=
  (t (key r)).or (answer r)

/-- After a request, an entry was there before it or is the answer to it. -/
def Step (key : ρ → κ) (answer : ρ → Option β) (t : Table κ β) (r : ρ) (t' : Table κ β) : Prop :=
  ∀ k b, t' k = some b → t k = some b ∨ (t (key r) = none ∧ k = key r ∧ answer r = some b)

/-- A request at which nothing is forgotten and an answer is entered. -/
def Keeping (key : ρ → κ) (answer : ρ → Option β) (t : Table κ β) (r : ρ) (t' : Table κ β) : Prop :=
  (∀ k b, t k = some b → t' k = some b) ∧
    (t (key r) = none → ∀ b, answer r = some b → t' (key r) = some b)

/-- A request at which the table is not noticed. -/
def Unnoticed (key : ρ → κ) (answer : ρ → Option β) (t : Table κ β) (r : ρ) : Prop :=
  ask key answer t r = answer r

/-- Two requests of one key, the second of which is answered as the first was. -/
def Agree (key : ρ → κ) (answer : ρ → Option β) (r r' : ρ) : Prop :=
  key r = key r' → ∀ b, answer r = some b → answer r' = some b

theorem ask_of_none (h : t (key r) = none) : ask key answer t r = answer r := by
  simp [ask, h]

theorem ask_of_some (h : t (key r) = some b) : ask key answer t r = some b := by
  simp [ask, h]

theorem recorded (run : Runs (Step key answer) empty tr t) :
    ∀ k b, t k = some b → ∃ r ∈ tr, key r = k ∧ answer r = some b := by
  refine run.invariant
    (P := fun tr t => ∀ k b, t k = some b → ∃ r ∈ tr, key r = k ∧ answer r = some b) ?_ ?_
  · intro k b hb
    cases hb
  · intro tr t r t' _ ih hstep k b hb
    rcases hstep k b hb with hold | ⟨-, hk, hans⟩
    · obtain ⟨r₀, hr₀, hans⟩ := ih k b hold
      exact ⟨r₀, List.mem_append_left _ hr₀, hans⟩
    · exact ⟨r, by simp, hk.symm, hans⟩

theorem unnoticed_of_agree (run : Runs (Step key answer) empty tr t)
    (hagree : ∀ r ∈ tr, Agree key answer r r') : Unnoticed key answer t r' := by
  unfold Unnoticed
  cases hentry : t (key r') with
  | none => exact ask_of_none hentry
  | some b =>
      obtain ⟨r, hr, hkey, hans⟩ := recorded run _ b hentry
      rw [ask_of_some hentry, hagree r hr hkey b hans]

/-- While the table is not noticed, it has the answer to every request that had one. -/
theorem remembered
    (run : Runs (StepWhere (Keeping key answer) (Unnoticed key answer)) empty tr t) :
    ∀ r ∈ tr, ∀ b, answer r = some b → t (key r) = some b := by
  refine run.invariant
    (P := fun tr t => ∀ r ∈ tr, ∀ b, answer r = some b → t (key r) = some b) ?_ ?_
  · intro r hr
    cases hr
  · intro tr t e t' _ ih hstep r hr b hans
    obtain ⟨⟨hkept, hentered⟩, hunnoticed⟩ := hstep
    rw [List.mem_append, List.mem_singleton] at hr
    rcases hr with hr | rfl
    · exact hkept _ b (ih r hr b hans)
    · cases hentry : t (key r) with
      | none => exact hentered hentry b hans
      | some b' =>
          rw [Unnoticed, ask_of_some hentry, hans] at hunnoticed
          exact hkept _ b (by rw [hentry, hunnoticed])

theorem agree_of_unnoticed
    (run : Runs (StepWhere (Keeping key answer) (Unnoticed key answer)) empty tr t)
    (hunnoticed : Unnoticed key answer t r') : ∀ r ∈ tr, Agree key answer r r' := by
  intro r hr hkey b hans
  have hentry := remembered run r hr b hans
  rw [hkey] at hentry
  rw [← hunnoticed, ask_of_some hentry]

end Oclaw.Lib.Memo
