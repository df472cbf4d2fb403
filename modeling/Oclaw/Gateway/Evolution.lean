import Mathlib.Data.Finset.Card
import Mathlib.Data.Fintype.Card
import Oclaw.Lib.Transition

/-!
# Evolution ticks

`EvolutionState` of `crates/workspace-core/src/evolution.rs` and `try_evolution` of
`crates/gateway-core/src/pipeline.rs`. A call loads the counters from a file, counts
its message, possibly lets an agent reflect, and saves the counters. There is no
lock: the calls of concurrently processed messages interleave between these steps.
File operations succeed and are atomic; how a reflection ends is chosen by the
environment. Counters are `u64` and wrap as in a release build.
-/

namespace Oclaw.Gateway

open Oclaw.Lib

/-! ## §1  Counters -/

structure EvolutionConfig : Type where
  enabled : Bool
  triggerEveryNMessages : ℕ
  minTokensToCount : ℕ

/-- `EvolutionConfig::default()` -/
def EvolutionConfig.default : EvolutionConfig := ⟨true, 20, 0⟩

structure EvolutionState : Type where
  messageCount : ℕ
  lastEvolvedAtMessage : ℕ
  lastEvolvedDate : Option String
  evolutionCount : ℕ
deriving DecidableEq

def EvolutionState.default : EvolutionState := ⟨0, 0, none, 0⟩

def u64Wrap (n : ℕ) : ℕ := n % 0x10000000000000000

/-- `u64` subtraction of a release build. -/
def u64Sub (a b : ℕ) : ℕ := if b ≤ a then a - b else a + 0x10000000000000000 - b

def EvolutionState.tick (st : EvolutionState) (tokens : ℕ) (config : EvolutionConfig) :
    EvolutionState :=
  if tokens ≥ config.minTokensToCount then
    { st with messageCount := u64Wrap (st.messageCount + 1) }
  else st

def shouldRunEvolution (st : EvolutionState) (config : EvolutionConfig) : Bool :=
  config.enabled && st.messageCount > 0 &&
    u64Sub st.messageCount st.lastEvolvedAtMessage ≥ config.triggerEveryNMessages

/-- What `try_evolution` writes into its state when the reflection has succeeded. -/
def EvolutionState.evolved (st : EvolutionState) (today : String) : EvolutionState :=
  { st with
    lastEvolvedAtMessage := st.messageCount
    lastEvolvedDate := some today
    evolutionCount := u64Wrap (st.evolutionCount + 1) }

/-! ## §2  The calls -/

/-- The state behind a reflection, which is completed on a day or not at all. -/
def EvolutionState.reflected (st : EvolutionState) : Option String → EvolutionState
  | none => st
  | some today => st.evolved today

/-- Where a call is. `base` is what it loaded; the state it works on is the ticked
one, and `reflection` is the day on which a reflection has been completed since. -/
inductive EvoPc : Type where
  | waiting
  | reflecting (base : EvolutionState)
  | saving (base : EvolutionState) (reflection : Option String)
  | done (reflection : Option String)

structure EvoSys (ι : Type*) where
  file : EvolutionState
  pc : ι → EvoPc

inductive EvoMove (ι : Type*) where
  | load (i : ι)
  | reflect (i : ι) (reflection : Option String)
  | save (i : ι)

section

variable {ι : Type*} [DecidableEq ι]

def EvoSys.start (file : EvolutionState) : EvoSys ι := ⟨file, fun _ => .waiting⟩

/-- What a call saves: the ticked state, evolved if its reflection was completed. -/
def savedState (config : EvolutionConfig) (tokens : ℕ) (base : EvolutionState)
    (reflection : Option String) : EvolutionState :=
  (base.tick tokens config).reflected reflection

def EvoSys.step (config : EvolutionConfig) (tokens : ι → ℕ) (s : EvoSys ι) :
    EvoMove ι → Option (EvoSys ι)
  | .load i =>
      match s.pc i with
      | .waiting =>
          let pc :=
            if shouldRunEvolution (s.file.tick (tokens i) config) config then
              EvoPc.reflecting s.file
            else .saving s.file none
          some { s with pc := Function.update s.pc i pc }
      | _ => none
  | .reflect i reflection =>
      match s.pc i with
      | .reflecting base =>
          some { s with pc := Function.update s.pc i (.saving base reflection) }
      | _ => none
  | .save i =>
      match s.pc i with
      | .saving base reflection =>
          some { file := savedState config (tokens i) base reflection
                 pc := Function.update s.pc i (.done reflection) }
      | _ => none

def EvoSys.next (config : EvolutionConfig) (tokens : ι → ℕ) (s : EvoSys ι) (m : EvoMove ι) :
    Option (EvoMove ι × EvoSys ι) :=
  (s.step config tokens m).map (fun t => (m, t))

def EvoStep (config : EvolutionConfig) (tokens : ι → ℕ) :
    EvoSys ι → EvoMove ι → EvoSys ι → Prop :=
  Induced (EvoSys.next config tokens)

theorem EvoStep.step_eq {config : EvolutionConfig} {tokens : ι → ℕ} {s t : EvoSys ι}
    {m : EvoMove ι} (h : EvoStep config tokens s m t) : s.step config tokens m = some t := by
  obtain ⟨m', hnext⟩ := h
  obtain ⟨t', hstep, heq⟩ := Option.map_eq_some_iff.mp hnext
  cases heq
  exact hstep

/-- What a call that is about to save has loaded. -/
def EvoPc.base? : EvoPc → Option EvolutionState
  | .saving base _ => some base
  | _ => none

/-- A save finds the file as its call loaded it. -/
def FreshSave (s : EvoSys ι) : EvoMove ι → Prop
  | .save i => ∀ base ∈ (s.pc i).base?, s.file = base
  | _ => True

instance FreshSave.decidable (s : EvoSys ι) : (m : EvoMove ι) → Decidable (FreshSave s m)
  | .save i => inferInstanceAs (Decidable (∀ base ∈ (s.pc i).base?, s.file = base))
  | .load _ | .reflect _ _ => inferInstanceAs (Decidable True)

/-! ## §3  Ticks that are kept -/

def EvoPc.isDone : EvoPc → Bool
  | .done _ => true
  | _ => false

/-- The call is done and its reflection was completed. -/
def EvoPc.hasEvolved : EvoPc → Bool
  | .done reflection => reflection.isSome
  | _ => false

@[simp] theorem EvoPc.isDone_done (reflection : Option String) :
    (EvoPc.done reflection).isDone = true := rfl

@[simp] theorem EvoPc.hasEvolved_done (reflection : Option String) :
    (EvoPc.done reflection).hasEvolved = reflection.isSome := rfl

variable [Fintype ι] {config : EvolutionConfig} {tokens : ι → ℕ} {init : EvolutionState}
variable {s t : EvoSys ι} {m : EvoMove ι}

/-- The finished calls whose message counts. -/
def EvoSys.counted (config : EvolutionConfig) (tokens : ι → ℕ) (s : EvoSys ι) : Finset ι :=
  Finset.univ.filter (fun i => (s.pc i).isDone = true ∧ config.minTokensToCount ≤ tokens i)

def EvoSys.evolutions (s : EvoSys ι) : Finset ι :=
  Finset.univ.filter (fun i => (s.pc i).hasEvolved = true)

/-- The file has everything that the finished calls did. -/
structure Kept (config : EvolutionConfig) (tokens : ι → ℕ) (init : EvolutionState)
    (s : EvoSys ι) : Prop where
  messages : s.file.messageCount = init.messageCount + (s.counted config tokens).card
  evolutions : s.file.evolutionCount = init.evolutionCount + s.evolutions.card
  behind : s.file.lastEvolvedAtMessage ≤ s.file.messageCount

/-- The counters have room for every call. -/
def Roomy (ι : Type*) [Fintype ι] (init : EvolutionState) : Prop :=
  init.messageCount + Fintype.card ι < 0x10000000000000000 ∧
    init.evolutionCount + Fintype.card ι < 0x10000000000000000

/-- The calls that satisfy a predicate, after the move of one that did not. -/
theorem card_filter_update (P : ι → EvoPc → Prop) [∀ j q, Decidable (P j q)] (pc : ι → EvoPc)
    {i : ι} (hold : ¬ P i (pc i)) (q : EvoPc) :
    (Finset.univ.filter (fun j => P j (Function.update pc i q j))).card =
      (Finset.univ.filter (fun j => P j (pc j))).card + (if P i q then 1 else 0) := by
  split
  · rename_i hnew
    have hnot : i ∉ Finset.univ.filter (fun j => P j (pc j)) := by simp [hold]
    rw [← Finset.card_insert_of_notMem hnot]
    congr 1
    ext j
    by_cases hj : j = i
    · subst hj
      simp [hnew]
    · simp [hj]
  · rename_i hnew
    congr 1
    ext j
    by_cases hj : j = i
    · subst hj
      simp [hold, hnew]
    · simp [hj]

theorem EvoPc.hasEvolved_of_not_isDone {q : EvoPc} (h : q.isDone = false) :
    q.hasEvolved = false := by
  cases q with
  | done reflection => cases h
  | _ => rfl

/-- What the move of a call that was not done adds to the counted calls. -/
theorem card_counted_update {i : ι} (hold : (s.pc i).isDone = false) (file : EvolutionState)
    (q : EvoPc) :
    (EvoSys.counted config tokens ⟨file, Function.update s.pc i q⟩).card =
      (s.counted config tokens).card +
        (if q.isDone = true ∧ config.minTokensToCount ≤ tokens i then 1 else 0) :=
  card_filter_update (fun j q => q.isDone = true ∧ config.minTokensToCount ≤ tokens j) s.pc
    (by simp [hold]) q

theorem card_evolutions_update {i : ι} (hold : (s.pc i).isDone = false) (file : EvolutionState)
    (q : EvoPc) :
    (EvoSys.evolutions ⟨file, Function.update s.pc i q⟩).card =
      s.evolutions.card + (if q.hasEvolved = true then 1 else 0) :=
  card_filter_update (fun _ q => q.hasEvolved = true) s.pc
    (by simp [EvoPc.hasEvolved_of_not_isDone hold]) q

/-- A step of a call that neither starts nor ends done. -/
theorem Kept.moved (h : Kept config tokens init s) {i : ι} {q : EvoPc}
    (hold : (s.pc i).isDone = false) (hnew : q.isDone = false) :
    Kept config tokens init { s with pc := Function.update s.pc i q } := by
  constructor
  · rw [card_counted_update hold, h.messages]
    simp [hnew]
  · rw [card_evolutions_update hold, h.evolutions]
    simp [EvoPc.hasEvolved_of_not_isDone hnew]
  · exact h.behind

theorem u64Wrap_of_lt {n : ℕ} (h : n < 0x10000000000000000) : u64Wrap n = n :=
  Nat.mod_eq_of_lt h

/-- What a save adds to the counters while they have room. -/
theorem savedState_counters (config : EvolutionConfig) (st : EvolutionState) (n : ℕ)
    (reflection : Option String)
    (hmessages : st.messageCount + 1 < 0x10000000000000000)
    (hevolutions : st.evolutionCount + 1 < 0x10000000000000000)
    (hbehind : st.lastEvolvedAtMessage ≤ st.messageCount) :
    (savedState config n st reflection).messageCount =
        st.messageCount + (if config.minTokensToCount ≤ n then 1 else 0) ∧
      (savedState config n st reflection).evolutionCount =
        st.evolutionCount + (if reflection.isSome then 1 else 0) ∧
      st.lastEvolvedAtMessage ≤ (savedState config n st reflection).lastEvolvedAtMessage ∧
      (savedState config n st reflection).lastEvolvedAtMessage ≤
        (savedState config n st reflection).messageCount := by
  have hcount : (st.tick n config).messageCount =
      st.messageCount + (if config.minTokensToCount ≤ n then 1 else 0) := by
    unfold EvolutionState.tick
    split
    · exact u64Wrap_of_lt hmessages
    · rfl
  have hrest : (st.tick n config).lastEvolvedAtMessage = st.lastEvolvedAtMessage ∧
      (st.tick n config).evolutionCount = st.evolutionCount := by
    unfold EvolutionState.tick
    split <;> exact ⟨rfl, rfl⟩
  have hle : st.lastEvolvedAtMessage ≤ (st.tick n config).messageCount := by
    rw [hcount]
    exact hbehind.trans (Nat.le_add_right _ _)
  cases reflection with
  | none => exact ⟨hcount, hrest.2, hrest.1.ge, hrest.1.le.trans hle⟩
  | some today =>
      refine ⟨hcount, ?_, hle, le_rfl⟩
      change u64Wrap ((st.tick n config).evolutionCount + 1) = st.evolutionCount + 1
      rw [hrest.2, u64Wrap_of_lt hevolutions]

/-- While the counters have room, a save of what its call loaded adds what the call
did and does not move the last evolution back. -/
theorem Kept.saved (h : Kept config tokens init s) (hroom : Roomy ι init) {i : ι}
    {reflection : Option String} (hpc : s.pc i = .saving s.file reflection) :
    Kept config tokens init
        ⟨savedState config (tokens i) s.file reflection,
          Function.update s.pc i (.done reflection)⟩ ∧
      s.file.lastEvolvedAtMessage ≤
        (savedState config (tokens i) s.file reflection).lastEvolvedAtMessage := by
  have hold : (s.pc i).isDone = false := by rw [hpc]; rfl
  have hcalls : (s.counted config tokens).card < Fintype.card ι :=
    Finset.card_lt_univ_of_notMem (show i ∉ _ by simp [EvoSys.counted, hold])
  have hcalls' : s.evolutions.card < Fintype.card ι :=
    Finset.card_lt_univ_of_notMem
      (show i ∉ _ by simp [EvoSys.evolutions, EvoPc.hasEvolved_of_not_isDone hold])
  have hmessages : s.file.messageCount + 1 < 0x10000000000000000 := by
    have := h.messages
    have := hroom.1
    omega
  have hevolutions : s.file.evolutionCount + 1 < 0x10000000000000000 := by
    have := h.evolutions
    have := hroom.2
    omega
  obtain ⟨h₁, h₂, h₃, h₄⟩ :=
    savedState_counters config s.file (tokens i) reflection hmessages hevolutions h.behind
  refine ⟨⟨?_, ?_, h₄⟩, h₃⟩
  · rw [card_counted_update hold, ← Nat.add_assoc, ← h.messages]
    simpa using h₁
  · rw [card_evolutions_update hold, ← Nat.add_assoc, ← h.evolutions]
    exact h₂

omit [DecidableEq ι] in
theorem Kept.start (hinit : init.lastEvolvedAtMessage ≤ init.messageCount) :
    Kept config tokens init (EvoSys.start init : EvoSys ι) := by
  constructor
  · simp [EvoSys.start, EvoSys.counted, EvoPc.isDone]
  · simp [EvoSys.start, EvoSys.evolutions, EvoPc.hasEvolved]
  · exact hinit

/-- Fresh saves keep every tick and do not move the last evolution back. -/
theorem Kept.step (h : Kept config tokens init s) (hroom : Roomy ι init)
    (hstep : StepWhere (EvoStep config tokens) FreshSave s m t) :
    Kept config tokens init t ∧ s.file.lastEvolvedAtMessage ≤ t.file.lastEvolvedAtMessage := by
  obtain ⟨hmove, hfile⟩ := hstep
  have hmove := hmove.step_eq
  cases m with
  | load i =>
      simp only [EvoSys.step] at hmove
      split at hmove
      · rename_i hpc
        cases hmove
        refine ⟨h.moved (by rw [hpc]; rfl) ?_, le_rfl⟩
        split <;> rfl
      · cases hmove
  | reflect i reflection =>
      simp only [EvoSys.step] at hmove
      split at hmove
      · rename_i base hpc
        cases hmove
        exact ⟨h.moved (by rw [hpc]; rfl) rfl, le_rfl⟩
      · cases hmove
  | save i =>
      simp only [EvoSys.step] at hmove
      split at hmove
      · rename_i base reflection hpc
        cases hmove
        obtain rfl : s.file = base := hfile base (by rw [hpc]; rfl)
        exact h.saved hroom hpc
      · cases hmove

theorem Kept.run (h : Kept config tokens init s) (hroom : Roomy ι init) {tr : List (EvoMove ι)}
    (run : Runs (StepWhere (EvoStep config tokens) FreshSave) s tr t) :
    Kept config tokens init t ∧ s.file.lastEvolvedAtMessage ≤ t.file.lastEvolvedAtMessage := by
  refine run.state_invariant (P := fun t => Kept config tokens init t ∧
    s.file.lastEvolvedAtMessage ≤ t.file.lastEvolvedAtMessage) ⟨h, le_rfl⟩ ?_
  rintro t e u ⟨hkept, hle⟩ hstep
  obtain ⟨hkept', hle'⟩ := hkept.step hroom hstep
  exact ⟨hkept', hle.trans hle'⟩

/-- When every save finds the file as its call loaded it, no tick is lost: once all
calls are done, the counters have grown by the messages that count and by the completed
reflections, and at no point of the run was the last evolution moved back. -/
theorem fresh_saves_keep_ticks (hinit : init.lastEvolvedAtMessage ≤ init.messageCount)
    (hroom : Roomy ι init) {tr : List (EvoMove ι)}
    (run : Runs (StepWhere (EvoStep config tokens) FreshSave) (EvoSys.start init) tr s) :
    ((∀ i, (s.pc i).isDone = true) →
      s.file.messageCount = init.messageCount +
          (Finset.univ.filter (fun i => tokens i ≥ config.minTokensToCount)).card ∧
        s.file.evolutionCount = init.evolutionCount + s.evolutions.card) ∧
      ∀ pre post u, tr = pre ++ post →
        Runs (StepWhere (EvoStep config tokens) FreshSave) (EvoSys.start init) pre u →
        Runs (StepWhere (EvoStep config tokens) FreshSave) u post s →
        u.file.lastEvolvedAtMessage ≤ s.file.lastEvolvedAtMessage := by
  have hstart : Kept config tokens init (EvoSys.start init) := Kept.start hinit
  constructor
  · intro hdone
    obtain ⟨hkept, -⟩ := hstart.run hroom run
    have hcounted : s.counted config tokens =
        Finset.univ.filter (fun i => tokens i ≥ config.minTokensToCount) := by
      ext i
      simp [EvoSys.counted, hdone i]
    rw [← hcounted]
    exact ⟨hkept.messages, hkept.evolutions⟩
  · rintro pre post u - hpre hpost
    exact ((hstart.run hroom hpre).1.run hroom hpost).2

end

/-! ## §4  Two calls -/

/-- The first call reflects and is done before the second one loads. -/
def callsInTurn : List (EvoMove (Fin 2)) :=
  [.load 0, .reflect 0 (some "2026-02-14"), .save 0, .load 1, .save 1]

theorem callsInTurn_plays :
    (exec (nextWhere (EvoSys.next .default (fun _ => 0)) FreshSave)
      (EvoSys.start ⟨19, 0, none, 0⟩) callsInTurn).isSome = true := by
  decide

theorem calls_in_turn_kept :
    ∃ tr s, Runs (StepWhere (EvoStep .default (fun _ : Fin 2 => 0)) FreshSave)
        (EvoSys.start ⟨19, 0, none, 0⟩) tr s ∧
      (∀ i, (s.pc i).isDone = true) ∧
      s.file.messageCount = 19 + 2 ∧ s.file.evolutionCount = 0 + s.evolutions.card := by
  obtain ⟨hkept, -⟩ := fresh_saves_keep_ticks (Nat.zero_le _) (by unfold Roomy; decide)
    (runs_where_of_exec callsInTurn callsInTurn_plays)
  have hdone : ∀ i, (((exec (nextWhere (EvoSys.next .default (fun _ => 0)) FreshSave)
      (EvoSys.start ⟨19, 0, none, 0⟩) callsInTurn).get callsInTurn_plays).2.pc i).isDone =
        true := by
    decide
  exact ⟨_, _, runs_where_of_exec callsInTurn callsInTurn_plays, hdone, hkept hdone⟩

/-- Both calls load before either saves; the second save overwrites the first. -/
theorem overlapping_calls_lose_tick :
    ∃ tr s, Runs (EvoStep .default (fun _ : Fin 2 => 0)) (EvoSys.start .default) tr s ∧
      (∀ i, (s.pc i).isDone = true) ∧
      ¬ s.file.messageCount = EvolutionState.default.messageCount +
        (Finset.univ.filter (fun _ : Fin 2 =>
          0 ≥ EvolutionConfig.default.minTokensToCount)).card := by
  have hplays : exec (EvoSys.next .default (fun _ : Fin 2 => 0)) (EvoSys.start .default)
      [.load 0, .load 1, .save 0, .save 1] = some _ := rfl
  refine ⟨_, _, runs_of_exec hplays, ?_, ?_⟩
  · decide
  · decide

end Oclaw.Gateway
