import Mathlib.Data.List.Basic

/-!
# Maximal runs

The stretches of a list whose elements have a property, each as long as it can be. A loop
collects them: it extends the current run by an element with the property and closes it at
one without.
-/

namespace Oclaw.Lib

variable {α : Type*} {p : α → Bool} {l cur gap r : List α} {rs rs' : List (List α)} {a : α}

/-- The list has these maximal runs, in this order. -/
inductive MaximalRuns (p : α → Bool) : List α → List (List α) → Prop where
  | gap {g : List α} : (∀ a ∈ g, p a = false) → MaximalRuns p g []
  | run {g r rest : List α} {rs : List (List α)} : (∀ a ∈ g, p a = false) → r ≠ [] →
      (∀ a ∈ r, p a = true) → (∀ a ∈ rest.head?, p a = false) → MaximalRuns p rest rs →
      MaximalRuns p (g ++ (r ++ rest)) (r :: rs)

/-- The loop, with the current run. -/
@[grind =]
def collectRuns (p : α → Bool) : List α → List α → List (List α)
  | cur, [] => if cur.isEmpty then [] else [cur]
  | cur, a :: l =>
      if p a then collectRuns p (cur ++ [a]) l
      else if cur.isEmpty then collectRuns p [] l
      else cur :: collectRuns p [] l

def runsOf (p : α → Bool) (l : List α) : List (List α) := collectRuns p [] l

theorem MaximalRuns.cons_gap (ha : p a = false) (h : MaximalRuns p l rs) :
    MaximalRuns p (a :: l) rs := by
  cases h with
  | gap hgap => exact .gap (List.forall_mem_cons.mpr ⟨ha, hgap⟩)
  | run hgap hne hr hrest h =>
      rw [← List.cons_append]
      exact .run (List.forall_mem_cons.mpr ⟨ha, hgap⟩) hne hr hrest h

theorem maximalRuns_collectRuns (hcur : ∀ a ∈ cur, p a = true) :
    MaximalRuns p (cur ++ l) (collectRuns p cur l) := by
  induction l generalizing cur with
  | nil =>
      rw [collectRuns]
      split
      · rename_i hempty
        rw [List.isEmpty_iff.mp hempty]
        exact .gap (by simp)
      · rename_i hempty
        have hrun := MaximalRuns.run (g := []) (r := cur) (p := p) (by simp)
          (fun h => hempty (List.isEmpty_iff.mpr h)) hcur (by simp) (.gap (g := []) (by simp))
        simpa using hrun
  | cons a l ih =>
      rw [collectRuns]
      split
      · rename_i ha
        rw [List.append_cons]
        refine ih ?_
        intro b hb
        rcases List.mem_append.mp hb with hb | hb
        · exact hcur b hb
        · rw [List.mem_singleton.mp hb, ha]
      · rename_i ha
        have ha : p a = false := by simpa using ha
        have hrest : MaximalRuns p (a :: l) (collectRuns p [] l) := by
          refine MaximalRuns.cons_gap ha ?_
          simpa using @ih [] (by simp)
        split
        · rename_i hempty
          rw [List.isEmpty_iff.mp hempty]
          exact hrest
        · rename_i hempty
          have hrun := MaximalRuns.run (g := []) (by simp)
            (fun h => hempty (List.isEmpty_iff.mpr h)) hcur (by simpa using ha) hrest
          simpa using hrun

theorem collectRuns_append_run (hr : ∀ a ∈ r, p a = true) :
    collectRuns p cur (r ++ l) = collectRuns p (cur ++ r) l := by
  induction r generalizing cur with
  | nil => simp
  | cons a r ih =>
      obtain ⟨ha, hr⟩ := List.forall_mem_cons.mp hr
      rw [List.cons_append, collectRuns, if_pos ha, ih hr, ← List.append_cons]

theorem runsOf_append_gap (hgap : ∀ a ∈ gap, p a = false) :
    runsOf p (gap ++ l) = runsOf p l := by
  induction gap with
  | nil => rfl
  | cons a gap ih =>
      obtain ⟨ha, hgap⟩ := List.forall_mem_cons.mp hgap
      rw [List.cons_append, runsOf, collectRuns, if_neg (by simp [ha]), if_pos (by rfl)]
      exact ih hgap

/-- **The loop finds the maximal runs** and nothing else. -/
theorem runsOf_eq_iff : runsOf p l = rs ↔ MaximalRuns p l rs := by
  constructor
  · rintro rfl
    exact @maximalRuns_collectRuns _ p l [] (by simp)
  · intro h
    induction h with
    | gap hgap =>
        have hruns := runsOf_append_gap (l := []) hgap
        rwa [List.append_nil] at hruns
    | @run g r rest rs hgap hne hr hrest _ ih =>
        rw [runsOf_append_gap hgap, runsOf, collectRuns_append_run hr, List.nil_append]
        have hopen : ¬ r.isEmpty = true := fun h => hne (List.isEmpty_iff.mp h)
        cases rest with
        | nil =>
            have hnone : rs = [] := ih.symm
            rw [collectRuns, if_neg hopen, hnone]
        | cons a rest =>
            have ha : p a = false := by simpa using hrest
            have hruns : runsOf p (a :: rest) = collectRuns p [] rest := by
              rw [runsOf, collectRuns, if_neg (by simp [ha]), if_pos (by rfl)]
            rw [collectRuns, if_neg (by simp [ha]), if_neg hopen, ← ih, hruns]

theorem maximalRuns_runsOf (p : α → Bool) (l : List α) : MaximalRuns p l (runsOf p l) :=
  runsOf_eq_iff.mp rfl

/-- A run is a part of the list, and all its elements have the property. -/
theorem MaximalRuns.mem (h : MaximalRuns p l rs) (hr : r ∈ rs) :
    r ≠ [] ∧ (∀ a ∈ r, p a = true) ∧ r <:+: l := by
  induction h with
  | gap _ => cases hr
  | @run g r' rest rs _ hne hall _ _ ih =>
      rcases List.mem_cons.mp hr with rfl | hr
      · exact ⟨hne, hall, ⟨g, rest, by rw [List.append_assoc]⟩⟩
      · obtain ⟨hne', hall', hpart⟩ := ih hr
        refine ⟨hne', hall', hpart.trans ⟨g ++ r', [], by simp⟩⟩

/-- There is no run just when no element has the property. -/
theorem runsOf_eq_nil_iff : runsOf p l = [] ↔ ∀ a ∈ l, p a = false := by
  rw [runsOf_eq_iff]
  constructor
  · intro h
    cases h with
    | gap hgap => exact hgap
  · exact .gap

end Oclaw.Lib
