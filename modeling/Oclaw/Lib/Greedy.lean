import Mathlib.Data.List.Induction
import Mathlib.Data.List.Perm.Basic
import Mathlib.Order.WithBot

/-!
# Greedy choices

A greedy sequence takes one element after another, each with the greatest value among those
that are left, where a value may depend on what was taken. The pool it takes from may be kept
in any arrangement, such as the one that removing by swap leaves.
-/

namespace Oclaw.Lib

variable {α β : Type*} {l rest chosen pool : List α} {a : α} {i : ℕ}

/-! ## Removing by swap -/

/-- The last element takes the place of the removed one; `none` when there is no such place. -/
def swapRemove (l : List α) (i : ℕ) : Option (α × List α) :=
  match l[i]?, l.getLast? with
  | some a, some last => some (a, (l.set i last).dropLast)
  | _, _ => none

theorem swapRemove_of_lt (h : i < l.length) : ∃ rest, swapRemove l i = some (l[i], rest) := by
  have hne : l ≠ [] := List.ne_nil_of_length_pos (Nat.zero_lt_of_lt h)
  refine ⟨(l.set i (l.getLast hne)).dropLast, ?_⟩
  rw [swapRemove, List.getElem?_eq_getElem h, List.getLast?_eq_getLast_of_ne_nil hne]

/-- Nothing is lost and nothing is there twice. -/
theorem perm_of_swapRemove (h : swapRemove l i = some (a, rest)) : l.Perm (a :: rest) := by
  unfold swapRemove at h
  split at h
  next a' last hget hlast =>
    obtain ⟨rfl, rfl⟩ := Prod.mk.inj (Option.some.inj h)
    obtain ⟨init, rfl⟩ := List.getLast?_eq_some_iff.mp hlast
    obtain ⟨hlt, rfl⟩ := List.getElem?_eq_some_iff.mp hget
    rw [List.length_append, List.length_singleton] at hlt
    rcases Nat.lt_or_ge i init.length with hi | hi
    · -- an element before the last one
      rw [List.set_append_left _ _ hi, List.dropLast_concat, List.getElem_append_left hi]
      calc (init ++ [last]).Perm (last :: init) := List.perm_append_singleton _ _
        _ |>.Perm (last :: init[i] :: init.eraseIdx i) :=
          (List.getElem_cons_eraseIdx_perm hi).symm.cons _
        _ |>.Perm (init[i] :: last :: init.eraseIdx i) := List.Perm.swap _ _ _
        _ |>.Perm (init[i] :: init.set i last) := (List.set_perm_cons_eraseIdx hi last).symm.cons _
    · -- the last one
      obtain rfl : i = init.length := by omega
      simp
  next => cases h

theorem length_of_swapRemove (h : swapRemove l i = some (a, rest)) :
    l.length = rest.length + 1 :=
  (perm_of_swapRemove h).length_eq

/-! ## The greatest value -/

section Greatest

variable [LinearOrder β]

/-- From the left, the position and the value of the first greatest value so far. -/
def keepGreater (v : α → β) (best : ℕ × WithBot β) (entry : α × ℕ) : ℕ × WithBot β :=
  if best.2 < v entry.1 then (entry.2, (v entry.1 : WithBot β)) else best

theorem foldl_keepGreater (v : α → β) (l : List α) :
    (l = [] ∧ l.zipIdx.foldl (keepGreater v) (0, ⊥) = (0, ⊥)) ∨
      ∃ i, ∃ h : i < l.length, l.zipIdx.foldl (keepGreater v) (0, ⊥) = (i, ↑(v l[i])) ∧
        ∀ a ∈ l, v a ≤ v l[i] := by
  induction l using List.reverseRecOn with
  | nil => exact Or.inl ⟨rfl, rfl⟩
  | append_singleton l c ih =>
      right
      have hstep : (l ++ [c]).zipIdx.foldl (keepGreater v) (0, ⊥) =
          keepGreater v (l.zipIdx.foldl (keepGreater v) (0, ⊥)) (c, l.length) := by
        simp [List.zipIdx_append]
      have hlast : l.length < (l ++ [c]).length := by simp
      rw [hstep]
      rcases ih with ⟨rfl, heq⟩ | ⟨i, hi, heq, hbest⟩
      · refine ⟨0, hlast, ?_, by simp⟩
        rw [heq, keepGreater, if_pos (WithBot.bot_lt_coe _)]
        rfl
      · rw [heq, keepGreater]
        by_cases hlt : v l[i] < v c
        · refine ⟨l.length, hlast, ?_, ?_⟩
          · rw [if_pos (WithBot.coe_lt_coe.mpr hlt), List.getElem_concat_length rfl]
          · rw [List.getElem_concat_length rfl]
            intro a ha
            rcases List.mem_append.mp ha with ha | ha
            · exact (hbest a ha).trans hlt.le
            · rw [List.mem_singleton.mp ha]
        · have hi' : i < (l ++ [c]).length := hi.trans hlast
          refine ⟨i, hi', ?_, ?_⟩
          · rw [if_neg (fun h => hlt (WithBot.coe_lt_coe.mp h)), List.getElem_append_left hi]
          · rw [List.getElem_append_left hi]
            intro a ha
            rcases List.mem_append.mp ha with ha | ha
            · exact hbest a ha
            · rw [List.mem_singleton.mp ha]
              exact not_lt.mp hlt

/-! ## Greedy sequences -/

/-- Every element chosen has the greatest value among those that were not chosen before it. -/
def Greedy (value : List α → α → β) (pool chosen : List α) : Prop :=
  ∀ before c after, chosen = before ++ c :: after →
    ∀ a ∈ pool, a ∉ before → value before a ≤ value before c

variable {value : List α → α → β}

theorem greedy_nil : Greedy value pool [] := by
  intro before c after h
  exact absurd h.symm (by simp)

theorem Greedy.concat {c : α} (h : Greedy value pool chosen)
    (hbest : ∀ a ∈ pool, a ∉ chosen → value chosen a ≤ value chosen c) :
    Greedy value pool (chosen ++ [c]) := by
  intro before d after heq
  rcases List.eq_nil_or_concat' after with rfl | ⟨after, last, rfl⟩
  · obtain ⟨rfl, hc⟩ := List.append_inj' heq rfl
    obtain rfl := List.singleton_inj.mp hc
    exact hbest
  · rw [← List.cons_append, ← List.append_assoc] at heq
    exact h before d after (List.append_inj' heq rfl).1

end Greatest

end Oclaw.Lib
