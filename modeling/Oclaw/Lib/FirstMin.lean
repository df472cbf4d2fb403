import Mathlib.Data.List.MinMax
import Mathlib.Data.List.Induction

/-!
# The first of the least

`List.argmin` gives the first of the elements at which a function is least. It depends on
nothing but the order of the elements with equal values.
-/

namespace Oclaw.Lib

variable {α β : Type*} [LinearOrder β] {f : α → β} {l l' : List α} {m : α}

theorem argmin_eq_some_of_split {before after : List α} (hbefore : ∀ a ∈ before, f m < f a)
    (hafter : ∀ a ∈ after, f m ≤ f a) : (before ++ m :: after).argmin f = some m := by
  induction after using List.reverseRecOn with
  | nil =>
      rw [List.argmin_concat]
      cases hc : before.argmin f with
      | none => rfl
      | some c => exact if_pos (hbefore c (List.argmin_mem hc))
  | append_singleton after a ih =>
      have hrest := ih (fun b hb => hafter b (List.mem_append_left _ hb))
      have hsplit : before ++ m :: (after ++ [a]) = (before ++ m :: after) ++ [a] := by simp
      rw [hsplit, List.argmin_concat, hrest]
      exact if_neg (not_lt_of_ge (hafter a (by simp)))

/-- **The first of the least.** Everything before it is greater, nothing after it is less. -/
theorem argmin_eq_some_iff_split : l.argmin f = some m ↔
    ∃ before after, l = before ++ m :: after ∧ (∀ a ∈ before, f m < f a) ∧
      ∀ a ∈ after, f m ≤ f a := by
  constructor
  · induction l using List.reverseRecOn generalizing m with
    | nil => intro h; cases h
    | append_singleton l a ih =>
        intro h
        rw [List.argmin_concat] at h
        cases hc : l.argmin f with
        | none =>
            rw [hc] at h
            cases h
            rw [List.argmin_eq_none.mp hc]
            exact ⟨[], [], rfl, by simp, by simp⟩
        | some c =>
            simp only [hc] at h
            split at h
            · rename_i hlt
              cases h
              refine ⟨l, [], rfl, ?_, by simp⟩
              intro b hb
              exact lt_of_lt_of_le hlt (List.le_of_mem_argmin hb hc)
            · rename_i hge
              cases h
              obtain ⟨before, after, rfl, hbefore, hafter⟩ := ih hc
              refine ⟨before, after ++ [a], by simp, hbefore, ?_⟩
              intro b hb
              rcases List.mem_append.mp hb with hb | hb
              · exact hafter b hb
              · rw [List.mem_singleton.mp hb]
                exact le_of_not_gt hge
  · rintro ⟨before, after, rfl, hbefore, hafter⟩
    exact argmin_eq_some_of_split hbefore hafter

/-- It is the first of its own class, and its class is the least. -/
theorem argmin_eq_some_iff_head? : l.argmin f = some m ↔
    (∀ a ∈ l, f m ≤ f a) ∧ (l.filter (fun a => f a = f m)).head? = some m := by
  constructor
  · intro h
    refine ⟨fun a ha => List.le_of_mem_argmin ha h, ?_⟩
    obtain ⟨before, after, rfl, hbefore, -⟩ := argmin_eq_some_iff_split.mp h
    have hnone : before.filter (fun a => f a = f m) = [] := by
      rw [List.filter_eq_nil_iff]
      intro a ha
      simpa using (hbefore a ha).ne'
    rw [List.filter_append, hnone, List.nil_append, List.filter_cons_of_pos (by simp)]
    rfl
  · rintro ⟨hleast, hhead⟩
    obtain ⟨rest, hrest⟩ := List.head?_eq_some_iff.mp hhead
    obtain ⟨before, after, rfl, hbefore, -⟩ := List.filter_eq_cons_iff.mp hrest
    apply argmin_eq_some_of_split
    · intro a ha
      have hne : f a ≠ f m := by simpa using hbefore a ha
      exact lt_of_le_of_ne (hleast a (by simp [ha])) hne.symm
    · intro a ha
      exact hleast a (by simp [ha])

theorem mem_of_classes (h : ∀ k, l.filter (fun a => f a = k) = l'.filter (fun a => f a = k))
    {a : α} (ha : a ∈ l) : a ∈ l' := by
  have hclass : a ∈ l.filter (fun b => f b = f a) := List.mem_filter.mpr ⟨ha, by simp⟩
  rw [h] at hclass
  exact List.mem_of_mem_filter hclass

/-- Two lists with the same elements of each value have the same first of the least. -/
theorem argmin_congr (h : ∀ k, l.filter (fun a => f a = k) = l'.filter (fun a => f a = k)) :
    l.argmin f = l'.argmin f := by
  ext m
  rw [argmin_eq_some_iff_head?, argmin_eq_some_iff_head?, h]
  apply and_congr_left
  intro _
  exact ⟨fun hleast a ha => hleast a (mem_of_classes (fun k => (h k).symm) ha),
    fun hleast a ha => hleast a (mem_of_classes h ha)⟩

end Oclaw.Lib
