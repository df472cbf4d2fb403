import Mathlib.Data.List.Basic
import Mathlib.Data.List.Induction

/-!
# First occurrences

The elements of a list that are the first with their value, in order. A coarser value keeps
fewer of them.
-/

namespace Oclaw.Lib

variable {α β γ : Type*} {f : α → β} {g : α → γ} {l : List α} {a : α}

/-- An element whose first value is new has a new second value. -/
def KeepsNew (f : α → β) (g : α → γ) (l : List α) : Prop :=
  ∀ before a after, l = before ++ a :: after → g a ∈ before.map g → f a ∈ before.map f

theorem keepsNew_iff : KeepsNew f g l ↔ ∀ before a after, l = before ++ a :: after →
    (∃ b ∈ before, g b = g a) → ∃ b ∈ before, f b = f a := by
  simp only [KeepsNew, List.mem_map]

theorem KeepsNew.of_append {l' : List α} (h : KeepsNew f g (l ++ l')) : KeepsNew f g l := by
  rintro before b after rfl
  exact h before b (after ++ l') (by simp)

theorem keepsNew_concat_iff :
    KeepsNew f g (l ++ [a]) ↔ KeepsNew f g l ∧ (g a ∈ l.map g → f a ∈ l.map f) := by
  constructor
  · intro h
    exact ⟨h.of_append, h l a [] rfl⟩
  · rintro ⟨h, hlast⟩ before b after heq
    rcases List.eq_nil_or_concat' after with rfl | ⟨after', c, rfl⟩
    · obtain ⟨rfl, hb⟩ := List.append_inj' heq rfl
      cases hb
      exact hlast
    · have heq' : l ++ [a] = (before ++ b :: after') ++ [c] := by rw [heq]; simp
      obtain ⟨rfl, -⟩ := List.append_inj' heq' rfl
      exact h before b after' rfl

theorem mem_map_of_finer (hfg : ∀ a b, f a = f b → g a = g b) (h : f a ∈ l.map f) :
    g a ∈ l.map g := by
  obtain ⟨b, hb, heq⟩ := List.mem_map.mp h
  exact List.mem_map.mpr ⟨b, hb, hfg b a heq⟩

variable [DecidableEq β] [DecidableEq γ]

def firstsFrom (f : α → β) : List β → List α → List α
  | _, [] => []
  | seen, a :: l =>
      if f a ∈ seen then firstsFrom f seen l else a :: firstsFrom f (f a :: seen) l

def firstsBy (f : α → β) (l : List α) : List α := firstsFrom f [] l

theorem firstsFrom_concat (f : α → β) (seen : List β) (l : List α) (a : α) :
    firstsFrom f seen (l ++ [a]) =
      firstsFrom f seen l ++ if f a ∈ seen ∨ f a ∈ l.map f then [] else [a] := by
  induction l generalizing seen with
  | nil => simp [firstsFrom]
  | cons b l ih =>
      rw [List.cons_append, firstsFrom, firstsFrom, ih, ih]
      split
      · rename_i hb
        have hiff : (f a ∈ seen ∨ f a ∈ l.map f) ↔ (f a ∈ seen ∨ f a ∈ (b :: l).map f) := by
          rw [List.map_cons, List.mem_cons]
          constructor
          · exact fun h => h.imp_right Or.inr
          · rintro (h | h | h)
            · exact Or.inl h
            · exact Or.inl (h ▸ hb)
            · exact Or.inr h
        simp only [hiff]
      · have hiff : (f a ∈ f b :: seen ∨ f a ∈ l.map f) ↔
            (f a ∈ seen ∨ f a ∈ (b :: l).map f) := by
          rw [List.map_cons, List.mem_cons, List.mem_cons, or_assoc, or_left_comm]
        simp only [hiff, List.cons_append]

/-- A further element is kept when its value is new. -/
theorem firstsBy_concat (f : α → β) (l : List α) (a : α) :
    firstsBy f (l ++ [a]) = firstsBy f l ++ if f a ∈ l.map f then [] else [a] := by
  rw [firstsBy, firstsFrom_concat]
  simp only [List.not_mem_nil, false_or]
  rfl

theorem length_firstsBy_le (hfg : ∀ a b, f a = f b → g a = g b) (l : List α) :
    (firstsBy g l).length ≤ (firstsBy f l).length := by
  induction l using List.reverseRecOn with
  | nil => exact Nat.le_refl _
  | append_singleton l a ih =>
      rw [firstsBy_concat, firstsBy_concat, List.length_append, List.length_append]
      by_cases hf : f a ∈ l.map f
      · rw [if_pos hf, if_pos (mem_map_of_finer hfg hf)]
        exact ih
      · rw [if_neg hf]
        refine Nat.add_le_add ih ?_
        split
        · exact Nat.zero_le _
        · exact Nat.le_refl _

/-- **First occurrences by two values** are the same just when the coarser one keeps what is
new by the finer one. -/
theorem firstsBy_eq_iff (hfg : ∀ a b, f a = f b → g a = g b) :
    firstsBy g l = firstsBy f l ↔ KeepsNew f g l := by
  induction l using List.reverseRecOn with
  | nil => exact ⟨fun _ before a after h => by simp at h, fun _ => rfl⟩
  | append_singleton l a ih =>
      rw [keepsNew_concat_iff, ← ih, firstsBy_concat, firstsBy_concat]
      by_cases hf : f a ∈ l.map f
      · rw [if_pos hf, if_pos (mem_map_of_finer hfg hf), List.append_nil, List.append_nil]
        exact ⟨fun h => ⟨h, fun _ => hf⟩, fun h => h.1⟩
      · by_cases hg : g a ∈ l.map g
        · -- the coarser value drops an element, and has none to spare
          rw [if_neg hf, if_pos hg, List.append_nil]
          constructor
          · intro h
            have hlen := congrArg List.length h
            have hle := length_firstsBy_le hfg l
            rw [List.length_append, List.length_singleton] at hlen
            omega
          · exact fun h => absurd (h.2 hg) hf
        · rw [if_neg hf, if_neg hg, List.append_left_inj]
          exact ⟨fun h => ⟨h, fun hmem => absurd hmem hg⟩, fun h => h.1⟩

end Oclaw.Lib
