import Mathlib.Data.List.Basic
import Mathlib.Data.Nat.Notation

/-!
# Streaks at the end of a history

A streak is counted by a scan that looks at the newest entry first, carries what it has
learned so far, and stops at the first entry that does not go on. Such a scan computes the
longest suffix of the history that it accepts as a whole.
-/

namespace Oclaw.Lib

variable {α : Type*} {σ : Type*}

/-- `s` is the longest suffix of `l` with the property `P`. -/
structure MaximalSuffix (P : List α → Prop) (l s : List α) : Prop where
  isSuffix : s <:+ l
  holds : P s
  longest : ∀ s', s' <:+ l → P s' → s'.length ≤ s.length

theorem MaximalSuffix.unique {P : List α → Prop} {l s s' : List α}
    (h : MaximalSuffix P l s) (h' : MaximalSuffix P l s') : s = s' := by
  have hlen : s.length = s'.length :=
    Nat.le_antisymm (h'.longest s h.isSuffix h.holds) (h.longest s' h'.isSuffix h'.holds)
  exact (List.suffix_of_suffix_length_le h.isSuffix h'.isSuffix (Nat.le_of_eq hlen)).eq_of_length
    hlen

/-- How many entries a scan passes; `next` is what it knows after one more entry. -/
def scan (next : σ → α → Option σ) : σ → List α → ℕ
  | _, [] => 0
  | s, a :: l =>
      match next s a with
      | some s' => scan next s' l + 1
      | none => 0

/-- The scan passes every entry. -/
def Passes (next : σ → α → Option σ) : σ → List α → Prop
  | _, [] => True
  | s, a :: l => ∃ s', next s a = some s' ∧ Passes next s' l

variable {next : σ → α → Option σ}

theorem scan_le (next : σ → α → Option σ) (s : σ) (l : List α) : scan next s l ≤ l.length := by
  induction l generalizing s with
  | nil => exact Nat.le_refl _
  | cons a l ih =>
      rw [scan]
      split
      · exact Nat.succ_le_succ (ih _)
      · exact Nat.zero_le _

theorem passes_take_scan (s : σ) (l : List α) : Passes next s (l.take (scan next s l)) := by
  induction l generalizing s with
  | nil => exact trivial
  | cons a l ih =>
      rw [scan]
      split
      · rename_i s' hs'
        exact ⟨s', hs', ih s'⟩
      · exact trivial

theorem le_scan {s : σ} {l : List α} {n : ℕ} (hn : n ≤ l.length)
    (h : Passes next s (l.take n)) : n ≤ scan next s l := by
  induction l generalizing s n with
  | nil => exact hn
  | cons a l ih =>
      cases n with
      | zero => exact Nat.zero_le _
      | succ n =>
          obtain ⟨s', hs', hrest⟩ := h
          rw [scan, hs']
          exact Nat.succ_le_succ (ih (Nat.le_of_succ_le_succ hn) hrest)

/-- **A scan from the end computes a maximal suffix.** -/
theorem maximalSuffix_scan (next : σ → α → Option σ) (s : σ) (l : List α) :
    MaximalSuffix (fun t => Passes next s t.reverse) l
      (l.drop (l.length - scan next s l.reverse)) := by
  have hle : scan next s l.reverse ≤ l.length := by
    have h := scan_le next s l.reverse
    rwa [List.length_reverse] at h
  refine ⟨List.drop_suffix _ _, ?_, ?_⟩
  · show Passes next s (l.drop (l.length - scan next s l.reverse)).reverse
    rw [List.reverse_drop, Nat.sub_sub_self hle]
    exact passes_take_scan s l.reverse
  · rintro t ⟨pre, rfl⟩ hpass
    rw [List.length_drop, Nat.sub_sub_self hle]
    apply le_scan
    · rw [List.length_reverse, List.length_append]
      exact Nat.le_add_left _ _
    · have htake : (pre ++ t).reverse.take t.length = t.reverse := by
        rw [List.reverse_append, ← List.length_reverse, List.take_left]
      rw [htake]
      exact hpass

/-- The maximal suffixes of equivalent properties are the same. -/
theorem MaximalSuffix.congr {P Q : List α → Prop} {l s : List α}
    (h : MaximalSuffix P l s) (hiff : ∀ t, P t ↔ Q t) : MaximalSuffix Q l s :=
  ⟨h.isSuffix, (hiff s).mp h.holds, fun t ht hQ => h.longest t ht ((hiff t).mpr hQ)⟩

end Oclaw.Lib
