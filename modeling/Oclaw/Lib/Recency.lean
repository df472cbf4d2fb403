import Mathlib.Data.List.Dedup

/-!
# Order of last use

From a list of uses, oldest first, the distinct values with the one used last in front. A use
moves a value to the front. The values of a cache of `n` places that drops the value used
longest ago are the first `n` of them.
-/

namespace Oclaw.Lib

variable {α : Type*} [DecidableEq α] {a : α} {l uses : List α} {n : ℕ}

/-- The values, by their last use; the latest comes first. -/
def recency (uses : List α) : List α := uses.dedup.reverse

/-- Move to the front, or enter there. -/
def touch (a : α) (l : List α) : List α := a :: l.filter (· ≠ a)

theorem nodup_recency (uses : List α) : (recency uses).Nodup :=
  List.nodup_reverse.mpr (List.nodup_dedup uses)

@[simp] theorem mem_recency : a ∈ recency uses ↔ a ∈ uses := by
  simp [recency]

theorem dedup_concat (uses : List α) (a : α) :
    (uses ++ [a]).dedup = uses.dedup.filter (· ≠ a) ++ [a] := by
  induction uses with
  | nil => rfl
  | cons b uses ih =>
      rw [List.cons_append, List.dedup_cons, List.dedup_cons, ih]
      by_cases hb : b = a
      · subst hb
        by_cases hmem : b ∈ uses
        · simp [hmem]
        · simp [hmem]
      · by_cases hmem : b ∈ uses
        · simp [hmem]
        · simp [hmem, hb]

/-- A use moves to the front. -/
theorem recency_concat (uses : List α) (a : α) :
    recency (uses ++ [a]) = touch a (recency uses) := by
  rw [recency, dedup_concat, List.reverse_append, List.reverse_singleton, List.singleton_append,
    ← List.filter_reverse]
  rfl

/-! ## The first values -/

theorem filter_ne_of_notMem (h : a ∉ l) : l.filter (· ≠ a) = l := by
  rw [List.filter_eq_self]
  intro b hb
  simpa using ne_of_mem_of_not_mem hb h

theorem take_filter_of_mem (hl : l.Nodup) (h : a ∈ l.take (n + 1)) :
    (l.filter (· ≠ a)).take n = (l.take (n + 1)).filter (· ≠ a) := by
  induction l generalizing n with
  | nil => simp at h
  | cons b l ih =>
      obtain ⟨hb, hl⟩ := List.nodup_cons.mp hl
      rw [List.take_succ_cons] at h ⊢
      rcases List.mem_cons.mp h with rfl | h
      · rw [List.filter_cons_of_neg (by simp), List.filter_cons_of_neg (by simp),
          filter_ne_of_notMem hb, filter_ne_of_notMem fun hmem => hb (List.mem_of_mem_take hmem)]
      · have hne : b ≠ a := by
          rintro rfl
          exact hb (List.mem_of_mem_take h)
        rw [List.filter_cons_of_pos (by simpa using hne),
          List.filter_cons_of_pos (by simpa using hne)]
        cases n with
        | zero => simp at h
        | succ n => rw [List.take_succ_cons, ih hl h]

theorem take_filter_of_notMem (h : a ∉ l.take n) : (l.filter (· ≠ a)).take n = l.take n := by
  induction l generalizing n with
  | nil => rfl
  | cons b l ih =>
      cases n with
      | zero => rfl
      | succ n =>
          rw [List.take_succ_cons, List.mem_cons, not_or] at h
          rw [List.filter_cons_of_pos (by simpa using Ne.symm h.1), List.take_succ_cons,
            List.take_succ_cons, ih h.2]

/-- A use of one of the first values reorders them. -/
theorem take_touch_of_mem (hl : l.Nodup) (h : a ∈ l.take n) :
    (touch a l).take n = touch a (l.take n) := by
  cases n with
  | zero => simp at h
  | succ n => rw [touch, touch, List.take_succ_cons, take_filter_of_mem hl h]

/-- So does a use while there is room. -/
theorem take_touch_of_room (h : l.length < n) : (touch a l).take n = touch a (l.take n) := by
  have hlen : (touch a l).length ≤ n := Nat.succ_le_of_lt
    (Nat.lt_of_le_of_lt (List.length_filter_le _ _) h)
  rw [List.take_of_length_le hlen, List.take_of_length_le (Nat.le_of_lt h)]

/-- A use of another value enters it and pushes what is behind the others out. -/
theorem take_touch_of_notMem (h : a ∉ l.take (n + 1)) :
    (touch a l).take (n + 1) = a :: l.take n := by
  rw [touch, List.take_succ_cons, take_filter_of_notMem]
  exact fun hmem => h (List.take_subset_take_left l (Nat.le_succ n) hmem)

end Oclaw.Lib
