import Mathlib.Data.List.Destutter
import Mathlib.Data.List.DropRight

/-!
# Streams without repeats, seen through a window

A buffer that drops an entry which repeats the last one, and the oldest entries when it is
full, holds the last entries of the stream without repeats.
-/

namespace Oclaw.Lib

variable {α β : Type*} [DecidableEq β] {f : α → β} {l : List α} {a b : α} {n : ℕ}

theorem destutter'_concat : (l ++ [b]).destutter' (fun x y => f x ≠ f y) a =
    if f ((a :: l).getLast (by simp)) = f b then l.destutter' (fun x y => f x ≠ f y) a
    else l.destutter' (fun x y => f x ≠ f y) a ++ [b] := by
  induction l generalizing a with
  | nil =>
      by_cases hab : f a = f b <;> simp [hab]
  | cons c l ih =>
      rw [List.cons_append, List.destutter'_cons, List.destutter'_cons, List.getLast_cons (by simp)]
      by_cases hac : f a = f c
      · -- the entry is a repeat, so that the one before stands for it
        have hlast : f ((a :: l).getLast (by simp)) = f ((c :: l).getLast (by simp)) := by
          cases l with
          | nil => simpa using hac
          | cons d l => simp
        rw [if_neg (not_not.mpr hac), if_neg (not_not.mpr hac), ih, hlast]
      · rw [if_pos hac, if_pos hac, ih]
        split <;> simp

/-- One more entry of the stream: it counts unless it repeats the last one. -/
theorem destutter_concat : (l ++ [b]).destutter (fun x y => f x ≠ f y) =
    if l.getLast?.map f = some (f b) then l.destutter (fun x y => f x ≠ f y)
    else l.destutter (fun x y => f x ≠ f y) ++ [b] := by
  cases l with
  | nil => simp
  | cons a l =>
      rw [List.cons_append, List.destutter_cons', List.destutter_cons', destutter'_concat,
        List.getLast?_eq_getLast_of_ne_nil (by simp)]
      simp

omit [DecidableEq β] in
/-- A window that is cut after each entry shows what it would show if it were cut once. -/
theorem rtake_rtake_concat : (l.rtake n ++ [a]).rtake n = (l ++ [a]).rtake n := by
  cases n with
  | zero => simp
  | succ n =>
      rw [List.rtake_concat_succ, List.rtake_concat_succ]
      congr 1
      simp only [List.rtake, List.length_drop, List.drop_drop]
      congr 1
      omega

end Oclaw.Lib
