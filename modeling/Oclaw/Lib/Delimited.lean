import Mathlib.Data.List.Basic

/-!
# Sequences joined by a separator

Two parts joined by a separator can be read back as long as the reader knows
where to cut. `splitOnce` and `splitN` cut at the first separators, as Rust's
`str::split_once` and `str::splitn` do. `Recut` says that two pairs of parts are
one sequence cut at two different separators, which is the only way in which
different pairs can be joined to the same sequence.
-/

namespace Oclaw.Lib

variable {α : Type*}

/-! ## Cutting at the first separators -/

section Cutting

variable [DecidableEq α]

/-- What stands before and behind the first separator. -/
@[grind =]
def splitOnce (sep : α) : List α → Option (List α × List α)
  | [] => none
  | c :: cs =>
      if c = sep then some ([], cs)
      else (splitOnce sep cs).map (fun p => (c :: p.1, p.2))

/-- At most `n` pieces; the last one keeps the separators it contains. -/
@[grind =]
def splitN (sep : α) : ℕ → List α → List (List α)
  | 0, _ => []
  | 1, cs => [cs]
  | n + 2, cs =>
      match splitOnce sep cs with
      | none => [cs]
      | some (start, rest) => start :: splitN sep (n + 1) rest

theorem splitOnce_of_not_mem {sep : α} {cs : List α} (h : sep ∉ cs) :
    splitOnce sep cs = none := by
  induction cs with
  | nil => rfl
  | cons c cs ih =>
      obtain ⟨hc, hcs⟩ := not_or.mp (mt List.mem_cons.mpr h)
      simp [splitOnce, Ne.symm hc, ih hcs]

theorem splitOnce_joined {sep : α} {a : List α} (h : sep ∉ a) (b : List α) :
    splitOnce sep (a ++ sep :: b) = some (a, b) := by
  induction a with
  | nil => simp [splitOnce]
  | cons c a ih =>
      obtain ⟨hc, ha⟩ := not_or.mp (mt List.mem_cons.mpr h)
      simp [splitOnce, Ne.symm hc, ih ha]

theorem splitOnce_eq_some {sep : α} {cs a b : List α} (h : splitOnce sep cs = some (a, b)) :
    sep ∉ a ∧ cs = a ++ sep :: b := by
  induction cs generalizing a with
  | nil => cases h
  | cons c cs ih =>
      rw [splitOnce] at h
      split at h
      · rename_i hc
        cases h
        exact ⟨List.not_mem_nil, by rw [hc]; rfl⟩
      · rename_i hc
        obtain ⟨⟨a', b'⟩, hrest, heq⟩ := Option.map_eq_some_iff.mp h
        cases heq
        obtain ⟨hmem, rfl⟩ := ih hrest
        exact ⟨List.not_mem_cons_of_ne_of_not_mem (Ne.symm hc) hmem, rfl⟩

theorem not_mem_of_splitOnce {sep : α} {cs : List α} (h : splitOnce sep cs = none) :
    sep ∉ cs := by
  intro hmem
  obtain ⟨a, b, rfl, ha⟩ := List.eq_append_cons_of_mem hmem
  rw [splitOnce_joined ha] at h
  cases h

theorem splitN_ne_nil {sep : α} (n : ℕ) (cs : List α) : splitN sep (n + 1) cs ≠ [] := by
  cases n with
  | zero => exact List.cons_ne_nil _ _
  | succ n =>
      rw [splitN]
      split <;> exact List.cons_ne_nil _ _

theorem splitN_of_not_mem {sep : α} {cs : List α} (h : sep ∉ cs) (n : ℕ) :
    splitN sep (n + 1) cs = [cs] := by
  cases n with
  | zero => rfl
  | succ n => rw [splitN, splitOnce_of_not_mem h]

theorem splitN_joined {sep : α} {a : List α} (h : sep ∉ a) (n : ℕ) (b : List α) :
    splitN sep (n + 2) (a ++ sep :: b) = a :: splitN sep (n + 1) b := by
  rw [splitN, splitOnce_joined h]

/-- Every piece but the last is free of the separator: its cut is the first one
behind the cut before it. -/
theorem splitN_eq_cons_cons {sep : α} {n : ℕ} {cs a b : List α} {rest : List (List α)}
    (h : splitN sep (n + 1) cs = a :: b :: rest) :
    ∃ cs', sep ∉ a ∧ cs = a ++ sep :: cs' ∧ splitN sep n cs' = b :: rest := by
  cases n with
  | zero => simp [splitN] at h
  | succ n =>
      rw [splitN] at h
      split at h
      · simp at h
      · rename_i start cs' hsplit
        obtain ⟨rfl, hrest⟩ := List.cons.inj h
        obtain ⟨hmem, hcs⟩ := splitOnce_eq_some hsplit
        exact ⟨cs', hmem, hcs, hrest⟩

theorem splitN_eq_singleton {sep : α} {n : ℕ} {cs a : List α}
    (h : splitN sep (n + 2) cs = [a]) : sep ∉ a ∧ cs = a := by
  rw [splitN] at h
  split at h
  · rename_i hnone
    obtain ⟨rfl, -⟩ := List.cons.inj h
    exact ⟨not_mem_of_splitOnce hnone, rfl⟩
  · obtain ⟨-, hrest⟩ := List.cons.inj h
    exact absurd hrest (splitN_ne_nil n _)

end Cutting

/-! ## When two pairs of parts are joined to the same sequence -/

/-- The second pair is the first one cut at a later separator. -/
def CutLater (sep : α) (a b a' b' : List α) : Prop :=
  ∃ w, a' = a ++ sep :: w ∧ b = w ++ sep :: b'

/-- The two pairs are one sequence cut at two different separators. -/
def Recut (sep : α) (a b a' b' : List α) : Prop :=
  CutLater sep a b a' b' ∨ CutLater sep a' b' a b

theorem Recut.symm {sep : α} {a b a' b' : List α} (h : Recut sep a b a' b') :
    Recut sep a' b' a b :=
  Or.symm h

theorem CutLater.ne {sep : α} {a b a' b' : List α} (h : CutLater sep a b a' b') : a ≠ a' := by
  obtain ⟨w, rfl, rfl⟩ := h
  intro heq
  have hlen := congrArg List.length heq
  simp at hlen

theorem Recut.ne {sep : α} {a b a' b' : List α} (h : Recut sep a b a' b') : a ≠ a' := by
  rcases h with h | h
  · exact h.ne
  · exact h.ne.symm

/-- A sequence is cut later only behind a first part that contains the separator. -/
theorem CutLater.mem {sep : α} {a b a' b' : List α} (h : CutLater sep a b a' b') :
    sep ∈ a' ∧ sep ∈ b := by
  obtain ⟨w, rfl, rfl⟩ := h
  simp

theorem not_recut_of_not_mem {sep : α} {a a' : List α} (h : sep ∉ a) (h' : sep ∉ a')
    (b b' : List α) : ¬ Recut sep a b a' b' := by
  rintro (hcut | hcut)
  · exact h' hcut.mem.1
  · exact h hcut.mem.1

/-- **Joined pairs collide only by being recut.** -/
theorem joined_eq_iff {sep : α} {a b a' b' : List α} :
    a ++ sep :: b = a' ++ sep :: b' ↔ (a = a' ∧ b = b') ∨ Recut sep a b a' b' := by
  constructor
  · intro h
    rcases List.append_eq_append_iff.mp h with ⟨w, hw, hb⟩ | ⟨w, hw, hb⟩
    · cases w with
      | nil =>
          simp only [List.append_nil] at hw
          exact .inl ⟨hw.symm, (List.cons.inj hb).2⟩
      | cons c w =>
          obtain ⟨rfl, rfl⟩ := List.cons.inj hb
          exact .inr (.inl ⟨w, hw, rfl⟩)
    · cases w with
      | nil =>
          simp only [List.append_nil] at hw
          exact .inl ⟨hw, (List.cons.inj hb).2.symm⟩
      | cons c w =>
          obtain ⟨rfl, rfl⟩ := List.cons.inj hb
          exact .inr (.inr ⟨w, hw, rfl⟩)
  · rintro (⟨rfl, rfl⟩ | ⟨w, rfl, rfl⟩ | ⟨w, rfl, rfl⟩)
    · rfl
    · simp
    · simp

end Oclaw.Lib
