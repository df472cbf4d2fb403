import Oclaw.Lib.Laced

/-!
# Patterns with a mark

A pattern that begins with a mark and has no other one overlaps neither itself nor another
such pattern. So its occurrences are those in the texts between the others, and a search for
it goes past them.
-/

namespace Oclaw.Lib

variable {pat pat' s t : List Char} {m : Char}

/-- A pattern that begins with a mark and has no other one. -/
def MarkedBy (m : Char) (pat : List Char) : Prop := ∃ u, pat = m :: u ∧ m ∉ u

theorem MarkedBy.ne_nil (h : MarkedBy m pat) : pat ≠ [] := by
  obtain ⟨u, rfl, -⟩ := h
  exact List.cons_ne_nil m u

/-- Two occurrences are at one place, or one is before the other. -/
theorem MarkedBy.cases {x y r t : List Char} (h : MarkedBy m pat) (h' : MarkedBy m pat')
    (heq : x ++ (pat ++ r) = y ++ (pat' ++ t)) :
    x = y ∨ x ++ pat <+: y ∨ y ++ pat' <+: x := by
  obtain ⟨u, rfl, hu⟩ := h
  obtain ⟨v, rfl, hv⟩ := h'
  exact marked_cases hu hv heq

/-- The first occurrence is behind a text without any. -/
theorem MarkedBy.splitOnceText_eq (h : MarkedBy m pat) (hs : FreeOf pat s) :
    splitOnceText pat (s ++ (pat ++ t)) = some (s, t) := by
  cases hsides : splitOnceText pat (s ++ (pat ++ t)) with
  | none =>
      rw [← List.append_assoc] at hsides
      exact absurd hsides (splitOnceText_ne_none h.ne_nil s t)
  | some sides =>
      obtain ⟨a, b⟩ := sides
      have heq := splitOnceText_eq_some hsides
      rw [List.append_assoc] at heq
      rcases h.cases h heq with rfl | hpre | hpre
      · rw [List.append_cancel_left_eq, List.append_cancel_left_eq] at heq
        rw [heq]
      · have hfirst := splitOnceText_free h.ne_nil hsides
        exact absurd ((List.suffix_append s _).isInfix.trans hpre.isInfix) hfirst
      · exact absurd ((List.suffix_append a _).isInfix.trans hpre.isInfix) hs

/-- The last occurrence is before a text without any. -/
theorem MarkedBy.rfind_eq_some_iff {i : ℕ} (h : MarkedBy m pat) :
    rfind pat s = some i ↔ ∃ p q, s = p ++ (pat ++ q) ∧ byteLen p = i ∧ FreeOf pat q := by
  have hpos := byteLen_pos_iff.mpr h.ne_nil
  constructor
  · intro hfind
    obtain ⟨p, q, rfl, rfl⟩ := rfind_eq_some hfind
    refine ⟨p, q, List.append_assoc _ _ _, rfl, ?_⟩
    -- a later one would be the last
    rintro ⟨x, y, rfl⟩
    have hlater : p ++ pat ++ (x ++ pat ++ y) = p ++ pat ++ x ++ pat ++ y := by simp
    obtain ⟨j, hj, hle⟩ : ∃ j, rfind pat (p ++ pat ++ x ++ pat ++ y) = some j ∧
        byteLen (p ++ pat ++ x) ≤ j := le_of_occurs _ y
    rw [← hlater, hfind] at hj
    cases hj
    rw [byteLen_append, byteLen_append] at hle
    omega
  · rintro ⟨p, q, rfl, rfl, hfree⟩
    obtain ⟨j, hj, hle⟩ : ∃ j, rfind pat (p ++ pat ++ q) = some j ∧ byteLen p ≤ j :=
      le_of_occurs p q
    rw [List.append_assoc] at hj
    obtain ⟨a, b, hsplit, rfl⟩ := rfind_eq_some hj
    rw [List.append_assoc] at hsplit
    rcases h.cases h hsplit with rfl | ⟨d, rfl⟩ | hpre
    · exact hj
    · rw [List.append_assoc, List.append_assoc, List.append_cancel_left_eq,
        List.append_cancel_left_eq] at hsplit
      exact absurd ⟨d, b, by rw [hsplit, List.append_assoc]⟩ hfree
    · have hlen := byteLen_le_of_isPrefix hpre
      rw [byteLen_append] at hlen
      omega

section Apart

variable (h : MarkedBy m pat) (h' : MarkedBy m pat')
variable (hne : ¬ pat <+: pat') (hne' : ¬ pat' <+: pat)
include h h' hne hne'

/-- An occurrence of another pattern completes none. -/
theorem MarkedBy.freeOf_between (hs : FreeOf pat s) (ht : FreeOf pat t) :
    FreeOf pat (s ++ (pat' ++ t)) := by
  rintro ⟨x, r, heq⟩
  rw [List.append_assoc] at heq
  rcases h.cases h' heq with rfl | hpre | ⟨d, rfl⟩
  · rw [List.append_cancel_left_eq] at heq
    rcases List.append_eq_append_iff.mp heq with ⟨d, hd, -⟩ | ⟨d, hd, -⟩
    · exact hne ⟨d, hd.symm⟩
    · exact hne' ⟨d, hd.symm⟩
  · exact hs ((List.suffix_append x _).isInfix.trans hpre.isInfix)
  · rw [List.append_assoc, List.append_assoc, List.append_cancel_left_eq,
      List.append_cancel_left_eq] at heq
    exact ht ⟨d, r, by rw [List.append_assoc]; exact heq⟩

/-- The search goes past an occurrence of another pattern. -/
theorem MarkedBy.splitOnceText_past (hs : FreeOf pat s) :
    splitOnceText pat (s ++ (pat' ++ t)) =
      (splitOnceText pat t).map (fun sides => (s ++ (pat' ++ sides.1), sides.2)) := by
  cases hsides : splitOnceText pat t with
  | none =>
      have ht := (splitOnceText_eq_none_iff h.ne_nil).mp hsides
      rw [Option.map_none, splitOnceText_eq_none_iff h.ne_nil]
      exact h.freeOf_between h' hne hne' hs ht
  | some sides =>
      obtain ⟨a, b⟩ := sides
      have ha := splitOnceText_free h.ne_nil hsides
      have htext : s ++ (pat' ++ t) = s ++ (pat' ++ a) ++ (pat ++ b) := by
        rw [splitOnceText_eq_some hsides]
        simp
      rw [htext, h.splitOnceText_eq (h.freeOf_between h' hne hne' hs ha)]
      rfl

end Apart

end Oclaw.Lib
