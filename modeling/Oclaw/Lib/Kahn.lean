import Mathlib.Algebra.Order.BigOperators.Group.Finset
import Mathlib.Data.Fintype.EquivFin
import Mathlib.Logic.Relation
import Mathlib.Order.WellFounded

/-!
# Removing the nodes of a graph one after the other

A worklist has the nodes without an incoming edge; a node that is taken from it takes its
edges away, and a node that loses its last incoming edge is queued. Edges are lists of
targets, so there may be several between two nodes, and from a node to itself.

The nodes that are taken have no cycle above them, and what is never taken has a cycle:
the worklist takes all nodes just when the graph has no cycle, in whatever order it is
filled.
-/

namespace Oclaw.Lib.Kahn

variable {V : Type*} [DecidableEq V]

/-! ## §1  The worklist -/

/-- One edge of the node that is taken: the count of its target goes down, and at zero the
target is queued. -/
def visitChild (st : (V → ℕ) × List V) (child : V) : (V → ℕ) × List V :=
  let next := st.1 child - 1
  (Function.update st.1 child next, if next = 0 then st.2 ++ [child] else st.2)

/-- Take nodes while there are any, for a number of rounds; how many were taken. -/
def run (targets : V → List V) : ℕ → (V → ℕ) → List V → ℕ → Option ℕ
  | _, _, [], visited => some visited
  | 0, _, _ :: _, _ => none
  | rounds + 1, degrees, u :: q, visited =>
      let st := (targets u).foldl visitChild (degrees, q)
      run targets rounds st.1 st.2 (visited + 1)

variable {targets : V → List V} {N P : Finset V} {degrees : V → ℕ} {q : List V} {u v : V}

/-- Where no count goes below zero, the targets that lose their last edge are queued once. -/
theorem foldl_visitChild : ∀ (cs : List V) (degrees : V → ℕ) (q : List V),
    (∀ v, cs.count v ≤ degrees v) →
      ∃ new : List V,
        cs.foldl visitChild (degrees, q) = (fun v => degrees v - cs.count v, q ++ new) ∧
          new.Nodup ∧ ∀ v, v ∈ new ↔ v ∈ cs ∧ degrees v = cs.count v
  | [], degrees, q, _ => ⟨[], by simp, List.nodup_nil, by simp⟩
  | c :: cs, degrees, q, h => by
      have hc : cs.count c + 1 ≤ degrees c := by simpa using h c
      have hle : ∀ v, cs.count v ≤ Function.update degrees c (degrees c - 1) v := by
        intro v
        by_cases hv : v = c
        · subst hv
          rw [Function.update_self]
          omega
        · rw [Function.update_of_ne hv]
          exact le_trans List.count_le_count_cons (h v)
      obtain ⟨new, hfold, hnodup, hmem⟩ := foldl_visitChild cs
        (Function.update degrees c (degrees c - 1))
        (if degrees c - 1 = 0 then q ++ [c] else q) hle
      have hdegrees : (fun v => Function.update degrees c (degrees c - 1) v - cs.count v) =
          fun v => degrees v - (c :: cs).count v := by
        funext v
        by_cases hv : v = c
        · subst hv
          rw [Function.update_self, List.count_cons_self]
          omega
        · rw [Function.update_of_ne hv, List.count_cons_of_ne (Ne.symm hv)]
      rw [List.foldl_cons, visitChild]
      simp only
      rw [hfold, hdegrees]
      by_cases hlast : degrees c - 1 = 0
      · -- the last edge into `c`: it is queued now, and not met again
        have hone : degrees c = 1 := by omega
        have hgone : cs.count c = 0 := by omega
        have hout : c ∉ cs := List.count_eq_zero.mp hgone
        refine ⟨c :: new, by simp [hlast], ?_, ?_⟩
        · refine List.nodup_cons.mpr ⟨?_, hnodup⟩
          exact fun hin => hout ((hmem c).mp hin).1
        · intro v
          by_cases hv : v = c
          · subst hv
            simp [hone, hgone]
          · simp [hmem, hv, Ne.symm hv]
      · refine ⟨new, by simp [hlast], hnodup, ?_⟩
        intro v
        by_cases hv : v = c
        · subst hv
          rw [hmem, Function.update_self, List.count_cons_self]
          constructor
          · rintro ⟨-, heq⟩
            exact ⟨List.mem_cons_self, by omega⟩
          · rintro ⟨-, heq⟩
            exact ⟨List.count_pos_iff.mp (by omega), by omega⟩
        · simp [hmem, hv, Ne.symm hv]

/-! ## §2  What the rounds preserve -/

/-- An edge of the graph on the nodes `N`. -/
def Edge (targets : V → List V) (N : Finset V) (u v : V) : Prop := u ∈ N ∧ v ∈ targets u

/-- `P` are the nodes that were taken: the counts are those of the edges from the others,
the nodes without one are taken or queued, and above what was taken there is no cycle. -/
structure Inv (targets : V → List V) (N : Finset V) (degrees : V → ℕ) (q : List V)
    (P : Finset V) : Prop where
  nodup : q.Nodup
  fresh : ∀ v ∈ q, v ∉ P
  count : ∀ v, degrees v = ∑ u ∈ N \ P, (targets u).count v
  taken : P ⊆ N
  queued : ∀ v ∈ q, v ∈ N
  ready : ∀ v ∈ N, v ∈ P ∨ v ∈ q ↔ degrees v = 0
  acc : ∀ v ∈ P, Acc (Edge targets N) v

theorem count_le_of_mem (h : Inv targets N degrees q P) (hu : u ∈ N \ P) :
    (targets u).count v ≤ degrees v := by
  rw [h.count v]
  exact Finset.single_le_sum (f := fun u => (targets u).count v) (fun _ _ => Nat.zero_le _) hu

/-- A node without a count has all nodes before it taken. -/
theorem mem_of_edge (h : Inv targets N degrees q P) (hv : degrees v = 0)
    (hedge : Edge targets N u v) : u ∈ P := by
  by_contra hu
  have hle := count_le_of_mem (v := v) h (Finset.mem_sdiff.mpr ⟨hedge.1, hu⟩)
  have hpos := List.count_pos_iff.mpr hedge.2
  omega

theorem Inv.take (h : Inv targets N degrees (u :: q) P)
    (hclosed : ∀ u ∈ N, ∀ v ∈ targets u, v ∈ N) :
    ∃ new, (targets u).foldl visitChild (degrees, q) =
        (fun v => degrees v - (targets u).count v, q ++ new) ∧
      Inv targets N (fun v => degrees v - (targets u).count v) (q ++ new) (insert u P) := by
  have huN : u ∈ N := h.queued u List.mem_cons_self
  have huP : u ∉ P := h.fresh u List.mem_cons_self
  have hsdiff : u ∈ N \ P := Finset.mem_sdiff.mpr ⟨huN, huP⟩
  have hzero : degrees u = 0 := (h.ready u huN).mp (Or.inr List.mem_cons_self)
  obtain ⟨hout, hq⟩ := List.nodup_cons.mp h.nodup
  obtain ⟨new, hfold, hnew, hmem⟩ :=
    foldl_visitChild (targets u) degrees q (fun v => count_le_of_mem h hsdiff)
  -- what is newly queued had a count until now
  have hlast : ∀ v ∈ new, v ∈ N ∧ 0 < degrees v := by
    intro v hv
    obtain ⟨htarget, hcount⟩ := (hmem v).mp hv
    refine ⟨hclosed u huN v htarget, ?_⟩
    rw [hcount]
    exact List.count_pos_iff.mpr htarget
  have hnotready : ∀ v ∈ new, v ∉ P ∧ v ∉ u :: q := by
    intro v hv
    obtain ⟨hvN, hpos⟩ := hlast v hv
    refine ⟨fun hP => ?_, fun hQ => ?_⟩
    · have := (h.ready v hvN).mp (Or.inl hP)
      omega
    · have := (h.ready v hvN).mp (Or.inr hQ)
      omega
  refine ⟨new, hfold, ⟨?_, ?_, ?_, ?_, ?_, ?_, ?_⟩⟩
  · rw [List.nodup_append]
    refine ⟨hq, hnew, ?_⟩
    rintro v hv w hw rfl
    exact (hnotready v hw).2 (List.mem_cons_of_mem _ hv)
  · intro v hv hP
    rw [Finset.mem_insert] at hP
    rcases List.mem_append.mp hv with hv | hv
    · rcases hP with rfl | hP
      · exact hout hv
      · exact h.fresh v (List.mem_cons_of_mem _ hv) hP
    · rcases hP with rfl | hP
      · exact (hnotready v hv).2 List.mem_cons_self
      · exact (hnotready v hv).1 hP
  · intro v
    have hsplit : N \ P = insert u (N \ insert u P) := by
      ext w
      by_cases hw : w = u
      · simp [hw, huN, huP]
      · simp [hw]
    have hsum := h.count v
    rw [hsplit, Finset.sum_insert (by simp)] at hsum
    show degrees v - (targets u).count v = _
    omega
  · exact Finset.insert_subset huN h.taken
  · intro v hv
    rcases List.mem_append.mp hv with hv | hv
    · exact h.queued v (List.mem_cons_of_mem _ hv)
    · exact (hlast v hv).1
  · intro v hvN
    have hready := h.ready v hvN
    have hcount := count_le_of_mem (v := v) h hsdiff
    rw [Finset.mem_insert, List.mem_append]
    constructor
    · rintro ((rfl | hP) | (hQ | hQ))
      · show degrees v - _ = 0
        omega
      · show degrees v - _ = 0
        have := hready.mp (Or.inl hP)
        omega
      · show degrees v - _ = 0
        have := hready.mp (Or.inr (List.mem_cons_of_mem _ hQ))
        omega
      · show degrees v - _ = 0
        have := ((hmem v).mp hQ).2
        omega
    · intro hnone
      replace hnone : degrees v - (targets u).count v = 0 := hnone
      rcases Nat.eq_zero_or_pos (degrees v) with hz | hpos
      · rcases hready.mpr hz with hP | hQ
        · exact Or.inl (Or.inr hP)
        · rcases List.mem_cons.mp hQ with rfl | hQ
          · exact Or.inl (Or.inl rfl)
          · exact Or.inr (Or.inl hQ)
      · exact Or.inr (Or.inr ((hmem v).mpr ⟨List.count_pos_iff.mp (by omega), by omega⟩))
  · intro v hv
    rcases Finset.mem_insert.mp hv with rfl | hv
    · exact Acc.intro _ fun w hw => h.acc w (mem_of_edge h hzero hw)
    · exact h.acc v hv

/-- With as many rounds as there are nodes left, the worklist runs empty. -/
theorem run_of_inv (hclosed : ∀ u ∈ N, ∀ v ∈ targets u, v ∈ N) :
    ∀ (rounds : ℕ) {degrees : V → ℕ} {q : List V} {P : Finset V},
      Inv targets N degrees q P → N.card ≤ rounds + P.card →
        ∃ degrees' P', Inv targets N degrees' [] P' ∧
          run targets rounds degrees q P.card = some P'.card := by
  intro rounds
  induction rounds with
  | zero =>
      intro degrees q P h hrounds
      cases q with
      | nil => exact ⟨degrees, P, h, rfl⟩
      | cons u q =>
          -- a queued node would be one more than there are
          have hlt : P.card < N.card := Finset.card_lt_card
            ((Finset.ssubset_iff_of_subset h.taken).mpr
              ⟨u, h.queued u List.mem_cons_self, h.fresh u List.mem_cons_self⟩)
          omega
  | succ rounds ih =>
      intro degrees q P h hrounds
      cases q with
      | nil => exact ⟨degrees, P, h, rfl⟩
      | cons u q =>
          obtain ⟨new, hfold, hinv⟩ := h.take hclosed
          have hcard : (insert u P).card = P.card + 1 :=
            Finset.card_insert_of_notMem (h.fresh u List.mem_cons_self)
          obtain ⟨degrees', P', hend, hrun⟩ := ih hinv (by omega)
          refine ⟨degrees', P', hend, ?_⟩
          rw [run]
          simp only [hfold]
          rwa [← hcard]

/-! ## §3  All nodes are taken just when there is no cycle -/

/-- No node comes back to itself. -/
def Acyclic (r : V → V → Prop) : Prop := ∀ v, ¬ Relation.TransGen r v v

omit [DecidableEq V] in
theorem not_transGen_self_of_acc {r : V → V → Prop} (h : Acc r v) : ¬ Relation.TransGen r v v := by
  have hacc : Acc (Relation.TransGen r) v := h.transGen
  induction hacc with
  | intro v _ ih => exact fun hloop => ih v hloop h hloop

omit [DecidableEq V] in
/-- Of finitely many nodes some of which are left, one has nothing left before it. -/
theorem exists_first {r : V → V → Prop} (hr : Acyclic r) (S : Finset V) (hS : S.Nonempty) :
    ∃ v ∈ S, ∀ u ∈ S, ¬ r u v := by
  have hwf : WellFounded (fun a b : S => Relation.TransGen r a.1 b.1) := by
    have : IsTrans S (fun a b => Relation.TransGen r a.1 b.1) := ⟨fun _ _ _ => .trans⟩
    have : Std.Irrefl (fun a b : S => Relation.TransGen r a.1 b.1) := ⟨fun a => hr a.1⟩
    exact Finite.wellFounded_of_trans_of_irrefl _
  obtain ⟨v, hv⟩ := hS
  obtain ⟨m, -, hmin⟩ := hwf.has_min Set.univ ⟨⟨v, hv⟩, trivial⟩
  exact ⟨m.1, m.2, fun u hu hedge => hmin ⟨u, hu⟩ trivial (.single hedge)⟩

theorem taken_all_iff (h : Inv targets N degrees [] P) :
    P.card = N.card ↔ Acyclic (Edge targets N) := by
  constructor
  · intro hcard v hloop
    have hall : P = N := Finset.eq_of_subset_of_card_le h.taken hcard.ge
    obtain ⟨u, hu, -⟩ := Relation.TransGen.head'_iff.mp hloop
    exact not_transGen_self_of_acc (h.acc v (hall ▸ hu.1)) hloop
  · intro hacyclic
    by_contra hne
    have hleft : (N \ P).Nonempty := by
      rw [Finset.sdiff_nonempty]
      exact fun hsub => hne (congrArg Finset.card (Finset.Subset.antisymm h.taken hsub))
    obtain ⟨v, hv, hfirst⟩ := exists_first hacyclic (N \ P) hleft
    obtain ⟨hvN, hvP⟩ := Finset.mem_sdiff.mp hv
    -- nothing is left before `v`, so its count is zero and it would be queued
    have hzero : degrees v = 0 := by
      rw [h.count v]
      refine Finset.sum_eq_zero fun u hu => List.count_eq_zero.mpr fun htarget => ?_
      exact hfirst u hu ⟨(Finset.mem_sdiff.mp hu).1, htarget⟩
    rcases (h.ready v hvN).mpr hzero with hP | hQ
    · exact hvP hP
    · cases hQ

/-- Started on the nodes without an incoming edge, in any order, the worklist ends within
as many rounds as there are nodes, and it has then taken all of them just when the graph
has no cycle. -/
theorem run_eq_card_iff (hclosed : ∀ u ∈ N, ∀ v ∈ targets u, v ∈ N)
    (hcount : ∀ v, degrees v = ∑ u ∈ N, (targets u).count v) (hnodup : q.Nodup)
    (hq : ∀ v, v ∈ q ↔ v ∈ N ∧ degrees v = 0) :
    ∃ n, run targets N.card degrees q 0 = some n ∧
      (n = N.card ↔ Acyclic (Edge targets N)) := by
  have hstart : Inv targets N degrees q ∅ := by
    refine ⟨hnodup, by simp, by simpa using hcount, by simp, fun v hv => ((hq v).mp hv).1, ?_,
      by simp⟩
    intro v hv
    simp [hq, hv]
  obtain ⟨degrees', P', hend, hrun⟩ :=
    run_of_inv hclosed N.card hstart (Nat.le_add_right _ _)
  exact ⟨P'.card, hrun, taken_all_iff hend⟩

end Oclaw.Lib.Kahn
