import Mathlib.Data.Nat.Notation
import Mathlib.Tactic.Tauto
import Mathlib.Data.List.Nodup

/-!
# What a search with a stack finds

A search takes a node from a stack, looks at the rows of the node, and enters each row of
which it has not seen the identity yet: the row is put out and the nodes that it leads to
are pushed. Both common forms are instances. Where nodes are marked when they are taken, the
only row of a node is the node itself; where edges are marked when they are followed, the
rows of a node are its edges.

The search ends, and it puts out the rows that the roots reach, each identity once.
-/

namespace Oclaw.Lib

structure RowGraph (V R ι : Type*) where
  rows : V → List R
  id : R → ι
  targets : R → List V

namespace RowGraph

variable {V R ι : Type*} [DecidableEq ι] (g : RowGraph V R ι)

/-! ## §1  The search -/

def visitRow (st : List V × List R) (r : R) : List V × List R :=
  if g.id r ∈ st.2.map g.id then st
  else ((g.targets r).foldl (fun stack v => v :: stack) st.1, st.2 ++ [r])

/-- `none` when the rounds do not suffice. -/
def walk : ℕ → List V → List R → Option (List R)
  | _, [], out => some out
  | 0, _ :: _, _ => none
  | rounds + 1, v :: stack, out =>
      let st := (g.rows v).foldl g.visitRow (stack, out)
      walk rounds st.1 st.2

/-- As many rounds as there can be pushes. -/
def rounds (all : List R) (roots : List V) : ℕ :=
  roots.length + (all.flatMap g.targets).length

def search (all : List R) (roots : List V) : List R :=
  (g.walk (g.rounds all roots) roots []).getD []

omit [DecidableEq ι] in
/-- The rows that are reached from some nodes. -/
inductive Reach (roots : List V) : R → Prop where
  | root {v : V} {r : R} : v ∈ roots → r ∈ g.rows v → Reach roots r
  | step {r r' : R} {v : V} : Reach roots r → v ∈ g.targets r → r' ∈ g.rows v → Reach roots r'

variable {g} {roots stack : List V} {out all rs : List R} {r : R} {v : V}

/-! ## §2  What one round does -/

omit [DecidableEq ι] in
theorem mem_foldl_push {vs : List V} :
    v ∈ vs.foldl (fun stack v => v :: stack) stack ↔ v ∈ vs ∨ v ∈ stack := by
  induction vs generalizing stack with
  | nil => simp
  | cons u vs ih =>
      rw [List.foldl_cons, ih]
      simp only [List.mem_cons]
      tauto

omit [DecidableEq ι] in
theorem length_foldl_push {vs : List V} :
    (vs.foldl (fun stack v => v :: stack) stack).length = vs.length + stack.length := by
  induction vs generalizing stack with
  | nil => simp
  | cons u vs ih =>
      rw [List.foldl_cons, ih, List.length_cons, List.length_cons]
      omega

/-- The rows of a round that are new. -/
structure Round (g : RowGraph V R ι) (stack : List V) (out rs : List R) (st : List V × List R) :
    Prop where
  grows : ∃ new, st.2 = out ++ new ∧ (∀ r ∈ new, r ∈ rs) ∧
    ∀ v, v ∈ st.1 ↔ v ∈ stack ∨ ∃ r ∈ new, v ∈ g.targets r
  nodup : (out.map g.id).Nodup → (st.2.map g.id).Nodup
  seen : ∀ r ∈ rs, g.id r ∈ st.2.map g.id

theorem foldl_visitRow (rs : List R) : ∀ (stack : List V) (out : List R),
    g.Round stack out rs (rs.foldl g.visitRow (stack, out)) := by
  induction rs with
  | nil =>
      intro stack out
      exact ⟨⟨[], by simp⟩, fun h => h, by simp⟩
  | cons r rs ih =>
      intro stack out
      by_cases hr : g.id r ∈ out.map g.id
      · have hstep : g.visitRow (stack, out) r = (stack, out) := if_pos hr
        rw [List.foldl_cons, hstep]
        obtain ⟨⟨new, hout, hnew, hstack⟩, hnodup, hseen⟩ := ih stack out
        refine ⟨⟨new, hout, fun x hx => List.mem_cons_of_mem _ (hnew x hx), hstack⟩, hnodup, ?_⟩
        intro x hx
        rcases List.mem_cons.mp hx with rfl | hx
        · rw [hout, List.map_append]
          exact List.mem_append_left _ hr
        · exact hseen x hx
      · have hstep : g.visitRow (stack, out) r =
            ((g.targets r).foldl (fun stack v => v :: stack) stack, out ++ [r]) := if_neg hr
        rw [List.foldl_cons, hstep]
        obtain ⟨⟨new, hout, hnew, hstack⟩, hnodup, hseen⟩ :=
          ih ((g.targets r).foldl (fun stack v => v :: stack) stack) (out ++ [r])
        refine ⟨⟨r :: new, by rw [hout, List.append_assoc]; rfl, ?_, ?_⟩, ?_, ?_⟩
        · intro x hx
          rcases List.mem_cons.mp hx with rfl | hx
          · simp
          · exact List.mem_cons_of_mem _ (hnew x hx)
        · intro v
          rw [hstack, mem_foldl_push]
          simp only [List.mem_cons, exists_eq_or_imp]
          tauto
        · intro h
          refine hnodup ?_
          rw [List.map_append, List.nodup_append]
          refine ⟨h, by simp, ?_⟩
          intro a ha b hb heq
          simp only [List.map_cons, List.map_nil, List.mem_singleton] at hb
          subst hb heq
          exact hr ha
        · intro x hx
          rcases List.mem_cons.mp hx with rfl | hx
          · rw [hout]
            simp
          · exact hseen x hx

/-! ## §3  The search ends -/

/-- How many nodes the rows that are not seen yet can still push. -/
def left (g : RowGraph V R ι) (all out : List R) : ℕ :=
  ((all.filter (fun r => decide (g.id r ∉ out.map g.id))).flatMap g.targets).length

theorem left_le (all out : List R) (r : R) : g.left all (out ++ [r]) ≤ g.left all out := by
  induction all with
  | nil => simp [left]
  | cons x all ih =>
      unfold left at ih ⊢
      by_cases hx : g.id x ∈ out.map g.id
      · have hx' : g.id x ∈ (out ++ [r]).map g.id := by
          rw [List.map_append]
          exact List.mem_append_left _ hx
        simpa only [List.filter_cons, hx, hx', not_true, decide_false, Bool.false_eq_true,
          if_false] using ih
      · by_cases hx' : g.id x ∈ (out ++ [r]).map g.id
        · simp only [List.filter_cons, hx, hx', not_true, not_false_iff, decide_false,
            decide_true, Bool.false_eq_true, if_false, if_true, List.flatMap_cons, List.length_append]
          omega
        · simp only [List.filter_cons, hx, hx', not_false_iff, decide_true, if_true,
            List.flatMap_cons, List.length_append]
          omega

/-- A row that is entered pushes nodes that are not counted any more. -/
theorem left_enter (hall : r ∈ all) (hnew : g.id r ∉ out.map g.id) :
    (g.targets r).length + g.left all (out ++ [r]) ≤ g.left all out := by
  induction all with
  | nil => cases hall
  | cons x all ih =>
      rcases List.mem_cons.mp hall with rfl | hmem
      · have hle := left_le (g := g) all out r
        unfold left at hle ⊢
        have hseen : g.id r ∈ (out ++ [r]).map g.id := by simp
        simp only [List.filter_cons, hnew, hseen, not_true, not_false_iff, decide_false,
          decide_true, Bool.false_eq_true, if_false, if_true, List.flatMap_cons, List.length_append]
        omega
      · have hrest := ih hmem
        unfold left at hrest ⊢
        by_cases hx : g.id x ∈ out.map g.id
        · have hx' : g.id x ∈ (out ++ [r]).map g.id := by
            rw [List.map_append]
            exact List.mem_append_left _ hx
          simpa only [List.filter_cons, hx, hx', not_true, decide_false, Bool.false_eq_true,
            if_false] using hrest
        · by_cases hx' : g.id x ∈ (out ++ [r]).map g.id
          · simp only [List.filter_cons, hx, hx', not_true, not_false_iff, decide_false,
              decide_true, Bool.false_eq_true, if_false, if_true, List.flatMap_cons, List.length_append]
            omega
          · simp only [List.filter_cons, hx, hx', not_false_iff, decide_true, if_true,
              List.flatMap_cons, List.length_append]
            omega

theorem foldl_visitRow_left (rs : List R) (hall : ∀ r ∈ rs, r ∈ all) :
    ∀ (stack : List V) (out : List R),
      (rs.foldl g.visitRow (stack, out)).1.length +
          g.left all (rs.foldl g.visitRow (stack, out)).2 ≤
        stack.length + g.left all out := by
  induction rs with
  | nil =>
      intro stack out
      exact Nat.le_refl _
  | cons r rs ih =>
      intro stack out
      have hrest := ih (fun x hx => hall x (List.mem_cons_of_mem _ hx))
      by_cases hr : g.id r ∈ out.map g.id
      · have hstep : g.visitRow (stack, out) r = (stack, out) := if_pos hr
        rw [List.foldl_cons, hstep]
        exact hrest stack out
      · have hstep : g.visitRow (stack, out) r =
            ((g.targets r).foldl (fun stack v => v :: stack) stack, out ++ [r]) := if_neg hr
        rw [List.foldl_cons, hstep]
        have henter : _ ≤ g.left all out := left_enter (hall r (by simp)) hr
        have hle := hrest ((g.targets r).foldl (fun stack v => v :: stack) stack) (out ++ [r])
        rw [length_foldl_push] at hle
        omega

/-! ## §4  What is found -/

omit [DecidableEq ι] in
/-- Nodes whose rows are due: the roots, and those that rows lead to. -/
def Due (g : RowGraph V R ι) (roots : List V) (out : List R) (v : V) : Prop :=
  v ∈ roots ∨ ∃ r ∈ out, v ∈ g.targets r

omit [DecidableEq ι] in
/-- What is put out is reached, and a node that is due is on the stack or done. -/
structure Found (g : RowGraph V R ι) (roots stack : List V) (out : List R) : Prop where
  reach : ∀ r ∈ out, g.Reach roots r
  due : ∀ v ∈ stack, g.Due roots out v
  nodup : (out.map g.id).Nodup
  done : ∀ v, g.Due roots out v → v ∈ stack ∨ ∀ r ∈ g.rows v, g.id r ∈ out.map g.id

omit [DecidableEq ι] in
/-- What is reached is a row. -/
theorem Reach.mem_of_rows (hall : ∀ v, ∀ r ∈ g.rows v, r ∈ all) (h : g.Reach roots r) : r ∈ all := by
  cases h with
  | root _ hrow => exact hall _ _ hrow
  | step _ _ hrow => exact hall _ _ hrow

omit [DecidableEq ι] in
theorem Reach.of_due (hout : ∀ r ∈ out, g.Reach roots r) (hdue : g.Due roots out v)
    (hr : r ∈ g.rows v) : g.Reach roots r := by
  rcases hdue with hroot | ⟨x, hx, hv⟩
  · exact .root hroot hr
  · exact .step (hout x hx) hv hr

theorem Found.round (h : g.Found roots (v :: stack) out) :
    g.Found roots ((g.rows v).foldl g.visitRow (stack, out)).1
      ((g.rows v).foldl g.visitRow (stack, out)).2 := by
  obtain ⟨⟨new, hout, hnew, hstack⟩, hnodup, hseen⟩ := foldl_visitRow (g := g) (g.rows v) stack out
  have hnewreach : ∀ r ∈ new, g.Reach roots r := fun r hr =>
    Reach.of_due h.reach (h.due v (by simp)) (hnew r hr)
  refine ⟨?_, ?_, hnodup h.nodup, ?_⟩
  · intro r hr
    rw [hout] at hr
    rcases List.mem_append.mp hr with hr | hr
    · exact h.reach r hr
    · exact hnewreach r hr
  · intro u hu
    rw [hout]
    rcases (hstack u).mp hu with hu | ⟨r, hr, hur⟩
    · rcases h.due u (List.mem_cons_of_mem _ hu) with hroot | ⟨r, hr, hur⟩
      · exact Or.inl hroot
      · exact Or.inr ⟨r, List.mem_append_left _ hr, hur⟩
    · exact Or.inr ⟨r, List.mem_append_right _ hr, hur⟩
  · intro u hu
    rw [hout] at hu
    have hold : g.Due roots out u ∨ ∃ r ∈ new, u ∈ g.targets r := by
      rcases hu with hroot | ⟨r, hr, hur⟩
      · exact Or.inl (Or.inl hroot)
      · rcases List.mem_append.mp hr with hr | hr
        · exact Or.inl (Or.inr ⟨r, hr, hur⟩)
        · exact Or.inr ⟨r, hr, hur⟩
    rcases hold with hdue | hpushed
    · rcases h.done u hdue with hmem | hdone
      · rcases List.mem_cons.mp hmem with rfl | hmem
        · exact Or.inr hseen
        · exact Or.inl ((hstack u).mpr (Or.inl hmem))
      · refine Or.inr fun r hr => ?_
        rw [hout, List.map_append]
        exact List.mem_append_left _ (hdone r hr)
    · exact Or.inl ((hstack u).mpr (Or.inr hpushed))

theorem walk_found (hall : ∀ r, g.Reach roots r → r ∈ all) :
    ∀ (n : ℕ) (stack : List V) (out : List R), g.Found roots stack out →
      stack.length + g.left all out ≤ n →
      ∃ result, g.walk n stack out = some result ∧ g.Found roots [] result := by
  intro n
  induction n with
  | zero =>
      intro stack out h hle
      have hnil : stack = [] := List.length_eq_zero_iff.mp (by omega)
      subst hnil
      exact ⟨out, rfl, h⟩
  | succ n ih =>
      intro stack out h hle
      cases stack with
      | nil => exact ⟨out, rfl, h⟩
      | cons v stack =>
          refine ih _ _ h.round ?_
          have hrows : ∀ r ∈ g.rows v, r ∈ all := fun r hr =>
            hall r (Reach.of_due h.reach (h.due v (by simp)) hr)
          have hround := foldl_visitRow_left (g := g) (g.rows v) hrows stack out
          rw [List.length_cons] at hle
          omega

theorem search_found (hall : ∀ r, g.Reach roots r → r ∈ all) :
    g.Found roots [] (g.search all roots) := by
  have hstart : g.Found roots roots [] := by
    refine ⟨by simp, fun v hv => Or.inl hv, by simp, ?_⟩
    rintro v (hv | ⟨r, hr, -⟩)
    · exact Or.inl hv
    · cases hr
  have hleft : g.left all [] = (all.flatMap g.targets).length := by
    unfold left
    rw [List.filter_eq_self.mpr (by simp)]
  obtain ⟨result, hwalk, hfound⟩ := walk_found hall (g.rounds all roots) roots [] hstart
    (Nat.le_of_eq (by rw [rounds, hleft]))
  rw [search, hwalk, Option.getD_some]
  exact hfound

/-- The search ends and finds what the roots reach. Rows that are reached and have the
same identity have to be the same. -/
theorem mem_search (hall : ∀ r, g.Reach roots r → r ∈ all)
    (hid : ∀ r r', g.Reach roots r → g.Reach roots r' → g.id r = g.id r' → r = r') :
    r ∈ g.search all roots ↔ g.Reach roots r := by
  have hfound : g.Found roots [] (g.search all roots) := search_found hall
  constructor
  · exact hfound.reach r
  · intro hr
    -- by the way in which the row is reached
    have close {v : V} {r : R} (hdue : g.Due roots (g.search all roots) v) (hrow : r ∈ g.rows v) :
        r ∈ g.search all roots := by
      rcases hfound.done v hdue with hv | hdone
      · cases hv
      · obtain ⟨r', hr', heq⟩ := List.mem_map.mp (hdone r hrow)
        rwa [hid r r' (Reach.of_due hfound.reach hdue hrow) (hfound.reach r' hr') heq.symm]
    induction hr with
    | root hv hrow => exact close (Or.inl hv) hrow
    | step _ hv hrow ih => exact close (Or.inr ⟨_, ih, hv⟩) hrow

theorem nodup_search (hall : ∀ r, g.Reach roots r → r ∈ all) :
    ((g.search all roots).map g.id).Nodup :=
  (search_found hall).nodup

end RowGraph

end Oclaw.Lib
