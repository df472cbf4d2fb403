import Mathlib.Algebra.Order.Field.Rat
import Oclaw.Lib.Greedy

/-!
# Reranking by maximal marginal relevance

`mmr_rerank` (`crates/memory-core/src/mmr.rs`) over any arithmetic of its floats: nothing of
it is used for which candidates are returned, and how often. Over an ordered field, with a
least element for the minus infinity, what is returned is chosen greedily.
-/

namespace Oclaw.MemoryCore

open Oclaw.Lib

/-! ## §1  Floats -/

/-- What is used of `f64`. -/
structure F64 (F : Type) : Type where
  negInfinity : F
  zero : F
  one : F
  sub : F → F → F
  mul : F → F → F
  max : F → F → F
  gt : F → F → Bool
  eq : F → F → Bool

/-- What is used of `f32`. -/
structure F32 (E : Type) : Type where
  zero : E
  add : E → E → E
  mul : E → E → E
  div : E → E → E
  sqrt : E → E
  eq : E → E → Bool

/-- An ordered field with a minus infinity, which is less than all of it. -/
def F64.exact (K : Type) [Field K] [LinearOrder K] : F64 (WithBot K) where
  negInfinity := ⊥
  zero := ((0 : K) : WithBot K)
  one := ((1 : K) : WithBot K)
  sub := WithBot.map₂ (· - ·)
  mul := WithBot.map₂ (· * ·)
  max := (· ⊔ ·)
  gt := fun a b => b < a
  eq := fun a b => a = b

/-! ## §2  The code -/

structure MmrConfig (F : Type) : Type where
  lambda : F
  topK : ℕ
  finalK : ℕ

def isizeMax : ℕ := 2 ^ 63 - 1

/-- `Vec::with_capacity` panics when the capacity takes more than `isize::MAX` bytes. -/
def withCapacity (size n : ℕ) : Option Unit := if size * n ≤ isizeMax then some () else none

section Model

variable {F E : Type} (f64 : F64 F) (f32 : F32 E) (widen : E → F)

def cosineSimilarity (a b : List E) : E :=
  if a.length ≠ b.length ∨ a.isEmpty then f32.zero
  else
    let (dot, na, nb) := (a.zip b).foldl
      (fun (dot, na, nb) (x, y) =>
        (f32.add dot (f32.mul x y), f32.add na (f32.mul x x), f32.add nb (f32.mul y y)))
      (f32.zero, f32.zero, f32.zero)
    let denom := f32.mul (f32.sqrt na) (f32.sqrt nb)
    if f32.eq denom f32.zero then f32.zero else f32.div dot denom

/-- `none` is a panic, as everywhere below. -/
def mmrScore (candidates : List (F × List E)) (lambda : F) (selected : List ℕ) (ci : ℕ) :
    Option F := do
  let (relevance, embedding) ← candidates[ci]?
  let sims ← selected.mapM fun si => do
    let (_, other) ← candidates[si]?
    some (widen (cosineSimilarity f32 embedding other))
  let maxSim := sims.foldl f64.max f64.negInfinity
  let maxSim := if f64.eq maxSim f64.negInfinity then f64.zero else maxSim
  some (f64.sub (f64.mul lambda relevance) (f64.mul (f64.sub f64.one lambda) maxSim))

/-- The position in `remaining` of the first of the best. -/
def bestIdx (score : ℕ → Option F) (remaining : List ℕ) : Option ℕ := do
  let best ← remaining.zipIdx.foldlM
    (fun best (ci, ri) => do
      let mmr ← score ci
      some (if f64.gt mmr best.2 then (ri, mmr) else best))
    (0, f64.negInfinity)
  some best.1

def mmrLoop (candidates : List (F × List E)) (config : MmrConfig F)
    (selected remaining : List ℕ) : Option (List ℕ) :=
  if selected.length < config.finalK ∧ remaining ≠ [] then
    match bestIdx f64 (mmrScore f64 f32 widen candidates config.lambda selected) remaining with
    | none => none
    | some best =>
        match _hswap : swapRemove remaining best with
        | none => none
        | some (chosen, rest) => mmrLoop candidates config (selected ++ [chosen]) rest
  else some selected
termination_by remaining.length
decreasing_by
  rw [length_of_swapRemove _hswap]
  exact Nat.lt_succ_self _

def mmrRerank (_queryEmbedding : List E) (candidates : List (F × List E))
    (config : MmrConfig F) : Option (List ℕ) := do
  let n := min candidates.length config.topK
  if n = 0 then some []
  else
    withCapacity 8 config.finalK
    mmrLoop f64 f32 widen candidates config [] (List.range n)

/-! ## §3  What should be returned -/

/-- As many as can be, each of them once. -/
structure Distinct (candidates : List (F × List E)) (config : MmrConfig F)
    (result : List ℕ) : Prop where
  length : result.length = min config.finalK (min config.topK candidates.length)
  nodup : result.Nodup
  lt : ∀ i ∈ result, i < min config.topK candidates.length

def SelectsDistinct (queryEmbedding : List E) (candidates : List (F × List E))
    (config : MmrConfig F) : Prop :=
  ∃ result, mmrRerank f64 f32 widen queryEmbedding candidates config = some result ∧
    Distinct candidates config result

/-- Nothing to select from, or room can be reserved for as many as are to be selected. -/
def Reservable (candidates : List (F × List E)) (config : MmrConfig F) : Prop :=
  candidates = [] ∨ config.topK = 0 ∨ 8 * config.finalK ≤ isizeMax

end Model

section Exact

variable {K E : Type} [Field K] [LinearOrder K] (f32 : F32 E) (widen : E → K)

/-- Scores of the field, for the code. -/
def exactCandidates (candidates : List (K × List E)) : List (WithBot K × List E) :=
  candidates.map fun c => ((c.1 : WithBot K), c.2)

def exactConfig (config : MmrConfig K) : MmrConfig (WithBot K) :=
  ⟨(config.lambda : WithBot K), config.topK, config.finalK⟩

def exactRerank (queryEmbedding : List E) (candidates : List (K × List E))
    (config : MmrConfig K) : Option (List ℕ) :=
  mmrRerank (F64.exact K) f32 (fun e => (widen e : WithBot K)) queryEmbedding
    (exactCandidates candidates) (exactConfig config)

def relevance (candidates : List (K × List E)) (i : ℕ) : K :=
  (candidates[i]?.map (·.1)).getD 0

def embedding (candidates : List (K × List E)) (i : ℕ) : List E :=
  (candidates[i]?.map (·.2)).getD []

/-- The greatest similarity to the selected ones, zero if there is none. -/
def maxSim (candidates : List (K × List E)) (selected : List ℕ) (i : ℕ) : K :=
  (selected.map fun s =>
    widen (cosineSimilarity f32 (embedding candidates i) (embedding candidates s))).max?.getD 0

def marginalRelevance (candidates : List (K × List E)) (lambda : K) (selected : List ℕ)
    (i : ℕ) : K :=
  lambda * relevance candidates i - (1 - lambda) * maxSim f32 widen candidates selected i

/-- What is selected is distinct, and the best of what is not selected before. -/
def SelectsGreedily (queryEmbedding : List E) (candidates : List (K × List E))
    (config : MmrConfig K) : Prop :=
  ∃ result, exactRerank f32 widen queryEmbedding candidates config = some result ∧
    Distinct candidates config result ∧
    Greedy (marginalRelevance f32 widen candidates config.lambda)
      (List.range (min config.topK candidates.length)) result

end Exact

/-! ## §4  One round -/

section Rounds

variable {α β : Type} {l : List α}

theorem mapM_eq_some_map {f : α → Option β} {g : α → β} (h : ∀ a ∈ l, f a = some (g a)) :
    l.mapM f = some (l.map g) := by
  induction l with
  | nil => rfl
  | cons a l ih =>
      obtain ⟨ha, hl⟩ := List.forall_mem_cons.mp h
      rw [List.mapM_cons, ha, ih hl]
      rfl

theorem foldlM_eq_some_foldl {f : β → α → Option β} {g : β → α → β} (b : β)
    (h : ∀ a ∈ l, ∀ b, f b a = some (g b a)) : l.foldlM f b = some (l.foldl g b) := by
  induction l generalizing b with
  | nil => rfl
  | cons a l ih =>
      obtain ⟨ha, hl⟩ := List.forall_mem_cons.mp h
      rw [List.foldlM_cons, ha b]
      exact ih (g b a) hl

variable {F E : Type} {f64 : F64 F} {f32 : F32 E} {widen : E → F}
  {candidates : List (F × List E)} {config : MmrConfig F} {lambda : F}
  {selected remaining : List ℕ}

/-- A score, from what is known of the candidates it looks up. -/
theorem mmrScore_eq {c : F × List E} {ci : ℕ} (other : ℕ → List E) (hc : candidates[ci]? = some c)
    (hother : ∀ s ∈ selected, candidates[s]?.map (·.2) = some (other s)) :
    mmrScore f64 f32 widen candidates lambda selected ci =
      let sims := selected.map fun s => widen (cosineSimilarity f32 c.2 (other s))
      let maxSim := sims.foldl f64.max f64.negInfinity
      let maxSim := if f64.eq maxSim f64.negInfinity then f64.zero else maxSim
      some (f64.sub (f64.mul lambda c.1) (f64.mul (f64.sub f64.one lambda) maxSim)) := by
  have hsims : (selected.mapM fun si => do
      let (_, other) ← candidates[si]?
      some (widen (cosineSimilarity f32 c.2 other))) =
      some (selected.map fun s => widen (cosineSimilarity f32 c.2 (other s))) := by
    apply mapM_eq_some_map
    intro s hs
    obtain ⟨d, hd, hds⟩ := Option.map_eq_some_iff.mp (hother s hs)
    rw [hd, ← hds]
    rfl
  rw [mmrScore, hc]
  simp only [Option.bind_eq_bind, Option.bind_some] at hsims ⊢
  rw [hsims, Option.bind_some]

theorem mmrScore_isSome {ci : ℕ} (hci : ci < candidates.length)
    (hselected : ∀ s ∈ selected, s < candidates.length) :
    ∃ m, mmrScore f64 f32 widen candidates lambda selected ci = some m := by
  refine ⟨_, mmrScore_eq (fun s => (candidates[s]?.map (·.2)).getD [])
    (List.getElem?_eq_getElem hci) fun s hs => ?_⟩
  rw [List.getElem?_eq_getElem (hselected s hs)]
  rfl

/-- The scan, for scores that are all there. -/
theorem bestIdx_eq {score : ℕ → Option F} {g : ℕ → F}
    (h : ∀ ci ∈ remaining, score ci = some (g ci)) :
    bestIdx f64 score remaining = some (remaining.zipIdx.foldl
      (fun best e => if f64.gt (g e.1) best.2 then (e.2, g e.1) else best)
      (0, f64.negInfinity)).1 := by
  rw [bestIdx, foldlM_eq_some_foldl
    (g := fun best e => if f64.gt (g e.1) best.2 then (e.2, g e.1) else best)]
  · rfl
  · rintro ⟨ci, ri⟩ he best
    have hci : ci ∈ remaining := List.fst_mem_of_mem_zipIdx he
    simp only [h ci hci]
    rfl

/-- Whatever the comparisons say, the scan gives a position of the list. -/
theorem bestIdx_lt {score : ℕ → Option F} (hne : remaining ≠ [])
    (h : ∀ ci ∈ remaining, ∃ m, score ci = some m) :
    ∃ best, bestIdx f64 score remaining = some best ∧ best < remaining.length := by
  have hscore : ∀ ci ∈ remaining, score ci = some ((score ci).getD f64.zero) := by
    intro ci hci
    obtain ⟨m, hm⟩ := h ci hci
    rw [hm]
    rfl
  refine ⟨_, bestIdx_eq hscore, ?_⟩
  apply List.foldlRecOn (motive := fun best : ℕ × F => best.1 < remaining.length)
  · exact List.length_pos_iff.mpr hne
  · intro best hbest e he
    split
    · simpa using List.snd_lt_of_mem_zipIdx he
    · exact hbest

/-! ## §5  All rounds -/

/-- One round takes one candidate. -/
theorem mmrLoop_step {best chosen : ℕ} {rest : List ℕ} (hmore : selected.length < config.finalK)
    (hne : remaining ≠ [])
    (hbest : bestIdx f64 (mmrScore f64 f32 widen candidates config.lambda selected) remaining =
      some best)
    (hswap : swapRemove remaining best = some (chosen, rest)) :
    mmrLoop f64 f32 widen candidates config selected remaining =
      mmrLoop f64 f32 widen candidates config (selected ++ [chosen]) rest := by
  rw [mmrLoop, if_pos ⟨hmore, hne⟩]
  simp only [hbest]
  split
  next h =>
    rw [hswap] at h
    cases h
  next chosen' rest' h =>
    rw [hswap] at h
    cases h
    rfl

/-- What holds of the selected ones at the start, and is kept when one more is taken, holds of
the result. -/
theorem mmrLoop_induct {n : ℕ} (hn : n ≤ candidates.length) {P : List ℕ → Prop}
    (hstep : ∀ selected remaining best chosen rest,
      (selected ++ remaining).Perm (List.range n) → remaining ≠ [] →
      bestIdx f64 (mmrScore f64 f32 widen candidates config.lambda selected) remaining =
        some best → swapRemove remaining best = some (chosen, rest) →
      P selected → P (selected ++ [chosen]))
    (hperm : (selected ++ remaining).Perm (List.range n))
    (hfew : selected.length ≤ config.finalK) (hP : P selected) :
    ∃ result left, mmrLoop f64 f32 widen candidates config selected remaining = some result ∧
      (result ++ left).Perm (List.range n) ∧ result.length = min config.finalK n ∧ P result := by
  generalize hm : remaining.length = m
  induction m generalizing selected remaining with
  | zero =>
      obtain rfl := List.length_eq_zero_iff.mp hm
      have hlen := hperm.length_eq
      rw [List.append_nil, List.length_range] at hlen
      rw [mmrLoop, if_neg (fun h => h.2 rfl)]
      exact ⟨selected, [], rfl, hperm, by omega, hP⟩
  | succ m ih =>
      have hlen := hperm.length_eq
      rw [List.length_append, List.length_range] at hlen
      by_cases hmore : selected.length < config.finalK
      · have hne : remaining ≠ [] := List.ne_nil_of_length_eq_add_one hm
        have hvalid : ∀ s ∈ selected ++ remaining, s < candidates.length :=
          fun s hs => lt_of_lt_of_le (List.mem_range.mp (hperm.mem_iff.mp hs)) hn
        have hscore : ∀ ci ∈ remaining, ∃ m,
            mmrScore f64 f32 widen candidates config.lambda selected ci = some m :=
          fun ci hci => mmrScore_isSome (hvalid ci (List.mem_append_right _ hci))
            fun s hs => hvalid s (List.mem_append_left _ hs)
        obtain ⟨best, hbest, hlt⟩ := bestIdx_lt hne hscore
        obtain ⟨rest, hswap⟩ := swapRemove_of_lt hlt
        have hperm' : (selected ++ [remaining[best]] ++ rest).Perm (List.range n) := by
          rw [List.append_assoc]
          exact ((perm_of_swapRemove hswap).symm.append_left selected).trans hperm
        have hrest := length_of_swapRemove hswap
        obtain ⟨result, left, hresult⟩ := ih hperm'
          (by rw [List.length_append, List.length_singleton]; exact hmore)
          (hstep selected remaining best _ rest hperm hne hbest hswap hP) (by omega)
        refine ⟨result, left, ?_⟩
        rw [mmrLoop_step hmore hne hbest hswap]
        exact hresult
      · rw [mmrLoop, if_neg (fun h => hmore h.1)]
        exact ⟨selected, remaining, rfl, hperm, by omega, hP⟩

theorem distinct_of_perm {result left : List ℕ}
    (hperm : (result ++ left).Perm (List.range (min candidates.length config.topK)))
    (hlen : result.length = min config.finalK (min candidates.length config.topK)) :
    Distinct candidates config result := by
  rw [min_comm candidates.length] at hperm hlen
  refine ⟨hlen, ?_, fun i hi => ?_⟩
  · exact (List.nodup_append.mp (hperm.nodup_iff.mpr List.nodup_range)).1
  · exact List.mem_range.mp (hperm.mem_iff.mp (List.mem_append_left left hi))

theorem mmrRerank_of_reservable {P : List ℕ → Prop} {queryEmbedding : List E}
    (hstep : ∀ selected remaining best chosen rest,
      (selected ++ remaining).Perm (List.range (min candidates.length config.topK)) →
      remaining ≠ [] → bestIdx f64 (mmrScore f64 f32 widen candidates config.lambda selected)
        remaining = some best → swapRemove remaining best = some (chosen, rest) →
      P selected → P (selected ++ [chosen]))
    (hP : P []) (h : Reservable candidates config) :
    ∃ result, mmrRerank f64 f32 widen queryEmbedding candidates config = some result ∧
      Distinct candidates config result ∧ P result := by
  by_cases hn : min candidates.length config.topK = 0
  · refine ⟨[], if_pos hn, ⟨?_, List.nodup_nil, by simp⟩, hP⟩
    rw [min_comm config.topK, hn]
    simp
  · have hroom : 8 * config.finalK ≤ isizeMax := by
      rcases h with rfl | h | h
      · exact absurd (Nat.zero_min _) hn
      · rw [h] at hn
        exact absurd (Nat.min_zero _) hn
      · exact h
    obtain ⟨result, left, hresult, hperm, hlen, hP⟩ := mmrLoop_induct
      (Nat.min_le_left candidates.length config.topK) hstep (List.Perm.refl _)
      (Nat.zero_le _) hP
    refine ⟨result, ?_, distinct_of_perm hperm hlen, hP⟩
    rw [mmrRerank, if_neg hn, withCapacity, if_pos hroom]
    exact hresult

theorem reservable_of_isSome {queryEmbedding : List E} {result : List ℕ}
    (h : mmrRerank f64 f32 widen queryEmbedding candidates config = some result) :
    Reservable candidates config := by
  by_cases hn : min candidates.length config.topK = 0
  · rcases Nat.min_eq_zero_iff.mp hn with hn | hn
    · exact Or.inl (List.length_eq_zero_iff.mp hn)
    · exact Or.inr (Or.inl hn)
  · rw [mmrRerank, if_neg hn, withCapacity] at h
    by_contra hno
    rw [if_neg (fun hroom => hno (Or.inr (Or.inr hroom)))] at h
    cases h

theorem selectsDistinct_iff {queryEmbedding : List E} :
    SelectsDistinct f64 f32 widen queryEmbedding candidates config ↔
      Reservable candidates config := by
  constructor
  · rintro ⟨result, hresult, -⟩
    exact reservable_of_isSome hresult
  · intro h
    obtain ⟨result, hresult, hdistinct, -⟩ := mmrRerank_of_reservable
      (P := fun _ => True) (fun _ _ _ _ _ _ _ _ _ _ => trivial) trivial h
    exact ⟨result, hresult, hdistinct⟩

end Rounds

/-! ## §6  Over a field -/

section Field

variable {K E : Type} {f32 : F32 E} {widen : E → K} {candidates : List (K × List E)}
  {config : MmrConfig K} {lambda : K} {selected remaining : List ℕ}

theorem getElem?_exactCandidates (i : ℕ) : (exactCandidates candidates)[i]? =
    candidates[i]?.map fun c => ((c.1 : WithBot K), c.2) := by
  rw [exactCandidates, List.getElem?_map]

variable [LinearOrder K]

theorem foldl_sup_coe (l : List K) :
    (l.map ((↑) : K → WithBot K)).foldl (· ⊔ ·) ⊥ = l.max?.elim ⊥ ((↑) : K → WithBot K) := by
  have hfrom (l : List K) (b : K) : (l.map ((↑) : K → WithBot K)).foldl (· ⊔ ·) (b : WithBot K) =
      ((l.foldl max b : K) : WithBot K) := by
    induction l generalizing b with
    | nil => rfl
    | cons a l ih => exact ih (max b a)
  cases l with
  | nil => rfl
  | cons a l =>
      rw [List.max?_cons', List.map_cons, List.foldl_cons, bot_sup_eq, hfrom]
      rfl

variable [Field K]

/-- Over a field the score is the marginal relevance. -/
theorem mmrScore_exact {ci : ℕ} (hci : ci < candidates.length)
    (hselected : ∀ s ∈ selected, s < candidates.length) :
    mmrScore (F64.exact K) f32 (fun e => (widen e : WithBot K)) (exactCandidates candidates)
        (lambda : WithBot K) selected ci =
      some ((marginalRelevance f32 widen candidates lambda selected ci : K) : WithBot K) := by
  have hget := List.getElem?_eq_getElem hci
  have hother : ∀ s ∈ selected, (exactCandidates candidates)[s]?.map (·.2) =
      some (embedding candidates s) := by
    intro s hs
    rw [getElem?_exactCandidates, embedding, List.getElem?_eq_getElem (hselected s hs)]
    rfl
  have hc : (exactCandidates candidates)[ci]? =
      some (((relevance candidates ci : K) : WithBot K), embedding candidates ci) := by
    rw [getElem?_exactCandidates, relevance, embedding, hget]
    rfl
  have hsims : (selected.map fun s => ((widen (cosineSimilarity f32 (embedding candidates ci)
      (embedding candidates s)) : K) : WithBot K)) =
      (selected.map fun s => widen (cosineSimilarity f32 (embedding candidates ci)
        (embedding candidates s))).map ((↑) : K → WithBot K) := by
    rw [List.map_map]
    rfl
  rw [mmrScore_eq (embedding candidates) hc hother, marginalRelevance, maxSim]
  simp only [hsims, F64.exact, foldl_sup_coe]
  cases (selected.map fun s => widen (cosineSimilarity f32 (embedding candidates ci)
      (embedding candidates s))).max? with
  | none =>
      simp only [Option.elim, decide_true, ↓reduceIte, Option.getD_none]
      rfl
  | some m =>
      simp only [Option.elim, WithBot.coe_ne_bot, decide_false, Bool.false_eq_true, ↓reduceIte,
        Option.getD_some]
      rfl

/-- Over a field the scan gives a position with the greatest marginal relevance. -/
theorem bestIdx_exact {score : ℕ → Option (WithBot K)} {v : ℕ → K} {best : ℕ}
    (hne : remaining ≠ []) (hscore : ∀ ci ∈ remaining, score ci = some (v ci : WithBot K))
    (h : bestIdx (F64.exact K) score remaining = some best) :
    ∃ hlt : best < remaining.length, ∀ a ∈ remaining, v a ≤ v remaining[best] := by
  have hkeep : (fun (best : ℕ × WithBot K) (e : ℕ × ℕ) =>
      if (F64.exact K).gt (v e.1 : WithBot K) best.2 then (e.2, (v e.1 : WithBot K)) else best) =
      keepGreater v := by
    funext best e
    simp [F64.exact, keepGreater]
  rw [bestIdx_eq hscore, hkeep] at h
  rcases foldl_keepGreater v remaining with ⟨hnil, -⟩ | ⟨i, hi, heq, hbest⟩
  · exact absurd hnil hne
  · have hbot : (F64.exact K).negInfinity = ⊥ := rfl
    rw [hbot, heq] at h
    obtain rfl := Option.some.inj h
    exact ⟨hi, hbest⟩

/-- One round keeps the sequence greedy. -/
theorem greedy_step {n best chosen : ℕ} {rest : List ℕ} (hn : n ≤ candidates.length)
    (hperm : (selected ++ remaining).Perm (List.range n)) (hne : remaining ≠ [])
    (hbest : bestIdx (F64.exact K) (mmrScore (F64.exact K) f32 (fun e => (widen e : WithBot K))
      (exactCandidates candidates) (lambda : WithBot K) selected) remaining = some best)
    (hswap : swapRemove remaining best = some (chosen, rest))
    (h : Greedy (marginalRelevance f32 widen candidates lambda) (List.range n) selected) :
    Greedy (marginalRelevance f32 widen candidates lambda) (List.range n)
      (selected ++ [chosen]) := by
  have hvalid : ∀ s ∈ selected ++ remaining, s < candidates.length :=
    fun s hs => lt_of_lt_of_le (List.mem_range.mp (hperm.mem_iff.mp hs)) hn
  have hscore : ∀ ci ∈ remaining, mmrScore (F64.exact K) f32 (fun e => (widen e : WithBot K))
      (exactCandidates candidates) (lambda : WithBot K) selected ci =
      some ((marginalRelevance f32 widen candidates lambda selected ci : K) : WithBot K) :=
    fun ci hci => mmrScore_exact (hvalid ci (List.mem_append_right _ hci))
      fun s hs => hvalid s (List.mem_append_left _ hs)
  obtain ⟨hlt, hgreatest⟩ := bestIdx_exact hne hscore hbest
  obtain ⟨rest', htaken⟩ := swapRemove_of_lt hlt
  rw [hswap] at htaken
  obtain ⟨rfl, -⟩ := Prod.mk.inj (Option.some.inj htaken)
  refine h.concat fun a ha hnew => hgreatest a ?_
  exact (List.mem_append.mp (hperm.mem_iff.mpr ha)).resolve_left hnew

theorem selectsGreedily_iff {queryEmbedding : List E} :
    SelectsGreedily f32 widen queryEmbedding candidates config ↔
      Reservable candidates config := by
  have hlen : (exactCandidates candidates).length = candidates.length := List.length_map _
  have hsame : Reservable (exactCandidates candidates) (exactConfig config) ↔
      Reservable candidates config := by
    rw [Reservable, Reservable, exactCandidates, List.map_eq_nil_iff]
    rfl
  have hdistinct {result : List ℕ} (h : Distinct (exactCandidates candidates)
      (exactConfig config) result) : Distinct candidates config result := by
    have hl := h.length
    have hi := h.lt
    rw [hlen] at hl hi
    exact ⟨hl, h.nodup, hi⟩
  rw [← hsame]
  constructor
  · rintro ⟨result, hresult, -⟩
    exact reservable_of_isSome hresult
  · intro h
    have hn : min (exactCandidates candidates).length config.topK ≤ candidates.length := by
      rw [hlen]
      exact Nat.min_le_left _ _
    have hgreedy := @mmrRerank_of_reservable _ _ (F64.exact K) f32
      (fun e => (widen e : WithBot K)) (exactCandidates candidates) (exactConfig config)
      (Greedy (marginalRelevance f32 widen candidates config.lambda)
        (List.range (min (exactCandidates candidates).length config.topK)))
      queryEmbedding
      (fun _ _ _ _ _ hperm hne hbest hswap => greedy_step hn hperm hne hbest hswap) greedy_nil h
    obtain ⟨result, hresult, hd, hbest⟩ := hgreedy
    rw [hlen, min_comm] at hbest
    exact ⟨result, hresult, hdistinct hd, hbest⟩

end Field

/-- **Reranking.** It selects distinct candidates, in any arithmetic of the floats, and over a
field the best ones of what is left, just when room for the selection can be reserved. -/
theorem mmrRerank_iff {F E K : Type} [Field K] [LinearOrder K] (f64 : F64 F) (f32 : F32 E)
    (widen : E → F) (exactWiden : E → K) :
    (∀ query candidates config, SelectsDistinct f64 f32 widen query candidates config ↔
        Reservable candidates config) ∧
      ∀ query candidates config, SelectsGreedily f32 exactWiden query candidates config ↔
        Reservable candidates config :=
  ⟨fun _ _ _ => selectsDistinct_iff, fun _ _ _ => selectsGreedily_iff⟩

/-- Asking for all there are fails, here for the only candidate. -/
theorem not_selects_all :
    let f32 : F32 ℕ := ⟨0, (· + ·), (· * ·), (· / ·), Nat.sqrt, (· == ·)⟩
    let widen : ℕ → WithBot ℚ := fun e => ((e : ℚ) : WithBot ℚ)
    mmrRerank (F64.exact ℚ) f32 widen [1] [(((1 : ℚ) : WithBot ℚ), [1])]
        ⟨((1 : ℚ) : WithBot ℚ), 20, 2 ^ 64 - 1⟩ = none ∧
      ¬ ∀ query candidates config,
        SelectsDistinct (F64.exact ℚ) f32 widen query candidates config := by
  intro f32 widen
  have hnone : mmrRerank (F64.exact ℚ) f32 widen [1] [(((1 : ℚ) : WithBot ℚ), [1])]
      ⟨((1 : ℚ) : WithBot ℚ), 20, 2 ^ 64 - 1⟩ = none := rfl
  refine ⟨hnone, fun h => ?_⟩
  obtain ⟨result, hresult, -⟩ := h _ _ _
  rw [hnone] at hresult
  cases hresult

end Oclaw.MemoryCore
