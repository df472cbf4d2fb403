import Mathlib.Algebra.BigOperators.Group.List.Basic
import Mathlib.Data.Set.Basic
import Oclaw.Lib.HashMap
import Oclaw.ToolsCore.Policy

/-!
# Merged tool policies

`merge` and the three-layer pipeline of `crates/tools-core/src/policy.rs`. What a policy
says of a tool depends on its allow list and on two sets, its rules. Rules form a monoid,
merging is its product, and the pipeline decides by the product over the policies that
apply: the sets add up, and of the allow lists the last one counts.
-/

namespace Oclaw.ToolsCore

open Oclaw.Lib (HashMap)

/-! ## §1  Merging -/

def ToolPolicy.default : ToolPolicy := ⟨none, [], []⟩

def ToolPolicy.merge (p overridePolicy : ToolPolicy) : ToolPolicy where
  allow := overridePolicy.allow.or p.allow
  deny := overridePolicy.deny.foldl pushNew p.deny
  requireApproval := overridePolicy.requireApproval.foldl pushNew p.requireApproval

structure ToolPolicyPipeline : Type where
  globalPolicy : ToolPolicy
  channelPolicies : HashMap String ToolPolicy
  sessionPolicies : HashMap String ToolPolicy

def ToolPolicyPipeline.check (pl : ToolPolicyPipeline) (toolName : String)
    (channel session : Option String) : ToolPolicyDecision :=
  let merged := pl.globalPolicy
  let merged :=
    match channel.bind pl.channelPolicies.lookup with
    | some cp => merged.merge cp
    | none => merged
  let merged :=
    match session.bind pl.sessionPolicies.lookup with
    | some sp => merged.merge sp
    | none => merged
  merged.isAllowed toolName

/-! ## §2  Rules -/

/-- What a policy is for its decisions. -/
@[ext] structure Rules : Type where
  allow : Option (List String)
  deny : Set String
  requireApproval : Set String

def ToolPolicy.rules (p : ToolPolicy) : Rules :=
  ⟨p.allow, {t | t ∈ p.deny}, {t | t ∈ p.requireApproval}⟩

namespace Rules

/-- The right factor takes precedence. -/
instance instMonoid : Monoid Rules where
  mul r r' := ⟨r'.allow.or r.allow, r.deny ∪ r'.deny, r.requireApproval ∪ r'.requireApproval⟩
  one := ⟨none, ∅, ∅⟩
  mul_assoc r r' r'' := by
    apply Rules.ext
    · exact Option.or_assoc.symm
    · exact Set.union_assoc ..
    · exact Set.union_assoc ..
  one_mul r := by
    apply Rules.ext
    · exact Option.or_none
    · exact Set.empty_union _
    · exact Set.empty_union _
  mul_one r := by
    apply Rules.ext
    · exact Option.none_or
    · exact Set.union_empty _
    · exact Set.union_empty _

variable {r r' : Rules} {rs : List Rules} {toolName : String}

@[simp] theorem mul_allow : (r * r').allow = r'.allow.or r.allow := rfl

@[simp] theorem mul_deny : (r * r').deny = r.deny ∪ r'.deny := rfl

@[simp] theorem mul_requireApproval :
    (r * r').requireApproval = r.requireApproval ∪ r'.requireApproval := rfl

@[simp] theorem one_deny : (1 : Rules).deny = ∅ := rfl

@[simp] theorem one_requireApproval : (1 : Rules).requireApproval = ∅ := rfl

/-- Of the allow lists the last one counts. -/
theorem prod_allow : rs.prod.allow = lastSpoken Rules.allow rs := by
  induction rs using List.reverseRecOn with
  | nil => rfl
  | append_singleton rs r ih =>
      rw [List.prod_append, List.prod_singleton, mul_allow, ih, lastSpoken_concat]

theorem mem_prod_deny : toolName ∈ rs.prod.deny ↔ ∃ r ∈ rs, toolName ∈ r.deny := by
  induction rs with
  | nil => exact ⟨False.elim, by rintro ⟨r, hr, -⟩; cases hr⟩
  | cons r rs ih => rw [List.prod_cons, mul_deny, Set.mem_union, ih, List.exists_mem_cons_iff]

theorem mem_prod_requireApproval :
    toolName ∈ rs.prod.requireApproval ↔ ∃ r ∈ rs, toolName ∈ r.requireApproval := by
  induction rs with
  | nil => exact ⟨False.elim, by rintro ⟨r, hr, -⟩; cases hr⟩
  | cons r rs ih =>
      rw [List.prod_cons, mul_requireApproval, Set.mem_union, ih, List.exists_mem_cons_iff]

end Rules

section Decisions

variable {p q : ToolPolicy} {ps : List ToolPolicy} {toolName : String}

@[simp] theorem rules_default : ToolPolicy.default.rules = 1 := by
  apply Rules.ext
  · rfl
  · ext t
    simp [ToolPolicy.rules, ToolPolicy.default]
  · ext t
    simp [ToolPolicy.rules, ToolPolicy.default]

/-- Merging multiplies the rules. -/
@[simp] theorem rules_merge (p q : ToolPolicy) : (p.merge q).rules = p.rules * q.rules := by
  apply Rules.ext
  · rfl
  · ext t
    exact mem_foldl_pushNew
  · ext t
    exact mem_foldl_pushNew

theorem rules_foldl_merge (p : ToolPolicy) (ps : List ToolPolicy) :
    (ps.foldl ToolPolicy.merge p).rules = ((p :: ps).map ToolPolicy.rules).prod := by
  induction ps generalizing p with
  | nil => simp
  | cons q ps ih => rw [List.foldl_cons, ih]; simp [mul_assoc]

/-- Policies with the same rules decide alike. -/
theorem isAllowed_congr (h : p.rules = q.rules) (toolName : String) :
    p.isAllowed toolName = q.isAllowed toolName := by
  have hallow : p.allow = q.allow := congrArg Rules.allow h
  have hdeny : toolName ∈ p.deny ↔ toolName ∈ q.deny :=
    iff_of_eq (congrArg (fun r => toolName ∈ r.deny) h)
  have happroval : toolName ∈ p.requireApproval ↔ toolName ∈ q.requireApproval :=
    iff_of_eq (congrArg (fun r => toolName ∈ r.requireApproval) h)
  simp only [ToolPolicy.isAllowed, hallow, hdeny, happroval]

end Decisions

/-! ## §3  The pipeline -/

/-- The policies for a context, the most specific one last. -/
def ToolPolicyPipeline.applicable (pl : ToolPolicyPipeline) (channel session : Option String) :
    List ToolPolicy :=
  pl.globalPolicy :: ((channel.bind pl.channelPolicies.lookup).toList ++
    (session.bind pl.sessionPolicies.lookup).toList)

section Pipeline

variable {pl : ToolPolicyPipeline} {toolName : String} {channel session : Option String}
variable {ps : List ToolPolicy} {p : ToolPolicy}

/-- The pipeline decides by the product of the rules. -/
theorem check_eq (pl : ToolPolicyPipeline) (toolName : String) (channel session : Option String) :
    ∃ merged : ToolPolicy, pl.check toolName channel session = merged.isAllowed toolName ∧
      merged.rules = ((pl.applicable channel session).map ToolPolicy.rules).prod := by
  refine ⟨((channel.bind pl.channelPolicies.lookup).toList ++
    (session.bind pl.sessionPolicies.lookup).toList).foldl ToolPolicy.merge pl.globalPolicy,
    ?_, rules_foldl_merge _ _⟩
  rw [ToolPolicyPipeline.check]
  cases channel.bind pl.channelPolicies.lookup <;>
    cases session.bind pl.sessionPolicies.lookup <;> rfl

theorem mem_deny_of_rules {merged : ToolPolicy}
    (h : merged.rules = (ps.map ToolPolicy.rules).prod) :
    toolName ∈ merged.deny ↔ ∃ p ∈ ps, toolName ∈ p.deny := by
  have hset : toolName ∈ merged.rules.deny ↔ ∃ p ∈ ps, toolName ∈ p.rules.deny := by
    rw [h, Rules.mem_prod_deny]
    simp
  exact hset

theorem mem_requireApproval_of_rules {merged : ToolPolicy}
    (h : merged.rules = (ps.map ToolPolicy.rules).prod) :
    toolName ∈ merged.requireApproval ↔ ∃ p ∈ ps, toolName ∈ p.requireApproval := by
  have hset : toolName ∈ merged.rules.requireApproval ↔
      ∃ p ∈ ps, toolName ∈ p.rules.requireApproval := by
    rw [h, Rules.mem_prod_requireApproval]
    simp
  exact hset

theorem allow_of_rules {merged : ToolPolicy}
    (h : merged.rules = (ps.map ToolPolicy.rules).prod) :
    merged.allow = lastSpoken ToolPolicy.allow ps := by
  have hallow : merged.rules.allow = lastSpoken Rules.allow (ps.map ToolPolicy.rules) := by
    rw [h, Rules.prod_allow]
  rw [lastSpoken, List.foldl_map] at hallow
  exact hallow

theorem check_denied (h : ∃ p ∈ pl.applicable channel session, toolName ∈ p.deny) :
    pl.check toolName channel session = .denied s!"Tool '{toolName}' is denied by policy" := by
  obtain ⟨merged, hcheck, hrules⟩ := check_eq pl toolName channel session
  rw [hcheck, ToolPolicy.isAllowed, if_pos ((mem_deny_of_rules hrules).mpr h)]

theorem check_ne_allowed (h : ∃ p ∈ pl.applicable channel session, toolName ∈ p.requireApproval) :
    pl.check toolName channel session ≠ .allowed := by
  obtain ⟨merged, hcheck, hrules⟩ := check_eq pl toolName channel session
  rw [hcheck]
  exact isAllowed_ne_allowed ((mem_requireApproval_of_rules hrules).mpr h)

/-- Without a denial and an approval the allow list of the last policy with one decides. -/
theorem check_eq_allow (hdeny : ∀ p ∈ pl.applicable channel session, toolName ∉ p.deny)
    (happroval : ∀ p ∈ pl.applicable channel session, toolName ∉ p.requireApproval) :
    pl.check toolName channel session =
      if (lastSpoken ToolPolicy.allow (pl.applicable channel session)).any
        (fun allow => toolName ∉ allow)
      then .denied s!"Tool '{toolName}' is not in the allow list" else .allowed := by
  obtain ⟨merged, hcheck, hrules⟩ := check_eq pl toolName channel session
  have hnodeny : toolName ∉ merged.deny := by
    rw [mem_deny_of_rules hrules]
    rintro ⟨p, hp, hmem⟩
    exact hdeny p hp hmem
  have hnoapproval : toolName ∉ merged.requireApproval := by
    rw [mem_requireApproval_of_rules hrules]
    rintro ⟨p, hp, hmem⟩
    exact happroval p hp hmem
  rw [hcheck, ToolPolicy.isAllowed, if_neg hnodeny, if_neg hnoapproval, allow_of_rules hrules]

/-- The laws of merging: it is associative with the default policy as its identity, as far as
decisions go, and the pipeline denies by the union of the denials, never just allows what
needs an approval, and otherwise goes by the most specific allow list. -/
theorem policy_merge_laws :
    (∀ (p q r : ToolPolicy) (toolName : String),
      ((p.merge q).merge r).isAllowed toolName = (p.merge (q.merge r)).isAllowed toolName) ∧
    (∀ (p : ToolPolicy) (toolName : String),
      (ToolPolicy.default.merge p).isAllowed toolName = p.isAllowed toolName ∧
      (p.merge .default).isAllowed toolName = p.isAllowed toolName) ∧
    ∀ (pl : ToolPolicyPipeline) (toolName : String) (channel session : Option String),
      ((∃ p ∈ pl.applicable channel session, toolName ∈ p.deny) →
        ∃ reason, pl.check toolName channel session = .denied reason) ∧
      ((∃ p ∈ pl.applicable channel session, toolName ∈ p.requireApproval) →
        pl.check toolName channel session ≠ .allowed) ∧
      ((∀ p ∈ pl.applicable channel session, toolName ∉ p.deny) →
        (∀ p ∈ pl.applicable channel session, toolName ∉ p.requireApproval) →
        (∀ before p after allow, pl.applicable channel session = before ++ p :: after →
          p.allow = some allow → (∀ q ∈ after, q.allow = none) →
          pl.check toolName channel session =
            if toolName ∈ allow then .allowed
            else .denied s!"Tool '{toolName}' is not in the allow list") ∧
        ((∀ p ∈ pl.applicable channel session, p.allow = none) →
          pl.check toolName channel session = .allowed)) := by
  refine ⟨?_, ?_, ?_⟩
  · intro p q r
    apply isAllowed_congr
    rw [rules_merge, rules_merge, rules_merge, rules_merge, mul_assoc]
  · intro p toolName
    constructor
    · apply isAllowed_congr
      rw [rules_merge, rules_default, one_mul]
    · apply isAllowed_congr
      rw [rules_merge, rules_default, mul_one]
  · intro pl toolName channel session
    refine ⟨fun h => ⟨_, check_denied h⟩, check_ne_allowed, ?_⟩
    intro hdeny happroval
    rw [check_eq_allow hdeny happroval]
    constructor
    · intro before p after allow hsplit hallow hafter
      rw [lastSpoken_eq_some.mpr ⟨before, p, after, hsplit, hallow, hafter⟩]
      by_cases hmem : toolName ∈ allow <;> simp [hmem]
    · intro hnone
      rw [lastSpoken_eq_none.mpr hnone]
      rfl

end Pipeline

end Oclaw.ToolsCore
