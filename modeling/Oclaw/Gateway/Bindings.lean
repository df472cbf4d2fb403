import Mathlib.Data.List.Perm.Basic
import Oclaw.Gateway.Turn
import Oclaw.Lib.FirstMin

/-!
# Which agent a message is for

`resolve_agent_for_message` of `crates/gateway-core/src/pipeline.rs` makes one pass over the
bindings and keeps the best of those that match so far. It ends with the first of the least
among all that match.
-/

namespace Oclaw.Gateway

open Oclaw.Lib (argmin_congr argmin_eq_some_iff_split)

/-! ## §1  The best binding -/

/-- The loop of `resolve_agent_for_message`, with the best match so far. -/
def bestBinding (ctx : MessageContext) (bindings : List AgentBinding) :
    Option (ℕ × AgentBinding) :=
  bindings.foldl (fun best binding =>
    if binding.isMatch ctx then
      let priority := binding.priority
      if (best.map (fun b => decide (priority < b.1))).getD true then some (priority, binding)
      else best
    else best) none

/-- The bindings that match, in the order of the list. -/
def matching (ctx : MessageContext) (bindings : List AgentBinding) : List AgentBinding :=
  bindings.filter (AgentBinding.isMatch ctx)

/-- The loop gives the first of the least, with its priority. -/
theorem bestBinding_eq (ctx : MessageContext) (bindings : List AgentBinding) :
    bestBinding ctx bindings = ((matching ctx bindings).argmin AgentBinding.priority).map
      (fun b => (b.priority, b)) := by
  induction bindings using List.reverseRecOn with
  | nil => rfl
  | append_singleton bindings b ih =>
      have hstep : bestBinding ctx (bindings ++ [b]) =
          if b.isMatch ctx then
            if ((bestBinding ctx bindings).map (fun best =>
                decide (b.priority < best.1))).getD true then some (b.priority, b)
            else bestBinding ctx bindings
          else bestBinding ctx bindings := by
        simp [bestBinding]
      have hsplit : matching ctx (bindings ++ [b]) =
          matching ctx bindings ++ matching ctx [b] := List.filter_append ..
      rw [hstep, ih, hsplit]
      by_cases hb : b.isMatch ctx = true
      · have hnew : matching ctx [b] = [b] := List.filter_cons_of_pos hb
        rw [if_pos hb, hnew, List.argmin_concat]
        cases (matching ctx bindings).argmin AgentBinding.priority with
        | none => rfl
        | some c => by_cases hlt : b.priority < c.priority <;> simp [hlt]
      · have hnew : matching ctx [b] = [] := List.filter_cons_of_neg hb
        rw [if_neg hb, hnew, List.append_nil]

theorem resolve_eq (bindings : List AgentBinding) (ctx : MessageContext) :
    resolveAgentForMessage bindings ctx =
      ((matching ctx bindings).argmin AgentBinding.priority).map AgentBinding.agentId := by
  have hloop : resolveAgentForMessage bindings ctx =
      (bestBinding ctx bindings).map (fun b => b.2.agentId) := rfl
  rw [hloop, bestBinding_eq, Option.map_map]
  rfl

theorem resolve_congr {bindings bindings' : List AgentBinding} {ctx : MessageContext}
    (h : matching ctx bindings' = matching ctx bindings) :
    resolveAgentForMessage bindings' ctx = resolveAgentForMessage bindings ctx := by
  rw [resolve_eq, resolve_eq, h]

/-- A permutation that keeps the relative order of bindings with equal priority. -/
structure StablePerm (bindings bindings' : List AgentBinding) : Prop where
  perm : bindings.Perm bindings'
  keepsOrder : ∀ p, bindings.filter (fun b => b.priority = p) =
    bindings'.filter (fun b => b.priority = p)

theorem resolve_stablePerm {bindings bindings' : List AgentBinding} (ctx : MessageContext)
    (h : StablePerm bindings bindings') :
    resolveAgentForMessage bindings' ctx = resolveAgentForMessage bindings ctx := by
  rw [resolve_eq, resolve_eq]
  congr 1
  apply argmin_congr
  intro p
  rw [matching, matching, List.filter_filter, List.filter_filter]
  simp only [Bool.and_comm (decide _)]
  rw [← List.filter_filter, ← List.filter_filter, h.keepsOrder]

/-- The agent of a binding is chosen: no match before it has its priority or a lower one,
and no match after it has a lower one. -/
def Chosen (ctx : MessageContext) (bindings : List AgentBinding) (agentId : String) : Prop :=
  ∃ before b after, bindings = before ++ b :: after ∧ b.isMatch ctx = true ∧
    b.agentId = agentId ∧
    (∀ c ∈ before, c.isMatch ctx = true → b.priority < c.priority) ∧
    ∀ c ∈ after, c.isMatch ctx = true → b.priority ≤ c.priority

theorem chosen_iff (ctx : MessageContext) (bindings : List AgentBinding) (agentId : String) :
    resolveAgentForMessage bindings ctx = some agentId ↔ Chosen ctx bindings agentId := by
  rw [resolve_eq, Option.map_eq_some_iff]
  constructor
  · rintro ⟨b, hb, rfl⟩
    obtain ⟨before, after, hsplit, hbefore, hafter⟩ := argmin_eq_some_iff_split.mp hb
    obtain ⟨before', rest, rfl, hbefore', hrest⟩ := List.filter_eq_append_iff.mp hsplit
    obtain ⟨skipped, after', rfl, hskipped, hmatch, rfl⟩ := List.filter_eq_cons_iff.mp hrest
    refine ⟨before' ++ skipped, b, after', by simp, hmatch, rfl, ?_, ?_⟩
    · intro c hc happ
      rcases List.mem_append.mp hc with hc | hc
      · apply hbefore
        rw [← hbefore']
        exact List.mem_filter.mpr ⟨hc, happ⟩
      · exact absurd happ (hskipped c hc)
    · intro c hc happ
      exact hafter c (List.mem_filter.mpr ⟨hc, happ⟩)
  · rintro ⟨before, b, after, rfl, hmatch, rfl, hbefore, hafter⟩
    refine ⟨b, ?_, rfl⟩
    rw [matching, List.filter_append, List.filter_cons_of_pos hmatch]
    apply argmin_eq_some_iff_split.mpr
    refine ⟨_, _, rfl, ?_, ?_⟩
    · intro c hc
      exact hbefore c (List.mem_of_mem_filter hc) (List.mem_filter.mp hc).2
    · intro c hc
      exact hafter c (List.mem_of_mem_filter hc) (List.mem_filter.mp hc).2

theorem resolve_eq_none (bindings : List AgentBinding) (ctx : MessageContext) :
    resolveAgentForMessage bindings ctx = none ↔ ∀ b ∈ bindings, b.isMatch ctx = false := by
  rw [resolve_eq, Option.map_eq_none_iff, List.argmin_eq_none, matching, List.filter_eq_nil_iff]
  simp

/-- **Resolution of bindings.** The agent is that of the first binding among the matching
ones of least priority; there is none if and only if nothing matches; and neither a
permutation within which equal priorities keep their order nor bindings that do not match
make a difference. -/
theorem resolve_agent_spec (bindings : List AgentBinding) (ctx : MessageContext) :
    (∀ agentId, resolveAgentForMessage bindings ctx = some agentId ↔
      Chosen ctx bindings agentId) ∧
    (resolveAgentForMessage bindings ctx = none ↔ ∀ b ∈ bindings, b.isMatch ctx = false) ∧
    (∀ bindings', StablePerm bindings bindings' →
      resolveAgentForMessage bindings' ctx = resolveAgentForMessage bindings ctx) ∧
    ∀ bindings', matching ctx bindings' = matching ctx bindings →
      resolveAgentForMessage bindings' ctx = resolveAgentForMessage bindings ctx :=
  ⟨chosen_iff ctx bindings, resolve_eq_none bindings ctx,
    fun _ => resolve_stablePerm ctx, fun _ => resolve_congr⟩

/-- A member of the guild without the role falls back to the binding of the guild. -/
example : resolveAgentForMessage
    [.guild "discord" "G1" "guild-agent", .guildRoles "discord" "G1" ["admin"] "admin-agent"]
    ⟨"discord", "u2", some "G1", none, none, []⟩ = some "guild-agent" := by
  decide

end Oclaw.Gateway
