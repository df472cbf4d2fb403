import Mathlib.Data.List.Basic
import Mathlib.Data.List.Induction

/-!
# Tool policies in layers

`groups.rs`, `profiles.rs` and the layered pipeline of `policy.rs` in
`crates/tools-core/src`: a base policy and layers that apply in some contexts, allow a
tool, deny it or say nothing about it. The last layer that speaks decides.
-/

namespace Oclaw.ToolsCore

/-! ## §1  The last that speaks -/

section Overrides

variable {L D : Type} {f : L → Option D} {ls ls' : List L} {d : D}

/-- Walk a list and keep the last value that is there. -/
def lastSpoken (f : L → Option D) (ls : List L) : Option D :=
  ls.foldl (fun last l => (f l).or last) none

theorem lastSpoken_concat (l : L) :
    lastSpoken f (ls ++ [l]) = (f l).or (lastSpoken f ls) := by
  simp [lastSpoken]

theorem lastSpoken_append :
    lastSpoken f (ls ++ ls') = (lastSpoken f ls').or (lastSpoken f ls) := by
  induction ls' using List.reverseRecOn with
  | nil => simp [lastSpoken]
  | append_singleton ls' l ih =>
      rw [← List.append_assoc, lastSpoken_concat, lastSpoken_concat, ih, Option.or_assoc]

theorem lastSpoken_eq_none : lastSpoken f ls = none ↔ ∀ l ∈ ls, f l = none := by
  induction ls using List.reverseRecOn with
  | nil => simp [lastSpoken]
  | append_singleton ls l ih =>
      rw [lastSpoken_concat, Option.or_eq_none_iff, ih]
      simp [or_imp, forall_and, and_comm]

/-- Somebody spoke last. -/
theorem lastSpoken_eq_some : lastSpoken f ls = some d ↔
    ∃ before l after, ls = before ++ l :: after ∧ f l = some d ∧ ∀ l' ∈ after, f l' = none := by
  constructor
  · induction ls using List.reverseRecOn with
    | nil => simp [lastSpoken]
    | append_singleton ls l ih =>
        intro h
        rw [lastSpoken_concat] at h
        cases hl : f l with
        | some d' =>
            rw [hl, Option.some_or] at h
            exact ⟨ls, l, [], rfl, hl.trans h, by simp⟩
        | none =>
            rw [hl, Option.none_or] at h
            obtain ⟨before, l', after, rfl, hl', hafter⟩ := ih h
            refine ⟨before, l', after ++ [l], by simp, hl', ?_⟩
            intro x hx
            rcases List.mem_append.mp hx with hx | hx
            · exact hafter x hx
            · rw [List.mem_singleton.mp hx, hl]
  · rintro ⟨before, l, after, rfl, hl, hafter⟩
    have hsilent : lastSpoken f after = none := lastSpoken_eq_none.mpr hafter
    rw [← List.singleton_append, lastSpoken_append, lastSpoken_append, hsilent]
    simp [lastSpoken, hl]

/-- Those that never speak may be left out. -/
theorem lastSpoken_filter (q : L → Bool) (h : ∀ l, q l = false → f l = none) :
    lastSpoken f (ls.filter q) = lastSpoken f ls := by
  induction ls using List.reverseRecOn with
  | nil => rfl
  | append_singleton ls l ih =>
      rw [List.filter_append, lastSpoken_append, ih, lastSpoken_concat]
      cases hq : q l with
      | true => simp [hq, lastSpoken]
      | false => simp [hq, lastSpoken, h l hq]

end Overrides

/-! ## §2  Groups and profiles -/

def resolveToolGroup : String → List String
  | "group:memory" => ["memory_search", "memory_get"]
  | "group:web" => ["web_search", "web_fetch", "link_reader"]
  | "group:fs" => ["read_file", "write_file", "list_dir"]
  | "group:runtime" => ["bash"]
  | "group:sessions" => ["sessions_list", "sessions_history", "sessions_send", "sessions_spawn",
      "subagents", "session_status"]
  | "group:ui" => ["browse"]
  | "group:automation" => ["cron"]
  | "group:messaging" => ["message"]
  | "group:media" => ["media_describe", "tts"]
  | _ => []

def isGroupRef (name : String) : Bool := "group:".toList.isPrefixOf name.toList

/-- Enter a name unless it is there. -/
def pushNew (out : List String) (s : String) : List String := if s ∈ out then out else out ++ [s]

def expandToolList (items : List String) : List String :=
  items.foldl (fun out item =>
    if isGroupRef item then (resolveToolGroup item).foldl pushNew out else pushNew out item) []

theorem mem_pushNew {out : List String} {s t : String} : t ∈ pushNew out s ↔ t ∈ out ∨ t = s := by
  rw [pushNew]
  split
  · rename_i hmem
    constructor
    · exact Or.inl
    · rintro (ht | rfl)
      · exact ht
      · exact hmem
  · simp

theorem mem_foldl_pushNew {out names : List String} {t : String} :
    t ∈ names.foldl pushNew out ↔ t ∈ out ∨ t ∈ names := by
  induction names generalizing out with
  | nil => simp
  | cons n names ih => rw [List.foldl_cons, ih, mem_pushNew, List.mem_cons, or_assoc]

/-- A list stands for its tools and for the members of its groups. -/
theorem mem_expandToolList {items : List String} {t : String} :
    t ∈ expandToolList items ↔
      ∃ item ∈ items, t ∈ if isGroupRef item then resolveToolGroup item else [item] := by
  induction items using List.reverseRecOn with
  | nil => simp [expandToolList]
  | append_singleton items item ih =>
      rw [expandToolList, List.foldl_append, ← expandToolList]
      simp only [List.mem_append, List.mem_singleton, or_and_right, exists_or, exists_eq_left,
        List.foldl_cons, List.foldl_nil, ← ih]
      split
      · exact mem_foldl_pushNew
      · simp [mem_pushNew]

inductive ToolProfile : Type where
  | minimal
  | coding
  | messaging
  | full

def ToolProfile.debug : ToolProfile → String
  | .minimal => "Minimal"
  | .coding => "Coding"
  | .messaging => "Messaging"
  | .full => "Full"

def ToolProfile.allowedTools : ToolProfile → List String
  | .minimal => ["session_status"]
  | .coding => ["group:fs", "group:runtime", "group:sessions", "group:memory", "group:web",
      "media_describe"]
  | .messaging => ["group:messaging", "sessions_list", "sessions_history", "sessions_send",
      "session_status"]
  | .full => ["*"]

def ToolProfile.allowsTool (profile : ToolProfile) (toolName : String) : Bool :=
  profile.allowedTools.contains "*" || profile.allowedTools.contains toolName ||
    profile.allowedTools.any (fun entry =>
      isGroupRef entry && (resolveToolGroup entry).contains toolName)

/-! ## §3  The pipeline -/

structure ToolPolicy : Type where
  allow : Option (List String)
  deny : List String
  requireApproval : List String

inductive ToolPolicyDecision : Type where
  | allowed
  | denied (reason : String)
  | needsApproval
deriving DecidableEq

def ToolPolicy.isAllowed (p : ToolPolicy) (toolName : String) : ToolPolicyDecision :=
  if toolName ∈ p.deny then .denied s!"Tool '{toolName}' is denied by policy"
  else if p.allow.any (fun allow => toolName ∉ allow) then
    .denied s!"Tool '{toolName}' is not in the allow list"
  else if toolName ∈ p.requireApproval then .needsApproval
  else .allowed

structure PolicyContext : Type where
  channel : Option String
  session : Option String
  agentId : Option String
  provider : Option String

inductive PolicyLayer : Type where
  | profile (profile : ToolProfile)
  | providerProfile (provider : String) (profile : ToolProfile)
  | globalAllow (list : List String)
  | globalProviderAllow (provider : String) (list : List String)
  | agentAllow (agentId : String) (list : List String)
  | agentProviderAllow (agentId provider : String) (list : List String)
  | groupAllow (channel : String) (list : List String)

/-- An allow list never denies. -/
def allowListed (list : List String) (toolName : String) : Option ToolPolicyDecision :=
  if (expandToolList list).any (fun t => t = toolName || t = "*") then some .allowed else none

def evaluateLayer (layer : PolicyLayer) (toolName : String) (ctx : PolicyContext) :
    Option ToolPolicyDecision :=
  match layer with
  | .profile profile =>
      if profile.allowsTool toolName then some .allowed
      else some (.denied s!"Tool '{toolName}' not in profile {profile.debug}")
  | .providerProfile provider profile =>
      if ctx.provider ≠ some provider then none
      else if profile.allowsTool toolName then some .allowed
      else some (.denied s!"Tool '{toolName}' not in provider profile")
  | .globalAllow list => allowListed list toolName
  | .globalProviderAllow provider list =>
      if ctx.provider ≠ some provider then none else allowListed list toolName
  | .agentAllow agentId list =>
      if ctx.agentId ≠ some agentId then none else allowListed list toolName
  | .agentProviderAllow agentId provider list =>
      if ctx.agentId ≠ some agentId ∨ ctx.provider ≠ some provider then none
      else allowListed list toolName
  | .groupAllow channel list =>
      if ctx.channel ≠ some channel then none else allowListed list toolName

structure LayeredPolicyPipeline : Type where
  layers : List PolicyLayer
  fallback : ToolPolicy

def LayeredPolicyPipeline.evaluate (p : LayeredPolicyPipeline) (toolName : String)
    (ctx : PolicyContext) : ToolPolicyDecision :=
  if toolName ∈ p.fallback.deny then .denied s!"Tool '{toolName}' is denied by policy"
  else
    (lastSpoken (fun layer => evaluateLayer layer toolName ctx) p.layers).getD
      (p.fallback.isAllowed toolName)

/-- The provider, agent or channel that a layer is for is the one of the context. -/
def PolicyLayer.matchesContext (ctx : PolicyContext) : PolicyLayer → Bool
  | .profile _ | .globalAllow _ => true
  | .providerProfile provider _ | .globalProviderAllow provider _ => ctx.provider = some provider
  | .agentAllow agentId _ => ctx.agentId = some agentId
  | .agentProviderAllow agentId provider _ =>
      ctx.agentId = some agentId && ctx.provider = some provider
  | .groupAllow channel _ => ctx.channel = some channel

variable {p : LayeredPolicyPipeline} {layer : PolicyLayer} {toolName : String}
variable {ctx : PolicyContext}

theorem evaluateLayer_of_not_matches (h : layer.matchesContext ctx = false) :
    evaluateLayer layer toolName ctx = none := by
  cases layer with
  | profile _ | globalAllow _ => cases h
  | providerProfile _ _ | globalProviderAllow _ _ | agentAllow _ _ | groupAllow _ _ =>
      exact if_pos (by simpa [PolicyLayer.matchesContext] using h)
  | agentProviderAllow _ _ _ =>
      refine if_pos ?_
      simpa [PolicyLayer.matchesContext, or_iff_not_imp_left] using h

/-- Only the layers for the context count. -/
theorem evaluate_congr {layers : List PolicyLayer}
    (h : layers.filter (PolicyLayer.matchesContext ctx) =
      p.layers.filter (PolicyLayer.matchesContext ctx)) :
    LayeredPolicyPipeline.evaluate ⟨layers, p.fallback⟩ toolName ctx = p.evaluate toolName ctx := by
  have hsilent (l : PolicyLayer) (hl : l.matchesContext ctx = false) :
      evaluateLayer l toolName ctx = none := evaluateLayer_of_not_matches hl
  rw [LayeredPolicyPipeline.evaluate, LayeredPolicyPipeline.evaluate,
    ← lastSpoken_filter (PolicyLayer.matchesContext ctx) hsilent, h,
    lastSpoken_filter (PolicyLayer.matchesContext ctx) hsilent]

/-- The base policy does not allow a tool that needs an approval. -/
theorem isAllowed_ne_allowed {q : ToolPolicy} (h : toolName ∈ q.requireApproval) :
    q.isAllowed toolName ≠ .allowed := by
  fun_cases ToolPolicy.isAllowed q toolName
  case case4 _ _ happroval => exact absurd h happroval
  all_goals rintro ⟨⟩

/-- Layers allow such a tool, by the last one that speaks about it. -/
theorem evaluate_eq_allowed (h : toolName ∈ p.fallback.requireApproval) :
    p.evaluate toolName ctx = .allowed ↔ toolName ∉ p.fallback.deny ∧
      lastSpoken (fun layer => evaluateLayer layer toolName ctx) p.layers = some .allowed := by
  rw [LayeredPolicyPipeline.evaluate]
  split
  · simp [*]
  · rename_i hdeny
    cases hlast : lastSpoken (fun layer => evaluateLayer layer toolName ctx) p.layers with
    | none => simpa using isAllowed_ne_allowed h
    | some d => simp [hdeny]

/-- What layers can change: nothing about a denied tool, and nothing when they are not
for the context; a tool that needs an approval is allowed by a layer only. -/
theorem layers_decide (p : LayeredPolicyPipeline) (toolName : String) (ctx : PolicyContext) :
    (toolName ∈ p.fallback.deny → ∃ reason, p.evaluate toolName ctx = .denied reason) ∧
    (toolName ∈ p.fallback.requireApproval → (p.evaluate toolName ctx = .allowed ↔
      toolName ∉ p.fallback.deny ∧ ∃ before layer after, p.layers = before ++ layer :: after ∧
        evaluateLayer layer toolName ctx = some .allowed ∧
        ∀ later ∈ after, evaluateLayer later toolName ctx = none)) ∧
    ∀ layers, layers.filter (PolicyLayer.matchesContext ctx) =
        p.layers.filter (PolicyLayer.matchesContext ctx) →
      LayeredPolicyPipeline.evaluate ⟨layers, p.fallback⟩ toolName ctx =
        p.evaluate toolName ctx := by
  refine ⟨fun hdeny => ⟨_, if_pos hdeny⟩, fun happroval => ?_, fun layers => evaluate_congr⟩
  rw [evaluate_eq_allowed happroval, lastSpoken_eq_some]

/-- The coding profile allows `bash` without the approval that the base policy asks for. -/
theorem profile_allows_without_approval :
    ∃ p toolName ctx, toolName ∈ p.fallback.requireApproval ∧
      LayeredPolicyPipeline.evaluate p toolName ctx = .allowed :=
  ⟨⟨[.profile .coding], ⟨none, [], ["bash"]⟩⟩, "bash", ⟨none, none, none, none⟩, by decide,
    by decide⟩

end Oclaw.ToolsCore
