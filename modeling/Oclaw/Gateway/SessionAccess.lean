import Oclaw.Gateway.SessionStore
import Oclaw.Gateway.TelegramWebhook
import Oclaw.Lib.Closure
import Oclaw.Lib.HashMap

/-!
# Which sessions a session may reach

The session tools of `crates/gateway-core/src/http/agent_bridge.rs` ask
`check_session_access` before they list, read or write another session. What it grants is
set by `tools.sessions.visibility` and `tools.agentToAgent`; for `tree` it searches the
metadata of all sessions for those that were spawned from the requester, directly or not.
-/

namespace Oclaw.Lib.Json

/-- `Value::as_bool` -/
def asBool : Json → Option Bool
  | bool b => some b
  | _ => none

/-- `Value::as_array` -/
def asArray : Json → Option (List Json)
  | arr xs => some xs
  | _ => none

end Oclaw.Lib.Json

namespace Oclaw.Gateway.Sessions

open Oclaw.Lib

/-! ## §1  The settings -/

inductive SessionVisibility : Type where
  | selfOnly
  | tree
  | agent
  | all
deriving DecidableEq

inductive SessionAccessAction : Type where
  | list
  | history
  | send
  | status

structure AgentToAgentPolicy : Type where
  enabled : Bool
  allowPatterns : List String

/-- `tools` is the section of the configuration with this name, if there is one. -/
def resolveSessionVisibility (tools : Option Json) : SessionVisibility :=
  let raw := ((tools.bind (Json.pointer ["sessions", "visibility"])).bind Json.asStr).map
    (fun s => toAsciiLowercase (trim s))
  match raw.getD "tree" with
  | "self" => .selfOnly
  | "tree" => .tree
  | "agent" => .agent
  | "all" => .all
  | _ => .tree

def resolveAgentToAgentPolicy (tools : Option Json) : AgentToAgentPolicy where
  enabled := ((tools.bind (Json.pointer ["agentToAgent", "enabled"])).bind Json.asBool).getD false
  allowPatterns :=
    (((tools.bind (Json.pointer ["agentToAgent", "allow"])).bind Json.asArray).map (fun arr =>
      (arr.filterMap (fun entry => entry.asStr.map trim)).filter (fun entry => entry ≠ ""))).getD []

/-! ## §2  Agents -/

def sanitizeSessionToken (input : String) : String :=
  let out := input.toList.map (fun ch =>
    if ch.isAlphanum || ch == '-' || ch == '_' then ch.toLower else '_')
  if out.isEmpty then "default" else String.ofList out

def resolveAgentIdFromSessionKey (key : String) : String :=
  let trimmed := trim key
  if trimmed = "" then "default"
  else
    match splitOnChar ':' trimmed with
    | "agent" :: agent :: _ =>
        if trim agent = "" then "default" else sanitizeSessionToken (trim agent)
    | _ => "default"

/-- A character of a pattern at a character of an ASCII text, for `(?i)`: the Kelvin sign
and the long s fold to letters of ASCII. -/
def foldsTo (p c : Char) : Bool :=
  p.toLower == c.toLower || (p.toNat == 0x212A && c.toLower == 'k') ||
    (p.toNat == 0x17F && c.toLower == 's')

/-- `.*`, before what `rest` reads. -/
def globStar (rest : List Char → Bool) : List Char → Bool
  | [] => rest []
  | c :: cs => rest (c :: cs) || (c != '\n' && globStar rest cs)

/-- `(?i)^…$`, with `.*` for every star. -/
def globChars : List Char → List Char → Bool
  | [], text => text.isEmpty
  | p :: ps, text =>
      if p = '*' then globStar (globChars ps) text
      else
        match text with
        | [] => false
        | c :: cs => foldsTo p c && globChars ps cs

def allowPatternMatches (pattern agentId : String) : Bool :=
  let pat := trim pattern
  if pat = "" then false
  else if pat = "*" then true
  else if !pat.toList.contains '*' then toAsciiLowercase pat = toAsciiLowercase agentId
  else globChars pat.toList agentId.toList

def isA2aAllowed (policy : AgentToAgentPolicy) (requesterAgent targetAgent : String) : Bool :=
  if requesterAgent = targetAgent then true
  else if !policy.enabled then false
  else if policy.allowPatterns.isEmpty then true
  else
    policy.allowPatterns.any (fun p => allowPatternMatches p requesterAgent) &&
      policy.allowPatterns.any (fun p => allowPatternMatches p targetAgent)

/-! ## §3  Refusals -/

def sessionActionLabel : SessionAccessAction → String
  | .history => "Session history"
  | .send => "Session send"
  | .list => "Session list"
  | .status => "Session status"

def crossVisibilityError : SessionAccessAction → String
  | .history => "Session history visibility is restricted. Set tools.sessions.visibility=all to " ++
      "allow cross-agent access."
  | .send => "Session send visibility is restricted. Set tools.sessions.visibility=all to " ++
      "allow cross-agent access."
  | .list => "Session list visibility is restricted. Set tools.sessions.visibility=all to " ++
      "allow cross-agent access."
  | .status => "Session status visibility is restricted. Set tools.sessions.visibility=all to " ++
      "allow cross-agent access."

def a2aDisabledError : SessionAccessAction → String
  | .history => "Agent-to-agent history is disabled. Set tools.agentToAgent.enabled=true to " ++
      "allow cross-agent access."
  | .send => "Agent-to-agent messaging is disabled. Set tools.agentToAgent.enabled=true to " ++
      "allow cross-agent sends."
  | .list => "Agent-to-agent listing is disabled. Set tools.agentToAgent.enabled=true to " ++
      "allow cross-agent visibility."
  | .status => "Agent-to-agent status is disabled. Set tools.agentToAgent.enabled=true to " ++
      "allow cross-agent access."

def a2aDeniedError : SessionAccessAction → String
  | .history => "Agent-to-agent history denied by tools.agentToAgent.allow."
  | .send => "Agent-to-agent messaging denied by tools.agentToAgent.allow."
  | .list => "Agent-to-agent listing denied by tools.agentToAgent.allow."
  | .status => "Agent-to-agent session status denied by tools.agentToAgent.allow."

def selfVisibilityError (action : SessionAccessAction) : String :=
  sessionActionLabel action ++
    " visibility is restricted to the current session (tools.sessions.visibility=self)."

def treeVisibilityError (action : SessionAccessAction) : String :=
  sessionActionLabel action ++
    " visibility is restricted to the current session tree (tools.sessions.visibility=tree)."

/-! ## §4  The session tree -/

abbrev Metadata : Type := HashMap String String

/-- The session that a session says it was spawned from. -/
def parentOf (metadata : Metadata) : Option String :=
  (((metadata.lookup "spawnedBy").or (metadata.lookup "parentSessionKey")).map trim).filter
    (fun v => v ≠ "")

/-- The children of each session in the order of the listing. `metadataOf` tells what was
read for each of the sessions listed. -/
def byParent (listed : List String) (metadataOf : String → Metadata) :
    HashMap String (List String) :=
  listed.foldl (fun m key =>
    match parentOf (metadataOf key) with
    | some parent => m.insert parent ((m.lookup parent).getD [] ++ [key])
    | none => m) ∅

def treeGraph (children : HashMap String (List String)) : RowGraph String String String where
  rows v := [v]
  id v := v
  targets v := (children.lookup v).getD []

/-- `collect_tree_visible_keys`, from the keys of the sessions in the order of the listing. -/
def collectTreeVisibleKeys (listed : List String) (metadataOf : String → Metadata)
    (requesterKey : String) : List String :=
  (treeGraph (byParent listed metadataOf)).search (requesterKey :: listed) [requesterKey]

/-! ## §5  The check -/

structure SessionAccessContext : Type where
  requesterKey : String
  requesterAgentId : String
  visibility : SessionVisibility
  a2a : AgentToAgentPolicy
  treeVisibleKeys : Option (List String)

/-- `build_session_access_context`, with what it reads of the store and of the
configuration. -/
def buildSessionAccessContext (sessionId : Option String) (tools : Option Json)
    (listed : List String) (metadataOf : String → Metadata) : SessionAccessContext :=
  let requesterKey := sessionId.getD "agent:default:main"
  let visibility := resolveSessionVisibility tools
  { requesterKey := requesterKey
    requesterAgentId := resolveAgentIdFromSessionKey requesterKey
    visibility := visibility
    a2a := resolveAgentToAgentPolicy tools
    treeVisibleKeys :=
      if visibility = .tree then some (collectTreeVisibleKeys listed metadataOf requesterKey)
      else none }

def checkSessionAccess (ctx : SessionAccessContext) (targetKey : String)
    (action : SessionAccessAction) : Except String Unit :=
  let targetAgent := resolveAgentIdFromSessionKey targetKey
  if targetAgent ≠ ctx.requesterAgentId then
    if ctx.visibility ≠ .all then .error (crossVisibilityError action)
    else if !ctx.a2a.enabled then .error (a2aDisabledError action)
    else if !isA2aAllowed ctx.a2a ctx.requesterAgentId targetAgent then
      .error (a2aDeniedError action)
    else .ok ()
  else
    match ctx.visibility with
    | .selfOnly =>
        if targetKey ≠ ctx.requesterKey then .error (selfVisibilityError action) else .ok ()
    | .tree =>
        if targetKey ≠ ctx.requesterKey then
          if ((ctx.treeVisibleKeys.map (fun keys => keys.contains targetKey)).getD false) then
            .ok ()
          else .error (treeVisibilityError action)
        else .ok ()
    | .agent | .all => .ok ()

/-! ## §6  What the search finds -/

section Tree

variable {listed : List String} {metadataOf : String → Metadata} {requesterKey key parent : String}

/-- A session is reached from another over listed sessions, each naming the one before. -/
inductive Descends (listed : List String) (metadataOf : String → Metadata)
    (requesterKey : String) : String → Prop where
  | requester : Descends listed metadataOf requesterKey requesterKey
  | child {parent key : String} : Descends listed metadataOf requesterKey parent →
      key ∈ listed → parentOf (metadataOf key) = some parent →
      Descends listed metadataOf requesterKey key

theorem lookup_byParent : (byParent listed metadataOf).lookup parent =
    if listed.any (fun key => parentOf (metadataOf key) = some parent) then
      some (listed.filter (fun key => parentOf (metadataOf key) = some parent))
    else none := by
  induction listed using List.reverseRecOn with
  | nil => rfl
  | append_singleton listed key ih =>
      have hstep : byParent (listed ++ [key]) metadataOf =
          match parentOf (metadataOf key) with
          | some parent => (byParent listed metadataOf).insert parent
              (((byParent listed metadataOf).lookup parent).getD [] ++ [key])
          | none => byParent listed metadataOf := by
        rw [byParent, List.foldl_append]
        rfl
      rw [hstep, List.filter_append, List.any_append]
      cases hparent : parentOf (metadataOf key) with
      | none => simp [hparent, ih]
      | some p =>
          simp only [HashMap.lookup_insert_eq]
          by_cases hp : parent = p
          · subst hp
            rw [if_pos rfl, ih]
            by_cases hany : listed.any (fun key => parentOf (metadataOf key) = some parent) = true
            · simp [hany, hparent]
            · have hnil : listed.filter (fun key => parentOf (metadataOf key) = some parent) = [] := by
                simpa [List.filter_eq_nil_iff] using hany
              simp [hany, hnil, hparent]
          · have hp' : ¬ p = parent := fun h => hp h.symm
            rw [if_neg hp, ih]
            simp [hparent, hp']

theorem mem_treeGraph_targets :
    key ∈ (treeGraph (byParent listed metadataOf)).targets parent ↔
      key ∈ listed ∧ parentOf (metadataOf key) = some parent := by
  show key ∈ ((byParent listed metadataOf).lookup parent).getD [] ↔ _
  rw [lookup_byParent]
  split
  · simp
  · rename_i hany
    simp only [List.any_eq_true, decide_eq_true_eq, not_exists, not_and] at hany
    simp only [Option.getD_none, List.not_mem_nil, false_iff, not_and]
    exact hany key

theorem reach_iff_descends :
    (treeGraph (byParent listed metadataOf)).Reach [requesterKey] key ↔
      Descends listed metadataOf requesterKey key := by
  constructor
  · intro h
    induction h with
    | root hv hrow =>
        rw [List.mem_singleton.mp hrow, List.mem_singleton.mp hv]
        exact .requester
    | step _ hv hrow ih =>
        rw [List.mem_singleton.mp hrow]
        obtain ⟨hlisted, hparent⟩ := mem_treeGraph_targets.mp hv
        exact .child ih hlisted hparent
  · intro h
    induction h with
    | requester => exact .root (List.mem_singleton.mpr rfl) (List.mem_singleton.mpr rfl)
    | child _ hlisted hparent ih =>
        exact .step ih (mem_treeGraph_targets.mpr ⟨hlisted, hparent⟩) (List.mem_singleton.mpr rfl)

theorem mem_collectTreeVisibleKeys :
    key ∈ collectTreeVisibleKeys listed metadataOf requesterKey ↔
      Descends listed metadataOf requesterKey key := by
  rw [← reach_iff_descends]
  refine RowGraph.mem_search ?_ (fun _ _ _ _ hid => hid)
  intro v hv
  cases reach_iff_descends.mp hv with
  | requester => exact List.mem_cons_self
  | child _ hlisted _ => exact List.mem_cons_of_mem _ hlisted

end Tree

/-! ## §7  What is granted -/

section Granted

variable {sessionId : Option String} {tools : Option Json} {listed : List String}
  {metadataOf : String → Metadata} {targetKey : String} {action : SessionAccessAction}

/-- The keys that a visibility lets through among those of the requester's own agent. -/
def Within (visibility : SessionVisibility) (listed : List String) (metadataOf : String → Metadata)
    (requesterKey targetKey : String) : Prop :=
  match visibility with
  | .selfOnly => targetKey = requesterKey
  | .tree => Descends listed metadataOf requesterKey targetKey
  | .agent | .all => True

theorem checkSessionAccess_same (h : resolveAgentIdFromSessionKey targetKey =
      resolveAgentIdFromSessionKey (sessionId.getD "agent:default:main")) :
    checkSessionAccess (buildSessionAccessContext sessionId tools listed metadataOf) targetKey
        action = .ok () ↔
      Within (resolveSessionVisibility tools) listed metadataOf
        (sessionId.getD "agent:default:main") targetKey := by
  unfold checkSessionAccess buildSessionAccessContext Within
  simp only [h, ne_eq, not_true_eq_false, if_false]
  cases hvisibility : resolveSessionVisibility tools with
  | selfOnly => simp
  | agent => simp
  | all => simp
  | tree =>
      by_cases hself : targetKey = sessionId.getD "agent:default:main"
      · rw [hself]
        simpa using Descends.requester
      · rw [← mem_collectTreeVisibleKeys]
        by_cases hfound : targetKey ∈ collectTreeVisibleKeys listed metadataOf
            (sessionId.getD "agent:default:main") <;> simp [hself, hfound]

theorem checkSessionAccess_cross (h : resolveAgentIdFromSessionKey targetKey ≠
      resolveAgentIdFromSessionKey (sessionId.getD "agent:default:main")) :
    checkSessionAccess (buildSessionAccessContext sessionId tools listed metadataOf) targetKey
        action = .ok () ↔
      resolveSessionVisibility tools = .all ∧ (resolveAgentToAgentPolicy tools).enabled = true ∧
        isA2aAllowed (resolveAgentToAgentPolicy tools)
          (resolveAgentIdFromSessionKey (sessionId.getD "agent:default:main"))
          (resolveAgentIdFromSessionKey targetKey) = true := by
  unfold checkSessionAccess buildSessionAccessContext
  simp only [ne_eq, h, not_false_eq_true, if_true]
  split
  · simp [*]
  · rename_i hall
    have hall : resolveSessionVisibility tools = .all := by simpa using hall
    split
    · simp_all
    · split <;> simp_all

end Granted

end Oclaw.Gateway.Sessions
