import Oclaw.Gateway.SpawnDepth

/-!
# Access along spawns

The session tools read the sessions and then, one after the other, the metadata of each,
while other calls go on. Even so, what `tree` grants is read off the spawns: the requester
itself, and the sessions that are reached from it over sessions whose parent was entered by
a spawn and has not been lost with its session since.
-/

namespace Oclaw.Gateway.Sessions

open Oclaw.Lib Oclaw.Gateway.Announce

/-- The spawn that entered the parent of a session, and what it entered. -/
def SpawnWorld.parentEntry (w : SpawnWorld) (key : String) : Option (ℕ × String) :=
  (w.record key "spawnedBy").or (w.record key "parentSessionKey")

/-- A session and the one it was spawned from. -/
structure SpawnWorld.SpawnedFrom (w : SpawnWorld) (key parent : String) : Prop where
  entered : ∃ i t v, w.parentEntry key = some (i, v) ∧ w.tasks[i]? = some t ∧
    t.job.sessionKey = key ∧ t.job.parentSession = some v ∧ trim v = parent
  named : parent ≠ ""

/-- What a search sees that reads the metadata of each session in a world of its own. -/
inductive SpawnTreeOf (listed : List String) (worldAt : String → SpawnWorld)
    (requesterKey : String) : String → Prop where
  | requester : SpawnTreeOf listed worldAt requesterKey requesterKey
  | spawned {parent key : String} : SpawnTreeOf listed worldAt requesterKey parent →
      key ∈ listed → (worldAt key).SpawnedFrom key parent →
      SpawnTreeOf listed worldAt requesterKey key

section Access

variable {w : SpawnWorld} {key parent requesterKey : String} {listed : List String}
  {worldAt : String → SpawnWorld}

theorem SpawnInv.entered (h : SpawnInv w) {i : ℕ} {value : String}
    (hentry : w.parentEntry key = some (i, value)) :
    ∃ t, w.tasks[i]? = some t ∧ t.job.sessionKey = key ∧ t.job.parentSession = some value := by
  have hfield : w.record key "spawnedBy" = some (i, value) ∨
      w.record key "parentSessionKey" = some (i, value) := by
    rcases Option.or_eq_some_iff.mp hentry with hrecord | ⟨-, hrecord⟩
    · exact Or.inl hrecord
    · exact Or.inr hrecord
  rcases hfield with hrecord | hrecord
  · obtain ⟨t, d, ht, hkey, -, hmem⟩ := h.written _ _ _ _ (wrote_of_foldl_note hrecord)
    exact ⟨t, ht, hkey, (spawn_fields _ hmem).1 (Or.inl rfl)⟩
  · obtain ⟨t, d, ht, hkey, -, hmem⟩ := h.written _ _ _ _ (wrote_of_foldl_note hrecord)
    exact ⟨t, ht, hkey, (spawn_fields _ hmem).1 (Or.inr rfl)⟩

/-- The parent that the metadata names is the one that a spawn entered. -/
theorem SpawnInv.parentOf_eq (h : SpawnInv w) :
    parentOf (w.db.getSessionMetadata key) = some parent ↔ w.SpawnedFrom key parent := by
  have hlookup : ((w.db.getSessionMetadata key).lookup "spawnedBy").or
      ((w.db.getSessionMetadata key).lookup "parentSessionKey") =
      (w.parentEntry key).map Prod.snd := by
    rw [h.recorded key "spawnedBy" (by decide), h.recorded key "parentSessionKey" (by decide)]
    unfold SpawnWorld.parentEntry
    cases w.record key "spawnedBy" <;> rfl
  unfold parentOf
  rw [hlookup, Option.filter_eq_some_iff]
  simp only [Option.map_map, Option.map_eq_some_iff, Function.comp_apply, decide_eq_true_eq]
  constructor
  · rintro ⟨⟨⟨i, value⟩, hentry, hvalue⟩, hnamed⟩
    obtain ⟨t, ht, hkey, hparent⟩ := h.entered hentry
    exact ⟨⟨i, t, value, hentry, ht, hkey, hparent, hvalue⟩, hnamed⟩
  · rintro ⟨⟨i, t, value, hentry, -, -, -, hvalue⟩, hnamed⟩
    exact ⟨⟨(i, value), hentry, hvalue⟩, hnamed⟩

theorem descends_iff_spawnTreeOf (h : ∀ key, SpawnInv (worldAt key)) :
    Descends listed (fun k => (worldAt k).db.getSessionMetadata k) requesterKey key ↔
      SpawnTreeOf listed worldAt requesterKey key := by
  constructor
  · intro hdescends
    induction hdescends with
    | requester => exact .requester
    | child _ hlisted hparent ih => exact .spawned ih hlisted ((h _).parentOf_eq.mp hparent)
  · intro htree
    induction htree with
    | requester => exact .requester
    | spawned _ hlisted hspawned ih => exact .child ih hlisted ((h _).parentOf_eq.mpr hspawned)

theorem SpawnTreeOf.congr {listed' : List String} (h : ∀ k, k ∈ listed ↔ k ∈ listed') :
    SpawnTreeOf listed worldAt requesterKey key ↔ SpawnTreeOf listed' worldAt requesterKey key := by
  constructor
  · intro htree
    induction htree with
    | requester => exact .requester
    | spawned _ hlisted hspawned ih => exact .spawned ih ((h _).mp hlisted) hspawned
  · intro htree
    induction htree with
    | requester => exact .requester
    | spawned _ hlisted hspawned ih => exact .spawned ih ((h _).mpr hlisted) hspawned

end Access

/-- **What the session tools let through.** In every run, with other calls between the
reads of the check: a session of the requester's agent is granted if the visibility is
`agent` or `all`, if it is the requester itself, or, for `tree`, if it hangs under the
requester over spawns whose entries stand; a session of another agent only if the visibility
is `all`, agent-to-agent access is enabled and the patterns admit both agents. -/
theorem access_iff_spawned {tr : List SpawnAct} {w : SpawnWorld} (run : Runs SpawnStep .init tr w)
    {worldAt : String → SpawnWorld} (hlater : ∀ key, ∃ tr', Runs SpawnStep w tr' (worldAt key))
    {listed : List String} (hlisted : listed.Perm w.db.keys) (sessionId : Option String)
    (tools : Option Json) (targetKey : String) (action : SessionAccessAction) :
    let requesterKey := sessionId.getD "agent:default:main"
    let visibility := resolveSessionVisibility tools
    let policy := resolveAgentToAgentPolicy tools
    let agent := resolveAgentIdFromSessionKey requesterKey
    let targetAgent := resolveAgentIdFromSessionKey targetKey
    checkSessionAccess (buildSessionAccessContext sessionId tools listed
        (fun key => (worldAt key).db.getSessionMetadata key)) targetKey action = .ok () ↔
      (agent = targetAgent ∧
        (targetKey = requesterKey ∨ visibility = .agent ∨ visibility = .all ∨
          visibility = .tree ∧ SpawnTreeOf w.db.keys worldAt requesterKey targetKey)) ∨
      (agent ≠ targetAgent ∧ visibility = .all ∧ policy.enabled = true ∧
        (policy.allowPatterns = [] ∨
          (∃ p ∈ policy.allowPatterns, allowPatternMatches p agent = true) ∧
            ∃ p ∈ policy.allowPatterns, allowPatternMatches p targetAgent = true)) := by
  intro requesterKey visibility policy agent targetAgent
  have hinv (key : String) : SpawnInv (worldAt key) := by
    obtain ⟨tr', run'⟩ := hlater key
    exact spawnInv_of_run (run.append run')
  by_cases hagent : agent = targetAgent
  · rw [checkSessionAccess_same hagent.symm]
    have htree : Descends listed (fun k => (worldAt k).db.getSessionMetadata k) requesterKey
        targetKey ↔ SpawnTreeOf w.db.keys worldAt requesterKey targetKey := by
      rw [descends_iff_spawnTreeOf hinv]
      exact SpawnTreeOf.congr fun _ => hlisted.mem_iff
    have hself : targetKey = requesterKey → SpawnTreeOf w.db.keys worldAt requesterKey targetKey := by
      rintro rfl
      exact .requester
    show Within visibility listed _ requesterKey targetKey ↔ _
    cases visibility <;> simp only [Within, htree, hagent, true_and, ne_eq, not_true, false_and,
      or_false, reduceCtorEq, false_or, or_true, or_iff_right_of_imp hself]
  · rw [checkSessionAccess_cross (Ne.symm hagent)]
    show visibility = .all ∧ policy.enabled = true ∧ isA2aAllowed policy agent targetAgent = true ↔ _
    simp only [hagent, false_and, false_or, ne_eq, not_false_eq_true, true_and]
    refine and_congr_right fun _ => and_congr_right fun henabled => ?_
    unfold isA2aAllowed
    rw [if_neg hagent, henabled]
    cases hpatterns : policy.allowPatterns with
    | nil => simp
    | cons p ps => simp

/-- The session of the first spawn is shown to the one that spawned it. -/
theorem access_iff_spawned_sample :
    let w := (SpawnWorld.init.acts nestedSample).get nestedSample_run
    checkSessionAccess (buildSessionAccessContext (some "agent:a:main") none w.db.keys
      (fun key => w.db.getSessionMetadata key)) "agent:a:subagent:1" .history = .ok () := by
  intro w
  have hrun : Runs SpawnStep .init nestedSample w := runs_of_acts (Option.some_get _).symm
  have hentry : w.parentEntry "agent:a:subagent:1" = some (0, "agent:a:main") := by decide
  have hlisted : "agent:a:subagent:1" ∈ w.db.keys := by decide
  have hspawned : w.SpawnedFrom "agent:a:subagent:1" "agent:a:main" := by
    obtain ⟨t, ht, hkey, hparent⟩ := (spawnInv_of_run hrun).entered hentry
    exact ⟨⟨0, t, _, hentry, ht, hkey, hparent, by decide⟩, by decide⟩
  refine (access_iff_spawned hrun (fun _ => ⟨[], .nil⟩) (List.Perm.refl _) (some "agent:a:main")
    none "agent:a:subagent:1" .history).mpr (Or.inl ⟨by decide, ?_⟩)
  exact Or.inr (Or.inr (Or.inr ⟨by decide, .spawned .requester hlisted hspawned⟩))

end Oclaw.Gateway.Sessions
