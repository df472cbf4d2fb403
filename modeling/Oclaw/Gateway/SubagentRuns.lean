import Oclaw.Gateway.AnnounceDrain
import Oclaw.Lib.Closure

/-!
# The registry of subagent runs

A run is asked for by one session and has a session of its own, whose subagents are runs
in turn. So the runs under a session are found along these links, through runs that have
ended as well. Killing a run kills those under it that are still going.
-/

namespace Oclaw.Gateway.Subagents

open Oclaw.Lib Oclaw.Gateway.Announce

/-! ## §1  The registry -/

/-- `SubagentRunEntry`, as far as the registry reads it. -/
structure RunEntry : Type where
  runId : String
  requesterSessionKey : String
  childSessionKey : String
  label : String
  startedAtMs : ℤ
  endedAtMs : Option ℤ
  status : String
  error : Option String
  spawnMode : String
  cleanup : String
  expectsCompletionMessage : Bool
  suppressAnnounceReason : Option String
  announceRetryCount : ℕ
  lastAnnounceRetryAtMs : Option ℤ
  cleanupHandled : Bool
  cleanupCompletedAtMs : Option ℤ
  endedReason : Option String
  endedHookEmittedAtMs : Option ℤ
  archiveAtMs : Option ℤ
deriving DecidableEq

/-- `SUBAGENT_RUNS` -/
abbrev Registry : Type := HashMap String RunEntry

/-- `i64::saturating_add` -/
def satAddInt (a b : ℤ) : ℤ := max (-0x8000000000000000) (min 0x7FFFFFFFFFFFFFFF (a + b))

def archiveAfterMs : ℤ := 60 * 60000

def Registry.values (runs : Registry) : List RunEntry := runs.toPairs.map Prod.snd

/-- `patch_run` -/
def Registry.patchRun (runs : Registry) (runId : String) (f : RunEntry → RunEntry) : Registry :=
  match runs.lookup runId with
  | some entry => runs.insert runId (f entry)
  | none => runs

def RunEntry.archived (entry : RunEntry) (nowMs : ℤ) : Bool :=
  match entry.archiveAtMs with
  | some at' => decide (0 < at' ∧ at' ≤ nowMs)
  | none => false

/-- `sweep_archived_subagent_runs` -/
def Registry.sweepArchived (runs : Registry) (nowMs : ℤ) : Registry :=
  runs.retain (fun _ entry => !entry.archived nowMs || entry.endedAtMs.isNone)

/-- A run that was going when the process ended. -/
def RunEntry.interrupt (entry : RunEntry) (nowMs : ℤ) : RunEntry :=
  if entry.endedAtMs.isNone then
    { entry with
      endedAtMs := some nowMs
      status := "interrupted"
      error := some "gateway restarted before subagent run completed"
      endedReason := some "subagent-error"
      cleanupHandled := false
      cleanupCompletedAtMs := none
      archiveAtMs := some (entry.archiveAtMs.getD (satAddInt nowMs archiveAfterMs)) }
  else entry

/-- `ensure_subagent_registry_loaded` in a new process, from what the last one persisted. -/
def Registry.restore (runs : Registry) (nowMs : ℤ) : Registry :=
  HashMap.ofEntries (runs.toPairs.map (fun e => (e.1, e.2.interrupt nowMs)))

/-- The patch of `kill_run_entry`. -/
def RunEntry.kill (entry : RunEntry) (nowMs : ℤ) : RunEntry :=
  { entry with
    status := "killed"
    endedAtMs := some nowMs
    error := some "killed by subagents tool"
    suppressAnnounceReason := some "killed"
    cleanupHandled := true
    cleanupCompletedAtMs := some nowMs
    endedReason := some "subagent-killed"
    archiveAtMs := some (entry.archiveAtMs.getD (satAddInt nowMs archiveAfterMs)) }

/-- The patch of `subagents_steer`. -/
def RunEntry.steer (entry : RunEntry) (nowMs : ℤ) : RunEntry :=
  { entry with
    status := "steered"
    endedAtMs := some nowMs
    error := some "interrupted for steer restart"
    suppressAnnounceReason := some "steer-restart"
    cleanupHandled := true
    cleanupCompletedAtMs := some nowMs
    endedReason := some "subagent-killed"
    archiveAtMs := some (entry.archiveAtMs.getD (satAddInt nowMs archiveAfterMs)) }

section Lookups

variable {runs : Registry} {k id : String} {f : RunEntry → RunEntry} {entry : RunEntry}
  {nowMs : ℤ}

theorem Registry.lookup_patchRun :
    (runs.patchRun id f).lookup k = if k = id then (runs.lookup id).map f else runs.lookup k := by
  unfold Registry.patchRun
  cases hlookup : runs.lookup id with
  | none =>
      show runs.lookup k = _
      split
      · rename_i hk
        rw [hk, hlookup]
        rfl
      · rfl
  | some entry =>
      show (runs.insert id (f entry)).lookup k = _
      rw [HashMap.lookup_insert_eq]
      rfl

theorem Registry.lookup_sweepArchived (h : (runs.sweepArchived nowMs).lookup k = some entry) :
    runs.lookup k = some entry := by
  rw [Registry.sweepArchived, HashMap.lookup_retain] at h
  exact (Option.filter_eq_some_iff.mp h).1

/-- A run that is going is never swept. -/
theorem Registry.lookup_sweepArchived_of_going (h : runs.lookup k = some entry)
    (hgoing : entry.endedAtMs = none) : (runs.sweepArchived nowMs).lookup k = some entry := by
  rw [Registry.sweepArchived, HashMap.lookup_retain, h]
  simp [hgoing]

theorem Registry.lookup_restore :
    (runs.restore nowMs).lookup k = (runs.lookup k).map (fun entry => entry.interrupt nowMs) := by
  have hnodup : ((runs.toPairs.map (fun e => (e.1, e.2.interrupt nowMs))).map Prod.fst).Nodup := by
    rw [List.map_map]
    have hkeys : runs.toPairs.map (Prod.fst ∘ fun e => (e.1, e.2.interrupt nowMs)) =
        runs.entries.map Sigma.fst := by
      simp [HashMap.toPairs, Function.comp_def]
    rw [hkeys]
    exact runs.nodupKeys
  ext entry
  rw [Registry.restore, HashMap.lookup_ofEntries hnodup, List.mem_map, Option.map_eq_some_iff]
  constructor
  · rintro ⟨⟨k', entry'⟩, hmem, heq⟩
    cases heq
    exact ⟨entry', HashMap.mem_toPairs.mp hmem, rfl⟩
  · rintro ⟨entry', hlookup, rfl⟩
    exact ⟨(k, entry'), HashMap.mem_toPairs.mpr hlookup, rfl⟩

end Lookups

/-- Every run is entered under its own identity. -/
def Registry.Keyed (runs : Registry) : Prop :=
  ∀ k entry, runs.lookup k = some entry → entry.runId = k

theorem Registry.Keyed.sweepArchived {runs : Registry} (h : runs.Keyed) (nowMs : ℤ) :
    (runs.sweepArchived nowMs).Keyed :=
  fun k entry hlookup => h k entry (Registry.lookup_sweepArchived hlookup)

/-! ## §2  The runs under a session -/

/-- The links of a snapshot: the runs that a session asked for, each with its own session. -/
def spawnGraph (snapshot : List RunEntry) : RowGraph String RunEntry String where
  rows requester := snapshot.filter (fun r => r.requesterSessionKey = requester)
  id r := r.runId
  targets r := [r.childSessionKey]

/-- `collect_descendant_runs`, with the registry that it leaves. -/
def Registry.collectDescendantRuns (runs : Registry) (nowMs : ℤ) (rootSessionKey : String) :
    Registry × List RunEntry :=
  let runs := runs.sweepArchived nowMs
  (runs, (spawnGraph runs.values).search runs.values [rootSessionKey])

/-- `count_active_descendant_runs` -/
def Registry.countActiveDescendantRuns (runs : Registry) (nowMs : ℤ) (rootSessionKey : String) :
    ℕ :=
  ((runs.collectDescendantRuns nowMs rootSessionKey).2.filter
    (fun r => r.endedAtMs.isNone)).length

/-- A session asked for the run, or a run under it did. -/
inductive Registry.Under (runs : Registry) (rootSessionKey : String) : RunEntry → Prop where
  | child {id : String} {r : RunEntry} : runs.lookup id = some r →
      r.requesterSessionKey = rootSessionKey → Under runs rootSessionKey r
  | deeper {id : String} {r r' : RunEntry} : Under runs rootSessionKey r →
      runs.lookup id = some r' → r'.requesterSessionKey = r.childSessionKey →
      Under runs rootSessionKey r'

section Descendants

variable {runs : Registry} {root id : String} {r r' : RunEntry} {nowMs : ℤ}

theorem Registry.mem_values : r ∈ runs.values ↔ ∃ id, runs.lookup id = some r := by
  rw [Registry.values, List.mem_map]
  constructor
  · rintro ⟨⟨id, r'⟩, hmem, rfl⟩
    exact ⟨id, HashMap.mem_toPairs.mp hmem⟩
  · rintro ⟨id, hlookup⟩
    exact ⟨(id, r), HashMap.mem_toPairs.mpr hlookup, rfl⟩

theorem mem_spawnGraph_rows {snapshot : List RunEntry} :
    r ∈ (spawnGraph snapshot).rows root ↔ r ∈ snapshot ∧ r.requesterSessionKey = root := by
  simp [spawnGraph, List.mem_filter]

theorem reach_iff_under :
    (spawnGraph runs.values).Reach [root] r ↔ runs.Under root r := by
  constructor
  · intro h
    induction h with
    | root hv hrow =>
        obtain ⟨hmem, hrequester⟩ := mem_spawnGraph_rows.mp hrow
        obtain ⟨id, hlookup⟩ := Registry.mem_values.mp hmem
        exact .child hlookup (hrequester.trans (List.mem_singleton.mp hv))
    | step _ hv hrow ih =>
        obtain ⟨hmem, hrequester⟩ := mem_spawnGraph_rows.mp hrow
        obtain ⟨id, hlookup⟩ := Registry.mem_values.mp hmem
        exact .deeper ih hlookup (hrequester.trans (List.mem_singleton.mp hv))
  · intro h
    induction h with
    | child hlookup hrequester =>
        exact .root (List.mem_singleton.mpr rfl)
          (mem_spawnGraph_rows.mpr ⟨Registry.mem_values.mpr ⟨_, hlookup⟩, hrequester⟩)
    | deeper _ hlookup hrequester ih =>
        exact .step ih (List.mem_singleton.mpr rfl)
          (mem_spawnGraph_rows.mpr ⟨Registry.mem_values.mpr ⟨_, hlookup⟩, hrequester⟩)

theorem Registry.Under.lookup (hkeyed : runs.Keyed) (h : runs.Under root r) :
    runs.lookup r.runId = some r := by
  cases h with
  | child hlookup _ => rwa [hkeyed _ _ hlookup]
  | deeper _ hlookup _ => rwa [hkeyed _ _ hlookup]

/-- The walk finds the runs under a session, through those that have ended too. -/
theorem mem_collectDescendantRuns (hkeyed : runs.Keyed) :
    r ∈ (runs.collectDescendantRuns nowMs root).2 ↔ (runs.sweepArchived nowMs).Under root r := by
  rw [← reach_iff_under]
  refine RowGraph.mem_search
    (fun _ => RowGraph.Reach.mem_of_rows fun _ _ hr => (mem_spawnGraph_rows.mp hr).1) ?_
  intro r r' hr hr' hid
  have hlookup := (reach_iff_under.mp hr).lookup (hkeyed.sweepArchived nowMs)
  have hlookup' := (reach_iff_under.mp hr').lookup (hkeyed.sweepArchived nowMs)
  have hid' : r.runId = r'.runId := hid
  rw [hid', hlookup'] at hlookup
  exact (Option.some.inj hlookup).symm

/-- Each of them once. -/
theorem nodup_collectDescendantRuns :
    ((runs.collectDescendantRuns nowMs root).2.map RunEntry.runId).Nodup :=
  RowGraph.nodup_search
    (fun _ => RowGraph.Reach.mem_of_rows fun _ _ hr => (mem_spawnGraph_rows.mp hr).1)

end Descendants

/-! ## §3  Killing a run -/

/-- `kill_run_entry`, as far as the registry goes. -/
def Registry.killRunEntry (runs : Registry) (run : RunEntry) (nowMs : ℤ) : Registry :=
  runs.patchRun run.runId (fun entry => entry.kill nowMs)

/-- What `subagents_kill` is going to kill, by identity. -/
def toKill (run : RunEntry) (descendants : List RunEntry) : HashMap String RunEntry :=
  (descendants.filter (fun d => d.endedAtMs.isNone)).foldl (fun m d => m.insert d.runId d)
    ((∅ : HashMap String RunEntry).insert run.runId run)

/-- `subagents_kill` for a run that is going. `clock` tells the time at which each of the
runs is killed. -/
def Registry.subagentsKill (runs : Registry) (run : RunEntry) (nowMs : ℤ)
    (clock : String → ℤ) : Registry :=
  let (runs, descendants) := runs.collectDescendantRuns nowMs run.childSessionKey
  (toKill run descendants).toPairs.foldl
    (fun runs e => runs.killRunEntry e.2 (clock e.2.runId)) runs

section Killing

variable {runs : Registry} {id : String} {run r : RunEntry} {nowMs : ℤ} {clock : String → ℤ}

theorem lookup_foldl_insert (ds : List RunEntry) : ∀ (m : HashMap String RunEntry),
    (∀ d ∈ ds, ∀ d' ∈ ds, d.runId = d'.runId → d = d') →
      (ds.foldl (fun m d => m.insert d.runId d) m).lookup id =
        match ds.find? (fun d => d.runId = id) with
        | some d => some d
        | none => m.lookup id := by
  induction ds with
  | nil => intro m _; rfl
  | cons d ds ih =>
      intro m hsame
      rw [List.foldl_cons, ih _ (fun x hx y hy => hsame x (by simp [hx]) y (by simp [hy]))]
      by_cases hd : d.runId = id
      · rw [List.find?_cons_of_pos (by simpa using hd)]
        cases hfind : ds.find? (fun d => d.runId = id) with
        | none =>
            show (m.insert d.runId d).lookup id = some d
            rw [← hd, AList.lookup_insert]
        | some d' =>
            have hmem := List.mem_of_find?_eq_some hfind
            have hid : d'.runId = id := by simpa using List.find?_some hfind
            rw [hsame d (by simp) d' (by simp [hmem]) (hd.trans hid.symm)]
      · rw [List.find?_cons_of_neg (by simpa using hd)]
        cases hfind : ds.find? (fun d => d.runId = id) with
        | none =>
            show (m.insert d.runId d).lookup id = m.lookup id
            rw [AList.lookup_insert_ne (Ne.symm hd)]
        | some d' => rfl

/-- What the loop over the runs to be killed leaves of each run. -/
theorem lookup_foldl_kill (es : List (String × RunEntry)) : ∀ (runs : Registry),
    (es.map (fun e => e.2.runId)).Nodup →
      (es.foldl (fun runs e => runs.killRunEntry e.2 (clock e.2.runId)) runs).lookup id =
        if id ∈ es.map (fun e => e.2.runId) then
          (runs.lookup id).map (fun entry => entry.kill (clock id))
        else runs.lookup id := by
  induction es with
  | nil => intro runs _; simp
  | cons e es ih =>
      intro runs hnodup
      rw [List.map_cons, List.nodup_cons] at hnodup
      rw [List.foldl_cons, ih _ hnodup.2]
      simp only [Registry.killRunEntry, Registry.lookup_patchRun, List.map_cons, List.mem_cons]
      by_cases he : id = e.2.runId
      · subst he
        simp [hnodup.1]
      · rw [if_neg he]
        simp only [he, false_or]

/-- Killing a run that is going ends it and every run under it that is going, marks them
as killed and cleaned up, and leaves all others as they are. -/
theorem lookup_subagentsKill (hkeyed : runs.Keyed) (hrun : runs.lookup run.runId = some run)
    (hgoing : run.endedAtMs = none) :
    (runs.subagentsKill run nowMs clock).lookup id =
      ((runs.sweepArchived nowMs).lookup id).map (fun entry =>
        open Classical in
        if id = run.runId ∨ (runs.sweepArchived nowMs).Under run.childSessionKey entry ∧
            entry.endedAtMs = none then
          entry.kill (clock id)
        else entry) := by
  obtain ⟨ds, hds⟩ : ∃ ds, (runs.collectDescendantRuns nowMs run.childSessionKey).2 = ds :=
    ⟨_, rfl⟩
  have hmem : ∀ d, d ∈ ds ↔ (runs.sweepArchived nowMs).Under run.childSessionKey d := by
    intro d
    rw [← hds]
    exact mem_collectDescendantRuns hkeyed
  have hlookup : ∀ d ∈ ds, (runs.sweepArchived nowMs).lookup d.runId = some d := fun d hd =>
    ((hmem d).mp hd).lookup (hkeyed.sweepArchived nowMs)
  have hself : (runs.sweepArchived nowMs).lookup run.runId = some run :=
    Registry.lookup_sweepArchived_of_going hrun hgoing
  -- what is in the map to be killed is there under its own identity
  have hkill : ∀ id d, (toKill run ds).lookup id = some d ↔
      (runs.sweepArchived nowMs).lookup id = some d ∧
        (id = run.runId ∨ d ∈ ds ∧ d.endedAtMs = none) := by
    intro id d
    rw [toKill, lookup_foldl_insert _ _ (fun x hx y hy hxy => by
      have hx' := hlookup x (List.mem_of_mem_filter hx)
      rw [hxy, hlookup y (List.mem_of_mem_filter hy)] at hx'
      exact (Option.some.inj hx').symm)]
    cases hfind : (ds.filter (fun d => d.endedAtMs.isNone)).find? (fun d => d.runId = id) with
    | some d' =>
        have hmem' := List.mem_of_find?_eq_some hfind
        obtain ⟨hd', hactive⟩ := List.mem_filter.mp hmem'
        have hid : d'.runId = id := by simpa using List.find?_some hfind
        have hin : (runs.sweepArchived nowMs).lookup id = some d' := hid ▸ hlookup d' hd'
        constructor
        · rintro ⟨⟩
          exact ⟨hin, Or.inr ⟨hd', by simpa using hactive⟩⟩
        · rintro ⟨hd, -⟩
          rw [← hd, hin]
    | none =>
        have hnone := List.find?_eq_none.mp hfind
        show ((∅ : HashMap String RunEntry).insert run.runId run).lookup id = some d ↔ _
        rw [HashMap.lookup_insert_eq]
        by_cases hid : id = run.runId
        · subst hid
          simp [hself]
        · simp only [hid, if_false, AList.lookup_empty, false_or, reduceCtorEq, false_iff,
            not_and]
          intro hd hmem' hnot
          refine hnone d (List.mem_filter.mpr ⟨hmem', by simp [hnot]⟩) ?_
          simpa using hkeyed.sweepArchived nowMs _ _ hd
  have hids : ∀ e ∈ (toKill run ds).toPairs, e.2.runId = e.1 := fun e he =>
    hkeyed.sweepArchived nowMs _ _ ((hkill e.1 e.2).mp (HashMap.mem_toPairs.mp he)).1
  have hkeys : (toKill run ds).toPairs.map (fun e => e.2.runId) =
      (toKill run ds).toPairs.map Prod.fst := List.map_congr_left hids
  have hnodup : ((toKill run ds).toPairs.map (fun e => e.2.runId)).Nodup := by
    rw [hkeys, HashMap.toPairs, List.map_map]
    exact (toKill run ds).nodupKeys
  have hin : id ∈ (toKill run ds).toPairs.map (fun e => e.2.runId) ↔
      ∃ d, (toKill run ds).lookup id = some d := by
    rw [hkeys, List.mem_map]
    constructor
    · rintro ⟨⟨k, d⟩, hd, rfl⟩
      exact ⟨d, HashMap.mem_toPairs.mp hd⟩
    · rintro ⟨d, hd⟩
      exact ⟨(id, d), HashMap.mem_toPairs.mpr hd, rfl⟩
  have hstep : (runs.subagentsKill run nowMs clock).lookup id =
      ((toKill run ds).toPairs.foldl
        (fun runs e => runs.killRunEntry e.2 (clock e.2.runId)) (runs.sweepArchived nowMs)).lookup
          id := by
    rw [← hds]
    rfl
  rw [hstep, lookup_foldl_kill _ _ hnodup]
  cases hentry : (runs.sweepArchived nowMs).lookup id with
  | none => simp
  | some entry =>
      by_cases hcase : id = run.runId ∨ entry ∈ ds ∧ entry.endedAtMs = none
      · rw [if_pos (hin.mpr ⟨entry, (hkill id entry).mpr ⟨hentry, hcase⟩⟩)]
        rw [hmem] at hcase
        simp [hcase]
      · rw [if_neg]
        · rw [hmem] at hcase
          simp [hcase]
        · rw [hin]
          rintro ⟨d, hd⟩
          obtain ⟨hd', hcase'⟩ := (hkill id d).mp hd
          rw [hentry] at hd'
          cases hd'
          exact hcase hcase'

end Killing

def sampleRun (runId requester child : String) (endedAtMs : Option ℤ) : RunEntry :=
  ⟨runId, requester, child, "search", 1000, endedAtMs, "running", none, "run", "keep", true, none,
    0, none, false, none, none, none, none⟩

/-- Two generations under a run, the first of which has ended. -/
def sampleRuns : Registry :=
  HashMap.ofEntries
    [("run-1", sampleRun "run-1" "main" "child-1" none),
      ("run-2", sampleRun "run-2" "child-1" "child-2" (some 2000)),
      ("run-3", sampleRun "run-3" "child-2" "child-3" none)]

theorem sampleRuns_keyed : sampleRuns.Keyed := by
  have hall : ∀ e ∈ sampleRuns.toPairs, e.2.runId = e.1 := by decide
  exact fun k entry hlookup => hall (k, entry) (HashMap.mem_toPairs.mpr hlookup)

theorem lookup_subagentsKill_sample :
    (sampleRuns.subagentsKill (sampleRun "run-1" "main" "child-1" none) 5000
      (fun _ => 5001)).lookup "run-3" =
        some ((sampleRun "run-3" "child-2" "child-3" none).kill 5001) := by
  rw [lookup_subagentsKill sampleRuns_keyed (by decide) rfl]
  have hsecond : (sampleRuns.sweepArchived 5000).lookup "run-2" =
      some (sampleRun "run-2" "child-1" "child-2" (some 2000)) := by decide
  have hthird : (sampleRuns.sweepArchived 5000).lookup "run-3" =
      some (sampleRun "run-3" "child-2" "child-3" none) := by decide
  rw [hthird, Option.map_some, if_pos]
  exact Or.inr ⟨.deeper (.child hsecond rfl) hthird rfl, rfl⟩

end Oclaw.Gateway.Subagents
