import Oclaw.Gateway.NodePairing
import Oclaw.Lib.Json

/-!
# Calling a command of a node

`rpc_node_invoke` and `rpc_node_invoke_result` of `crates/gateway-core/src/http.rs`. A call
enters a record and looks at it again and again until it has a result or the time is up.
Results are posted for its identity by other requests, also more than one, and also when the
call is over.
-/

namespace Oclaw.Gateway.Nodes

open Oclaw.Lib Oclaw.Gateway.Rpc

/-! ## §1  Requests -/

inductive InvokeStatus : Type where
  | pending
  | ok
  | error
deriving DecidableEq

structure NodeInvokeRecord : Type where
  id : String
  nodeId : String
  command : String
  status : InvokeStatus
  result : Option Json
  error : Option Json

structure InvokeParams : Type where
  nodeId : Option String
  command : Option String
  timeoutMs : Option ℕ

def InvokeParams.parse (p : InvokeParams) : Except RpcError (String × String) := do
  let nodeId ← requireNodeId p.nodeId
  match p.command with
  | none => .error ⟨"INVALID_PARAMS", "Missing 'command'"⟩
  | some raw =>
      let command := trim raw
      if command = "" then .error ⟨"INVALID_PARAMS", "command cannot be empty"⟩
      else if command = "system.execApprovals.get" ∨ command = "system.execApprovals.set" then
        .error ⟨"INVALID_REQUEST",
          "node.invoke does not allow system.execApprovals.*; use exec.approvals.node.*"⟩
      else .ok (nodeId, command)

def InvokeParams.timeout (p : InvokeParams) : ℕ := min (p.timeoutMs.getD 120000) 600000

/-- What a result says. -/
inductive Posted : Type where
  | ok (payload : Option Json)
  | error (error : Json)

structure ResultParams : Type where
  id : Option String
  nodeId : Option String
  ok : Option Bool
  payload : Option Json
  result : Option Json
  error : Option Json

def ResultParams.parse (p : ResultParams) : Except RpcError (String × String) :=
  match p.id with
  | none => .error ⟨"INVALID_PARAMS", "Missing 'id'"⟩
  | some raw =>
      let id := trim raw
      if id = "" then .error ⟨"INVALID_PARAMS", "id cannot be empty"⟩
      else do
        let nodeId ← requireNodeId p.nodeId
        return (id, nodeId)

def ResultParams.posted (p : ResultParams) : Posted :=
  if p.ok.getD true then .ok (p.payload.or p.result)
  else .error (p.error.getD (.obj [("message", .str "node invoke failed")]))

def NodeInvokeRecord.post (entry : NodeInvokeRecord) : Posted → NodeInvokeRecord
  | .ok payload => { entry with status := .ok, result := payload, error := none }
  | .error error => { entry with status := .error, error := some error }

structure InvokeAnswer : Type where
  id : String
  nodeId : String
  command : String
  payload : Option Json

/-- What a call returns that fails on the node. -/
def invokeFailed (error : Option Json) : RpcError :=
  ⟨"UNAVAILABLE",
    ((error.bind (Json.get "message")).bind Json.asStr).getD "node invocation failed"⟩

def invokeTimedOut (id : String) (timeoutMs : ℕ) : RpcError :=
  ⟨"UNAVAILABLE", s!"node.invoke timed out (id={id}, timeoutMs={timeoutMs})"⟩

def NodeInvokeRecord.answer (entry : NodeInvokeRecord) : Option (Except RpcError InvokeAnswer) :=
  match entry.status with
  | .ok => some (.ok ⟨entry.id, entry.nodeId, entry.command, entry.result⟩)
  | .error => some (.error (invokeFailed entry.error))
  | .pending => none

/-! ## §2  Steps -/

inductive InvokeStage : Type where
  | lookNode (node command : String) (timeoutMs : ℕ)
  | enter (node command : String) (timeoutMs : ℕ)
  | poll (id : String) (timeoutMs deadline : ℕ)
deriving DecidableEq

inductive InvokeAct : Type where
  | internal
  | refused (e : RpcError)
  | ignored
  | started (id node command : String) (timeoutMs deadline : ℕ)
  | posted (id node : String) (result : Posted)
  | returned (id : String) (now : ℕ) (answer : Except RpcError InvokeAnswer)
  | dropped

structure InvokeEvent : Type where
  task : ℕ
  act : InvokeAct

structure InvokeWorld : Type where
  connected : Finset String
  invocations : HashMap String NodeInvokeRecord
  tasks : ℕ → Option InvokeStage

def InvokeWorld.init : InvokeWorld := ⟨∅, ∅, fun _ => none⟩

inductive InvokeTurn : Type where
  /-- Nodes connect and disconnect. -/
  | connections (nodes : Finset String)
  | call (t : ℕ) (params : InvokeParams)
  | run (t : ℕ) (uuid : String) (now : ℕ)
  | post (t : ℕ) (params : ResultParams)
  | drop (t : ℕ)

def InvokeWorld.put (w : InvokeWorld) (t : ℕ) (stage : Option InvokeStage) : InvokeWorld :=
  { w with tasks := Function.update w.tasks t stage }

def InvokeWorld.run (w : InvokeWorld) (t : ℕ) (uuid : String) (now : ℕ) :
    InvokeStage → Option (InvokeEvent × InvokeWorld)
  | .lookNode node command timeoutMs =>
      if node ∈ w.connected then
        some (⟨t, .internal⟩, w.put t (some (.enter node command timeoutMs)))
      else some (⟨t, .refused ⟨"UNAVAILABLE", "node not connected"⟩⟩, w.put t none)
  | .enter node command timeoutMs =>
      -- an identity is not given out twice, and records stay
      if (w.invocations.lookup uuid).isSome then none
      else some (⟨t, .started uuid node command timeoutMs (now + timeoutMs)⟩,
        { w with
          invocations := w.invocations.insert uuid ⟨uuid, node, command, .pending, none, none⟩
        }.put t (some (.poll uuid timeoutMs (now + timeoutMs))))
  | .poll id timeoutMs deadline =>
      match w.invocations.lookup id with
      | none =>
          some (⟨t, .returned id now (.error ⟨"UNAVAILABLE", "invoke state lost"⟩)⟩, w.put t none)
      | some entry =>
          match entry.answer with
          | some answer => some (⟨t, .returned id now answer⟩, w.put t none)
          | none =>
              if deadline ≤ now then
                some (⟨t, .returned id now (.error (invokeTimedOut id timeoutMs))⟩, w.put t none)
              else some (⟨t, .internal⟩, w)

def InvokeWorld.next (w : InvokeWorld) : InvokeTurn → Option (InvokeEvent × InvokeWorld)
  | .connections nodes => some (⟨0, .internal⟩, { w with connected := nodes })
  | .call t params =>
      if w.tasks t = none then
        match params.parse with
        | .error e => some (⟨t, .refused e⟩, w)
        | .ok (node, command) =>
            some (⟨t, .internal⟩, w.put t (some (.lookNode node command params.timeout)))
      else none
  | .run t uuid now =>
      match w.tasks t with
      | none => none
      | some stage => w.run t uuid now stage
  | .post t params =>
      match params.parse with
      | .error e => some (⟨t, .refused e⟩, w)
      | .ok (id, node) =>
          match w.invocations.lookup id with
          | none => some (⟨t, .ignored⟩, w)
          | some entry =>
              if entry.nodeId ≠ node then
                some (⟨t, .refused ⟨"INVALID_REQUEST", "nodeId mismatch"⟩⟩, w)
              else some (⟨t, .posted id node params.posted⟩,
                { w with invocations := w.invocations.insert id (entry.post params.posted) })
  | .drop t => if (w.tasks t).isSome then some (⟨t, .dropped⟩, w.put t none) else none

def InvokeWorld.Step : InvokeWorld → InvokeEvent → InvokeWorld → Prop := Induced InvokeWorld.next

/-! ## §3  What a call returns -/

/-- The last result that was accepted for an invocation. -/
def lastPosted (id : String) (tr : List InvokeEvent) : Option Posted :=
  tr.foldl (fun last e =>
    match e.act with
    | .posted i _ result => if id = i then some result else last
    | _ => last) none

/-- The record says what was posted last. -/
def NodeInvokeRecord.Shows (entry : NodeInvokeRecord) : Option Posted → Prop
  | none => entry.status = .pending
  | some (.ok payload) => entry.status = .ok ∧ entry.result = payload
  | some (.error error) => entry.status = .error ∧ entry.error = some error

/-- What a step does to the records and to the calls that wait. -/
inductive InvokeMove (w : InvokeWorld) (t : ℕ) : InvokeAct → InvokeWorld → Prop where
  | still {act : InvokeAct} {w' : InvokeWorld} : w'.invocations = w.invocations →
      (∀ s id timeoutMs deadline, w'.tasks s = some (.poll id timeoutMs deadline) →
        w.tasks s = some (.poll id timeoutMs deadline)) →
      (∀ id node result, act ≠ .posted id node result) →
      (∀ id now answer, act ≠ .returned id now answer) → InvokeMove w t act w'
  | started {id node command : String} {timeoutMs deadline : ℕ} :
      w.invocations.lookup id = none →
      InvokeMove w t (.started id node command timeoutMs deadline)
        ({ w with
          invocations := w.invocations.insert id ⟨id, node, command, .pending, none, none⟩
        }.put t (some (.poll id timeoutMs deadline)))
  | posted {id : String} {entry : NodeInvokeRecord} {result : Posted} :
      w.invocations.lookup id = some entry →
      InvokeMove w t (.posted id entry.nodeId result)
        { w with invocations := w.invocations.insert id (entry.post result) }
  | returned {id : String} {timeoutMs deadline now : ℕ} {answer : Except RpcError InvokeAnswer} :
      w.tasks t = some (.poll id timeoutMs deadline) →
      (∀ entry, w.invocations.lookup id = some entry → entry.answer = some answer ∨
        entry.answer = none ∧ deadline ≤ now ∧ answer = .error (invokeTimedOut id timeoutMs)) →
      InvokeMove w t (.returned id now answer) (w.put t none)

section Invocations

variable {tr before after : List InvokeEvent} {w w' : InvokeWorld} {t : ℕ} {act : InvokeAct}
  {e : InvokeEvent} {id : String} {stage : Option InvokeStage}

theorem poll_of_put {s timeoutMs deadline : ℕ}
    (hstage : ∀ id timeoutMs deadline, stage ≠ some (.poll id timeoutMs deadline))
    (h : (w.put t stage).tasks s = some (.poll id timeoutMs deadline)) :
    w.tasks s = some (.poll id timeoutMs deadline) := by
  change Function.update w.tasks t stage s = _ at h
  rw [Function.update_apply] at h
  split at h
  · exact absurd h (hstage _ _ _)
  · exact h

theorem invokeMove_of_step (h : InvokeWorld.Step w e w') : InvokeMove w e.task e.act w' := by
  obtain ⟨turn, h⟩ := h
  cases turn with
  | connections nodes =>
      cases h
      exact .still rfl (fun _ _ _ _ hs => hs) (by simp) (by simp)
  | call t params =>
      simp only [InvokeWorld.next] at h
      split at h
      · split at h
        · cases h
          exact .still rfl (fun _ _ _ _ hs => hs) (by simp) (by simp)
        · cases h
          exact .still rfl (fun _ _ _ _ hs => poll_of_put (by simp) hs) (by simp) (by simp)
      · cases h
  | run t uuid now =>
      simp only [InvokeWorld.next] at h
      split at h
      · cases h
      · rename_i stage ht
        cases stage with
        | lookNode node command timeoutMs =>
            simp only [InvokeWorld.run] at h
            split at h
            · cases h
              exact .still rfl (fun _ _ _ _ hs => poll_of_put (by simp) hs) (by simp) (by simp)
            · cases h
              exact .still rfl (fun _ _ _ _ hs => poll_of_put (by simp) hs) (by simp) (by simp)
        | enter node command timeoutMs =>
            simp only [InvokeWorld.run] at h
            split at h
            · cases h
            · rename_i hfresh
              cases h
              exact .started (by simpa using hfresh)
        | poll id timeoutMs deadline =>
            simp only [InvokeWorld.run] at h
            split at h
            · rename_i hnone
              cases h
              exact .returned ht (by simp [hnone])
            · rename_i entry hentry
              split at h
              · rename_i answer hanswer
                cases h
                refine .returned ht ?_
                intro entry' hentry'
                rw [hentry] at hentry'
                cases hentry'
                exact Or.inl hanswer
              · rename_i hanswer
                split at h
                · rename_i hlate
                  cases h
                  refine .returned ht ?_
                  intro entry' hentry'
                  rw [hentry] at hentry'
                  cases hentry'
                  exact Or.inr ⟨hanswer, hlate, rfl⟩
                · cases h
                  exact .still rfl (fun _ _ _ _ hs => hs) (by simp) (by simp)
  | post t params =>
      simp only [InvokeWorld.next] at h
      split at h
      · cases h
        exact .still rfl (fun _ _ _ _ hs => hs) (by simp) (by simp)
      · split at h
        · cases h
          exact .still rfl (fun _ _ _ _ hs => hs) (by simp) (by simp)
        · rename_i entry hentry
          split at h
          · cases h
            exact .still rfl (fun _ _ _ _ hs => hs) (by simp) (by simp)
          · rename_i hnode
            cases h
            cases not_not.mp hnode
            exact .posted hentry
  | drop t =>
      simp only [InvokeWorld.next] at h
      split at h
      · cases h
        exact .still rfl (fun _ _ _ _ hs => poll_of_put (by simp) hs) (by simp) (by simp)
      · cases h

/-- What the records and the calls that wait have of the history. -/
structure InvokeSound (tr : List InvokeEvent) (w : InvokeWorld) : Prop where
  entered : ∀ id entry, w.invocations.lookup id = some entry →
    entry.id = id ∧ entry.Shows (lastPosted id tr)
  unseen : ∀ id, w.invocations.lookup id = none → lastPosted id tr = none
  polling : ∀ t id timeoutMs deadline, w.tasks t = some (.poll id timeoutMs deadline) →
    ∃ entry, w.invocations.lookup id = some entry ∧
      ⟨t, .started id entry.nodeId entry.command timeoutMs deadline⟩ ∈ tr
  posts : ∀ t id node result, ⟨t, .posted id node result⟩ ∈ tr →
    ∃ entry, w.invocations.lookup id = some entry ∧ entry.nodeId = node

theorem lastPosted_snoc : lastPosted id (tr ++ [e]) =
    match e.act with
    | .posted i _ result => if id = i then some result else lastPosted id tr
    | _ => lastPosted id tr := by
  rw [lastPosted, List.foldl_append]
  rfl

theorem lastPosted_other (h : ∀ id node result, act ≠ .posted id node result) :
    lastPosted id (tr ++ [⟨t, act⟩]) = lastPosted id tr := by
  rw [lastPosted_snoc]
  cases act <;> first | rfl | exact absurd rfl (h _ _ _)

theorem posted_before {s : ℕ} {node : String} {result : Posted}
    (h : ∀ id node result, act ≠ .posted id node result)
    (hmem : (⟨s, .posted id node result⟩ : InvokeEvent) ∈ tr ++ [⟨t, act⟩]) :
    (⟨s, .posted id node result⟩ : InvokeEvent) ∈ tr := by
  rcases List.mem_append.mp hmem with hmem | hmem
  · exact hmem
  · cases List.mem_singleton.mp hmem
    exact absurd rfl (h _ _ _)

theorem NodeInvokeRecord.shows_post (entry : NodeInvokeRecord) (result : Posted) :
    (entry.post result).Shows (some result) := by
  cases result <;> exact ⟨rfl, rfl⟩

/-- A step that leaves the records as they are. -/
theorem InvokeSound.still (h : InvokeSound tr w) (hsame : w'.invocations = w.invocations)
    (htasks : ∀ s id timeoutMs deadline, w'.tasks s = some (.poll id timeoutMs deadline) →
      w.tasks s = some (.poll id timeoutMs deadline))
    (hact : ∀ id node result, act ≠ .posted id node result) :
    InvokeSound (tr ++ [⟨t, act⟩]) w' := by
  refine ⟨?_, ?_, ?_, ?_⟩
  · intro id entry hentry
    rw [lastPosted_other hact]
    exact h.entered id entry (hsame ▸ hentry)
  · intro id hnone
    rw [lastPosted_other hact]
    exact h.unseen id (hsame ▸ hnone)
  · intro s id timeoutMs deadline hs
    obtain ⟨entry, hentry, hmem⟩ := h.polling s id _ _ (htasks s _ _ _ hs)
    exact ⟨entry, hsame ▸ hentry, List.mem_append_left _ hmem⟩
  · intro s id node result hmem
    rw [hsame]
    exact h.posts s id node result (posted_before hact hmem)

theorem InvokeSound.step (h : InvokeSound tr w) (hmove : InvokeMove w t act w') :
    InvokeSound (tr ++ [⟨t, act⟩]) w' := by
  cases hmove with
  | still hsame htasks hposted _ => exact h.still hsame htasks hposted
  | returned _ _ =>
      exact h.still rfl (fun _ _ _ _ hs => poll_of_put (by simp) hs) (by simp)
  | @started i node command timeoutMs deadline hfresh =>
      have hkept : ∀ id entry, w.invocations.lookup id = some entry →
          (w.invocations.insert i ⟨i, node, command, .pending, none, none⟩).lookup id =
            some entry := by
        intro id entry hentry
        rw [HashMap.lookup_insert_eq, if_neg, hentry]
        rintro rfl
        rw [hfresh] at hentry
        cases hentry
      refine ⟨?_, ?_, ?_, ?_⟩
      · intro id entry hentry
        rw [lastPosted_other (by simp)]
        change (w.invocations.insert i _).lookup id = _ at hentry
        rw [HashMap.lookup_insert_eq] at hentry
        split at hentry
        · rename_i hid
          cases hentry
          rw [hid, h.unseen i hfresh]
          exact ⟨rfl, rfl⟩
        · exact h.entered id entry hentry
      · intro id hnone
        rw [lastPosted_other (by simp)]
        change (w.invocations.insert i _).lookup id = _ at hnone
        rw [HashMap.lookup_insert_eq] at hnone
        split at hnone
        · cases hnone
        · exact h.unseen id hnone
      · intro s id timeoutMs' deadline' hs
        change Function.update w.tasks t _ s = _ at hs
        rw [Function.update_apply] at hs
        split at hs
        · rename_i hst
          cases hs
          exact ⟨_, AList.lookup_insert .., by simp [hst]⟩
        · obtain ⟨entry, hentry, hmem⟩ := h.polling s id _ _ hs
          exact ⟨entry, hkept id entry hentry, List.mem_append_left _ hmem⟩
      · intro s id node' result hmem
        obtain ⟨entry, hentry, hnode⟩ := h.posts s id node' result (posted_before (by simp) hmem)
        exact ⟨entry, hkept id entry hentry, hnode⟩
  | @posted i entry result hentry =>
      have hsame : (entry.post result).id = entry.id ∧ (entry.post result).nodeId = entry.nodeId ∧
          (entry.post result).command = entry.command := by
        cases result <;> exact ⟨rfl, rfl, rfl⟩
      -- what a caller waits for keeps its node and its command
      have hkept : ∀ id entry', w.invocations.lookup id = some entry' →
          ∃ entry'', (w.invocations.insert i (entry.post result)).lookup id = some entry'' ∧
            entry''.nodeId = entry'.nodeId ∧ entry''.command = entry'.command := by
        intro id entry' hentry'
        by_cases hid : id = i
        · subst hid
          rw [hentry] at hentry'
          cases hentry'
          exact ⟨_, AList.lookup_insert .., hsame.2⟩
        · refine ⟨entry', ?_, rfl, rfl⟩
          rw [HashMap.lookup_insert_eq, if_neg hid, hentry']
      refine ⟨?_, ?_, ?_, ?_⟩
      · intro id entry' hentry'
        rw [lastPosted_snoc]
        change (w.invocations.insert i _).lookup id = _ at hentry'
        rw [HashMap.lookup_insert_eq] at hentry'
        simp only
        split at hentry'
        · rename_i hid
          cases hentry'
          rw [if_pos hid, hsame.1, hid]
          exact ⟨(h.entered i entry hentry).1, entry.shows_post result⟩
        · rename_i hid
          rw [if_neg hid]
          exact h.entered id entry' hentry'
      · intro id hnone
        rw [lastPosted_snoc]
        change (w.invocations.insert i _).lookup id = _ at hnone
        rw [HashMap.lookup_insert_eq] at hnone
        simp only
        split at hnone
        · cases hnone
        · rename_i hid
          rw [if_neg hid]
          exact h.unseen id hnone
      · intro s id timeoutMs deadline hs
        obtain ⟨entry', hentry', hmem⟩ := h.polling s id timeoutMs deadline hs
        obtain ⟨entry'', hentry'', hnode, hcommand⟩ := hkept id entry' hentry'
        refine ⟨entry'', hentry'', List.mem_append_left _ ?_⟩
        rw [hnode, hcommand]
        exact hmem
      · intro s id node' result' hmem
        rcases List.mem_append.mp hmem with hmem | hmem
        · obtain ⟨entry', hentry', hnode⟩ := h.posts s id node' result' hmem
          obtain ⟨entry'', hentry'', hnode', -⟩ := hkept id entry' hentry'
          exact ⟨entry'', hentry'', hnode'.trans hnode⟩
        · cases List.mem_singleton.mp hmem
          exact ⟨_, AList.lookup_insert .., hsame.2.1⟩

theorem invokeSound_of_run (run : Runs InvokeWorld.Step .init tr w) : InvokeSound tr w := by
  induction run with
  | nil =>
      refine ⟨by rintro _ _ ⟨⟩, fun _ _ => rfl, by rintro _ _ _ _ ⟨⟩, ?_⟩
      rintro _ _ _ _ hmem
      cases hmem
  | snoc _ hstep ih => exact ih.step (invokeMove_of_step hstep)

/-- **A call returns the last result.** In every interleaving, a call that returns was started
for a node, only results that were posted under the name of this node were accepted for it,
and it returns what the last of these says; without any it returns once the time is up. -/
theorem invoke_returns_last {now : ℕ} {answer : Except RpcError InvokeAnswer}
    (run : Runs InvokeWorld.Step .init (before ++ ⟨t, .returned id now answer⟩ :: after) w) :
    ∃ node command timeoutMs deadline,
      ⟨t, .started id node command timeoutMs deadline⟩ ∈ before ∧
      (∀ s node' result, ⟨s, .posted id node' result⟩ ∈ before → node' = node) ∧
      match lastPosted id before with
      | some (.ok payload) => answer = .ok ⟨id, node, command, payload⟩
      | some (.error error) => answer = .error (invokeFailed (some error))
      | none => deadline ≤ now ∧ answer = .error (invokeTimedOut id timeoutMs) := by
  obtain ⟨u, u', hbefore, hstep⟩ := run.step_at
  have hsound := invokeSound_of_run hbefore
  have hmove := invokeMove_of_step hstep
  cases hmove with
  | still _ _ _ hreturned => exact absurd rfl (hreturned _ _ _)
  | @returned _ timeoutMs deadline _ _ ht hanswer =>
      obtain ⟨entry, hentry, hstarted⟩ := hsound.polling t id timeoutMs deadline ht
      obtain ⟨hid, hshows⟩ := hsound.entered id entry hentry
      refine ⟨entry.nodeId, entry.command, timeoutMs, deadline, hstarted, ?_, ?_⟩
      · intro s node' result hmem
        obtain ⟨entry', hentry', hnode⟩ := hsound.posts s id node' result hmem
        rw [hentry] at hentry'
        cases hentry'
        exact hnode.symm
      · have hanswer := hanswer entry hentry
        cases hlast : lastPosted id before with
        | none =>
            rw [hlast] at hshows
            have hpending : entry.status = .pending := hshows
            simpa [NodeInvokeRecord.answer, hpending] using hanswer
        | some result =>
            rw [hlast] at hshows
            cases result with
            | ok payload =>
                obtain ⟨hstatus, hresult⟩ := hshows
                simpa [NodeInvokeRecord.answer, hstatus, hresult, hid, eq_comm] using hanswer
            | error error =>
                obtain ⟨hstatus, herror⟩ := hshows
                simpa [NodeInvokeRecord.answer, hstatus, herror, eq_comm] using hanswer

/-- A second result comes before the call looks at the first. -/
def invokeTurns : List InvokeTurn :=
  [.connections {"node-1"}, .call 0 ⟨some "node-1", some "camera.snap", none⟩, .run 0 "call-1" 0,
    .run 0 "call-1" 5, .post 1 ⟨some "call-1", some "node-1", some false, none, none, none⟩,
    .post 2 ⟨some "call-1", some "node-1", none, some (.str "done"), none, none⟩,
    .run 0 "call-1" 105]

theorem invokeTurns_run : (exec InvokeWorld.next .init invokeTurns).isSome = true := by
  decide

theorem invoke_returns_last_sample :
    ∃ before w, Runs InvokeWorld.Step .init (before ++ ⟨0, .returned "call-1" 105
        (.ok ⟨"call-1", "node-1", "camera.snap", some (.str "done")⟩)⟩ :: []) w ∧
      ∃ node command timeoutMs deadline,
        ⟨0, .started "call-1" node command timeoutMs deadline⟩ ∈ before ∧
        ∀ s node' result, ⟨s, .posted "call-1" node' result⟩ ∈ before → node' = node := by
  have hrun := runs_of_exec_isSome invokeTurns invokeTurns_run
  have hsplit : ((exec InvokeWorld.next .init invokeTurns).get invokeTurns_run).1 =
      ((exec InvokeWorld.next .init invokeTurns).get invokeTurns_run).1.take 6 ++
        ⟨0, .returned "call-1" 105
          (.ok ⟨"call-1", "node-1", "camera.snap", some (.str "done")⟩)⟩ :: [] := rfl
  rw [hsplit] at hrun
  refine ⟨_, _, hrun, ?_⟩
  obtain ⟨node, command, timeoutMs, deadline, hstarted, hposts, -⟩ := invoke_returns_last hrun
  exact ⟨node, command, timeoutMs, deadline, hstarted, hposts⟩

end Invocations

end Oclaw.Gateway.Nodes
