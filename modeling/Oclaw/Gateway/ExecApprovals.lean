import Oclaw.Gateway.RpcSend
import Oclaw.ToolsCore.Approval

/-!
# Waiting for a decision

`rpc_exec_approval_request`, `rpc_exec_approval_wait_decision`, `rpc_exec_approval_resolve`
and the two requests that call it, of `crates/gateway-core/src/http.rs`, over the gate of
approvals. A request may be resolved any number of times, also back to pending, and waits
look at it every 250 ms; each look first drops what has been pending for five minutes.
-/

namespace Oclaw.Gateway.Approvals

open Oclaw.Lib Oclaw.ToolsCore Oclaw.Gateway.Rpc

/-! ## §1  Requests -/

def approvalDecisionFromRaw (raw : String) : Option ApprovalDecision :=
  match toAsciiLowercase (trim raw) with
  | "allow" | "allow-once" | "once" | "approved" | "approve" => some .approved
  | "allow-always" | "always" => some .approved
  | "deny" | "reject" | "rejected" => some .denied
  | "pending" => some .pending
  | _ => none

structure ResolveParams : Type where
  id : Option String
  decision : Option String
  resolvedBy : Option String

def ResolveParams.parse (p : ResolveParams) : Except RpcError (String × ApprovalDecision) :=
  match p.id with
  | none => .error ⟨"INVALID_PARAMS", "Missing 'id'"⟩
  | some id =>
      match p.decision with
      | none => .error ⟨"INVALID_PARAMS", "Missing 'decision'"⟩
      | some raw =>
          match approvalDecisionFromRaw raw with
          | none => .error ⟨"INVALID_PARAMS", "Invalid decision"⟩
          | some decision => .ok (id, decision)

/-- `rpc_exec_approvals_approve` -/
def ResolveParams.approving (p : ResolveParams) : ResolveParams :=
  { p with decision := some "allow-once" }

/-- `rpc_exec_approvals_reject` -/
def ResolveParams.rejecting (p : ResolveParams) : ResolveParams :=
  { p with decision := some "deny" }

def requestNotFound (id : String) : RpcError :=
  ⟨"NOT_FOUND", s!"Approval request not found: {id}"⟩

/-! ## §2  Steps -/

inductive WaitOutcome : Type where
  | decided (decision : ApprovalDecision) (resolvedBy : Option String)
  | timedOut
  | notFound
deriving DecidableEq

/-- A look takes the lock twice, to drop and to read. -/
inductive WaitStage : Type where
  | sweep (id : String) (deadline : ℕ)
  | read (id : String) (deadline : ℕ)
deriving DecidableEq

inductive ApprovalAct : Type where
  | internal
  | refused (e : RpcError)
  | requested (id : String)
  | resolved (id : String) (decision : ApprovalDecision) (resolvedBy : Option String)
  | swept
  | waited (id : String) (outcome : WaitOutcome)
  | dropped
deriving DecidableEq

structure ApprovalEvent : Type where
  task : ℕ
  act : ApprovalAct
deriving DecidableEq

structure ApprovalWorld : Type where
  gate : ApprovalGate
  minted : List String
  tasks : ℕ → Option WaitStage

def ApprovalWorld.init (policy : ApprovalPolicy) : ApprovalWorld := ⟨.new policy, [], fun _ => none⟩

inductive ApprovalTurn : Type where
  /-- `args` is the text of the parameters. -/
  | request (t : ℕ) (tool : Option String) (args : String) (nowMs : ℕ) (id : String)
  | resolve (t : ℕ) (params : ResolveParams) (nowMs : ℕ)
  /-- Requests are listed, or looked up for an answer. -/
  | list (t : ℕ) (nowMs : ℕ)
  | wait (t : ℕ) (id : Option String) (timeoutMs : Option ℕ) (now : ℕ)
  | run (t : ℕ) (nowMs now : ℕ)
  | drop (t : ℕ)

def ApprovalWorld.put (w : ApprovalWorld) (t : ℕ) (stage : Option WaitStage) : ApprovalWorld :=
  { w with tasks := Function.update w.tasks t stage }

def ApprovalWorld.next (w : ApprovalWorld) : ApprovalTurn → Option (ApprovalEvent × ApprovalWorld)
  | .request t tool args nowMs id =>
      if id ∈ w.minted then none
      else some (⟨t, .requested id⟩, { w with
        gate := (w.gate.requestApproval (tool.getD "exec") args nowMs id).2
        minted := id :: w.minted })
  | .resolve t params nowMs =>
      match params.parse with
      | .error e => some (⟨t, .refused e⟩, w)
      | .ok (id, decision) =>
          let done := w.gate.resolve id decision params.resolvedBy nowMs
          if done.1 then
            some (⟨t, .resolved id decision params.resolvedBy⟩, { w with gate := done.2 })
          else some (⟨t, .refused (requestNotFound id)⟩, w)
  | .list t nowMs => some (⟨t, .swept⟩, { w with gate := w.gate.evictExpiredPending nowMs })
  | .wait t id timeoutMs now =>
      if w.tasks t = none then
        match id with
        | none => some (⟨t, .refused ⟨"INVALID_PARAMS", "Missing 'id'"⟩⟩, w)
        | some id =>
            some (⟨t, .internal⟩, w.put t (some (.sweep id (now + timeoutMs.getD 120000))))
      else none
  | .run t nowMs now =>
      match w.tasks t with
      | none => none
      | some (.sweep id deadline) =>
          some (⟨t, .swept⟩, { w with gate := w.gate.evictExpiredPending nowMs }.put t
            (some (.read id deadline)))
      | some (.read id deadline) =>
          match w.gate.pending.find? (·.id = id) with
          -- the answer is `requestNotFound id`
          | none => some (⟨t, .waited id .notFound⟩, w.put t none)
          | some req =>
              if req.decision ≠ .pending then
                some (⟨t, .waited id (.decided req.decision req.resolvedBy)⟩, w.put t none)
              else if deadline ≤ now then some (⟨t, .waited id .timedOut⟩, w.put t none)
              else some (⟨t, .internal⟩, w.put t (some (.sweep id deadline)))
  | .drop t => if (w.tasks t).isSome then some (⟨t, .dropped⟩, w.put t none) else none

def ApprovalWorld.Step : ApprovalWorld → ApprovalEvent → ApprovalWorld → Prop :=
  Induced ApprovalWorld.next

/-! ## §3  What was said -/

/-- What the last resolution of a request said. -/
def lastSaid (id : String) (tr : List ApprovalEvent) : Option (ApprovalDecision × Option String) :=
  tr.foldl (fun said e =>
    match e.act with
    | .resolved i decision resolvedBy => if id = i then some (decision, resolvedBy) else said
    | _ => said) none

/-- A request after a resolution, see `ApprovalGate.resolve`. -/
def resolvedTo (decision : ApprovalDecision) (resolvedBy : Option String) (nowMs : ℕ)
    (r : ApprovalRequest) : ApprovalRequest :=
  if decision ≠ .pending then
    { r with decision := decision, resolvedAtMs := some nowMs, resolvedBy := resolvedBy }
  else { r with decision := decision, resolvedAtMs := none, resolvedBy := none }

/-- The requests and what was said of them agree. -/
structure Said (tr : List ApprovalEvent) (w : ApprovalWorld) : Prop where
  apart : (w.gate.pending.map ApprovalRequest.id).Nodup
  minted : ∀ r ∈ w.gate.pending, r.id ∈ w.minted
  asked : ∀ id, lastSaid id tr ≠ none → id ∈ w.minted
  said : ∀ r ∈ w.gate.pending, r.decision ≠ .pending →
    lastSaid r.id tr = some (r.decision, r.resolvedBy)
  kept : ∀ id decision resolvedBy, lastSaid id tr = some (decision, resolvedBy) →
    decision ≠ .pending → ∃ r ∈ w.gate.pending,
      r.id = id ∧ r.decision = decision ∧ r.resolvedBy = resolvedBy

inductive GateMove (w : ApprovalWorld) : ApprovalAct → ApprovalWorld → Prop where
  | still {act : ApprovalAct} {w' : ApprovalWorld} : w'.gate = w.gate → w'.minted = w.minted →
      (∀ id decision resolvedBy, act ≠ .resolved id decision resolvedBy) →
      (∀ id outcome, act ≠ .waited id outcome) → GateMove w act w'
  | requested {id tool args : String} {nowMs : ℕ} : id ∉ w.minted →
      GateMove w (.requested id) { w with
        gate := (w.gate.requestApproval tool args nowMs id).2
        minted := id :: w.minted }
  | resolved {id : String} {decision : ApprovalDecision} {resolvedBy : Option String}
      {nowMs i : ℕ} : w.gate.pending.findIdx? (·.id = id) = some i →
      GateMove w (.resolved id decision resolvedBy) { w with
        gate := (w.gate.resolve id decision resolvedBy nowMs).2 }
  | swept {nowMs : ℕ} {w' : ApprovalWorld} : w'.gate = w.gate.evictExpiredPending nowMs →
      w'.minted = w.minted → GateMove w .swept w'
  | waited {id : String} {outcome : WaitOutcome} {w' : ApprovalWorld} : w'.gate = w.gate →
      w'.minted = w.minted →
      (∀ decision resolvedBy, outcome = .decided decision resolvedBy ↔
        ∃ r, w.gate.pending.find? (·.id = id) = some r ∧ r.decision ≠ .pending ∧
          decision = r.decision ∧ resolvedBy = r.resolvedBy) →
      GateMove w (.waited id outcome) w'

section Waits

variable {policy : ApprovalPolicy} {tr before after : List ApprovalEvent}
  {w w' : ApprovalWorld} {t : ℕ} {act : ApprovalAct} {e : ApprovalEvent} {id : String}
  {decision : ApprovalDecision} {resolvedBy : Option String}

theorem gateMove_of_step (h : ApprovalWorld.Step w e w') : GateMove w e.act w' := by
  obtain ⟨turn, h⟩ := h
  cases turn with
  | request t tool args nowMs id =>
      simp only [ApprovalWorld.next] at h
      split at h
      · cases h
      · rename_i hfresh
        cases h
        exact .requested hfresh
  | resolve t params nowMs =>
      simp only [ApprovalWorld.next] at h
      split at h
      · cases h
        exact .still rfl rfl (by simp) (by simp)
      · rename_i id decision _
        cases hfound : w.gate.pending.findIdx? (·.id = id) with
        | none =>
            simp only [ApprovalGate.resolve, hfound] at h
            cases h
            exact .still rfl rfl (by simp) (by simp)
        | some i =>
            have hdone : (w.gate.resolve id decision params.resolvedBy nowMs).1 = true := by
              simp only [ApprovalGate.resolve, hfound]
            rw [if_pos hdone] at h
            cases h
            exact .resolved hfound
  | list t nowMs =>
      cases h
      exact .swept rfl rfl
  | wait t id timeoutMs now =>
      simp only [ApprovalWorld.next] at h
      split at h
      · split at h
        · cases h
          exact .still rfl rfl (by simp) (by simp)
        · cases h
          exact .still rfl rfl (by simp) (by simp)
      · cases h
  | run t nowMs now =>
      simp only [ApprovalWorld.next] at h
      split at h
      · cases h
      · cases h
        exact .swept rfl rfl
      · rename_i id deadline _
        split at h
        · rename_i hnone
          cases h
          exact .waited rfl rfl (by simp [hnone])
        · rename_i req hreq
          split at h
          · rename_i hdecided
            cases h
            refine .waited rfl rfl ?_
            intro decision resolvedBy
            constructor
            · intro heq
              obtain ⟨rfl, rfl⟩ := WaitOutcome.decided.inj heq
              exact ⟨req, hreq, hdecided, rfl, rfl⟩
            · rintro ⟨r, hr, -, rfl, rfl⟩
              rw [hreq] at hr
              cases hr
              rfl
          · rename_i hpending
            split at h
            · cases h
              exact .waited rfl rfl (by simp [hreq, not_not.mp hpending])
            · cases h
              exact .still rfl rfl (by simp) (by simp)
  | drop t =>
      simp only [ApprovalWorld.next] at h
      split at h
      · cases h
        exact .still rfl rfl (by simp) (by simp)
      · cases h

theorem lastSaid_snoc : lastSaid id (tr ++ [e]) =
    match e.act with
    | .resolved i decision resolvedBy =>
        if id = i then some (decision, resolvedBy) else lastSaid id tr
    | _ => lastSaid id tr := by
  rw [lastSaid, List.foldl_append]
  rfl

theorem lastSaid_other (h : ∀ id decision resolvedBy, act ≠ .resolved id decision resolvedBy) :
    lastSaid id (tr ++ [⟨t, act⟩]) = lastSaid id tr := by
  rw [lastSaid_snoc]
  cases act <;> first | rfl | exact absurd rfl (h _ _ _)

/-- Changing the first entry with a name that no other has. -/
theorem modify_first {l : List ApprovalRequest} {f : ApprovalRequest → ApprovalRequest} {i : ℕ}
    (hapart : (l.map ApprovalRequest.id).Nodup) (hi : l.findIdx? (·.id = id) = some i) :
    l.modify i f = l.map (fun r => if r.id = id then f r else r) := by
  induction l generalizing i with
  | nil => cases hi
  | cons a l ih =>
      obtain ⟨hnew, hapart⟩ := List.nodup_cons.mp hapart
      rw [List.findIdx?_cons] at hi
      by_cases ha : a.id = id
      · rw [if_pos (by simpa using ha)] at hi
        cases hi
        have hrest : l.map (fun r => if r.id = id then f r else r) = l := by
          conv_rhs => rw [← List.map_id l]
          apply List.map_congr_left
          intro r hr
          rw [if_neg, id_eq]
          intro hid
          apply hnew
          rw [ha, ← hid]
          exact List.mem_map_of_mem hr
        simp [ha, hrest]
      · rw [if_neg (by simpa using ha)] at hi
        obtain ⟨j, hj, rfl⟩ := Option.map_eq_some_iff.mp hi
        simp [ha, ih hapart hj]

theorem resolvedTo_id {nowMs : ℕ} (r : ApprovalRequest) :
    (resolvedTo decision resolvedBy nowMs r).id = r.id := by
  unfold resolvedTo
  split <;> rfl

theorem Said.resolve {nowMs i : ℕ} (h : Said tr w)
    (hi : w.gate.pending.findIdx? (·.id = id) = some i) :
    Said (tr ++ [⟨t, .resolved id decision resolvedBy⟩]) { w with
      gate := (w.gate.resolve id decision resolvedBy nowMs).2 } := by
  obtain ⟨r₀, hr₀, hid₀⟩ : ∃ r ∈ w.gate.pending, r.id = id := by
    by_contra hno
    push Not at hno
    rw [List.findIdx?_eq_none_iff.mpr (by simpa using hno)] at hi
    cases hi
  let change' : ApprovalRequest → ApprovalRequest := fun r =>
    if r.id = id then resolvedTo decision resolvedBy nowMs r else r
  have hpending : (w.gate.resolve id decision resolvedBy nowMs).2.pending =
      w.gate.pending.map change' := by
    simp only [ApprovalGate.resolve, hi]
    exact modify_first h.apart hi
  have hsame : ∀ r, (change' r).id = r.id := by
    intro r
    show (if r.id = id then _ else _ : ApprovalRequest).id = _
    split
    · exact resolvedTo_id r
    · rfl
  refine ⟨?_, ?_, ?_, ?_, ?_⟩
  · rw [hpending, List.map_map]
    have hids : ApprovalRequest.id ∘ change' = ApprovalRequest.id := funext hsame
    rw [hids]
    exact h.apart
  · intro r hr
    rw [hpending] at hr
    obtain ⟨r', hr', rfl⟩ := List.mem_map.mp hr
    rw [hsame]
    exact h.minted r' hr'
  · intro id' hsaid
    rw [lastSaid_snoc] at hsaid
    simp only at hsaid
    split at hsaid
    · rename_i hid
      rw [hid, ← hid₀]
      exact h.minted r₀ hr₀
    · exact h.asked id' hsaid
  · intro r hr hdecided
    rw [hpending] at hr
    obtain ⟨r', hr', rfl⟩ := List.mem_map.mp hr
    rw [hsame, lastSaid_snoc]
    simp only
    by_cases hid : r'.id = id
    · have hchange : change' r' = resolvedTo decision resolvedBy nowMs r' := if_pos hid
      rw [if_pos hid, hchange]
      rw [hchange] at hdecided
      unfold resolvedTo at hdecided ⊢
      split
      · rfl
      · rename_i hpending'
        rw [if_neg hpending'] at hdecided
        exact absurd hdecided hpending'
    · have hchange : change' r' = r' := if_neg hid
      rw [if_neg hid, hchange]
      rw [hchange] at hdecided
      exact h.said r' hr' hdecided
  · intro id' decision' resolvedBy' hsaid hdecided
    rw [lastSaid_snoc] at hsaid
    simp only at hsaid
    rw [hpending]
    split at hsaid
    · rename_i hid
      cases hsaid
      have hchange : change' r₀ = resolvedTo decision resolvedBy nowMs r₀ := if_pos hid₀
      refine ⟨_, List.mem_map_of_mem hr₀, by rw [hsame, hid₀, hid], ?_⟩
      rw [hchange]
      unfold resolvedTo
      rw [if_pos hdecided]
      exact ⟨rfl, rfl⟩
    · rename_i hid
      obtain ⟨r, hr, hrid, hsays⟩ := h.kept id' decision' resolvedBy' hsaid hdecided
      have hchange : change' r = r := if_neg (by rw [hrid]; exact hid)
      exact ⟨_, List.mem_map_of_mem hr, by rw [hsame, hrid], by rw [hchange]; exact hsays⟩

theorem Said.step (h : Said tr w) (hmove : GateMove w act w') : Said (tr ++ [⟨t, act⟩]) w' := by
  cases hmove with
  | still hgate hminted hact _ =>
      refine ⟨hgate ▸ h.apart, ?_, ?_, ?_, ?_⟩
      · rw [hgate, hminted]
        exact h.minted
      · intro id
        rw [lastSaid_other hact, hminted]
        exact h.asked id
      · intro r hr hdecided
        rw [lastSaid_other hact]
        exact h.said r (hgate ▸ hr) hdecided
      · intro id decision resolvedBy
        rw [lastSaid_other hact, hgate]
        exact h.kept id decision resolvedBy
  | waited hgate hminted _ =>
      refine ⟨hgate ▸ h.apart, ?_, ?_, ?_, ?_⟩
      · rw [hgate, hminted]
        exact h.minted
      · intro id
        rw [lastSaid_other (by simp), hminted]
        exact h.asked id
      · intro r hr hdecided
        rw [lastSaid_other (by simp)]
        exact h.said r (hgate ▸ hr) hdecided
      · intro id decision resolvedBy
        rw [lastSaid_other (by simp), hgate]
        exact h.kept id decision resolvedBy
  | resolved hi => exact h.resolve hi
  | @requested id tool args nowMs hfresh =>
      refine ⟨?_, ?_, ?_, ?_, ?_⟩
      · show ((w.gate.pending ++ [_]).map ApprovalRequest.id).Nodup
        rw [List.map_append, List.nodup_append]
        refine ⟨h.apart, by simp, ?_⟩
        intro a ha b hb
        obtain ⟨r, hr, rfl⟩ := List.mem_map.mp ha
        cases List.mem_singleton.mp hb
        intro heq
        have hknown := h.minted r hr
        rw [show r.id = id from heq] at hknown
        exact hfresh hknown
      · intro r hr
        rcases List.mem_append.mp hr with hr | hr
        · exact List.mem_cons_of_mem _ (h.minted r hr)
        · cases List.mem_singleton.mp hr
          exact List.mem_cons_self
      · intro id hsaid
        rw [lastSaid_other (by simp)] at hsaid
        exact List.mem_cons_of_mem _ (h.asked id hsaid)
      · intro r hr hdecided
        rw [lastSaid_other (by simp)]
        rcases List.mem_append.mp hr with hr | hr
        · exact h.said r hr hdecided
        · cases List.mem_singleton.mp hr
          exact absurd rfl hdecided
      · intro id decision resolvedBy hsaid hdecided
        rw [lastSaid_other (by simp)] at hsaid
        obtain ⟨r, hr, hsays⟩ := h.kept id decision resolvedBy hsaid hdecided
        exact ⟨r, List.mem_append_left _ hr, hsays⟩
  | @swept nowMs _ hgate hminted =>
      have hsub : ∀ r ∈ w'.gate.pending, r ∈ w.gate.pending := by
        rw [hgate]
        exact fun r hr => (List.mem_filter.mp hr).1
      refine ⟨?_, ?_, ?_, ?_, ?_⟩
      · rw [hgate]
        exact h.apart.sublist (List.filter_sublist.map _)
      · rw [hminted]
        exact fun r hr => h.minted r (hsub r hr)
      · intro id
        rw [lastSaid_other (by simp), hminted]
        exact h.asked id
      · intro r hr hdecided
        rw [lastSaid_other (by simp)]
        exact h.said r (hsub r hr) hdecided
      · intro id decision resolvedBy hsaid hdecided
        rw [lastSaid_other (by simp)] at hsaid
        obtain ⟨r, hr, hid, hdecision, hby⟩ := h.kept id decision resolvedBy hsaid hdecided
        refine ⟨r, ?_, hid, hdecision, hby⟩
        rw [hgate]
        exact List.mem_filter.mpr ⟨hr, by simp [hdecision, hdecided]⟩

theorem said_of_run (run : Runs ApprovalWorld.Step (.init policy) tr w) : Said tr w := by
  induction run with
  | nil =>
      refine ⟨List.nodup_nil, ?_, fun _ hsaid => absurd rfl hsaid, ?_, by rintro _ _ _ ⟨⟩⟩
      · rintro r hr
        cases hr
      · rintro r hr
        cases hr
  | snoc _ hstep ih => exact ih.step (gateMove_of_step hstep)

/-- **A wait ends with the decision that was given last.** In every interleaving, a wait that
ends (it may also run out of time, or be told that there is no such request) ends with a
decision if and only if the last resolution of its request gave this decision, and not
`pending`: what was decided is never dropped, and nothing else is ever taken for decided. -/
theorem waited_iff {outcome : WaitOutcome} (run : Runs ApprovalWorld.Step (.init policy)
      (before ++ ⟨t, .waited id outcome⟩ :: after) w)
    (decision : ApprovalDecision) (resolvedBy : Option String) :
    outcome = .decided decision resolvedBy ↔
      decision ≠ .pending ∧ lastSaid id before = some (decision, resolvedBy) := by
  obtain ⟨u, u', hbefore, hstep⟩ := run.step_at
  have hsaid := said_of_run hbefore
  have hmove := gateMove_of_step hstep
  cases hmove with
  | still _ _ _ hwaited => exact absurd rfl (hwaited _ _)
  | waited _ _ hiff =>
      rw [hiff]
      constructor
      · rintro ⟨r, hr, hdecided, rfl, rfl⟩
        have hid : r.id = id := by simpa using List.find?_some hr
        refine ⟨hdecided, ?_⟩
        rw [← hid]
        exact hsaid.said r (List.mem_of_find?_eq_some hr) hdecided
      · rintro ⟨hdecided, hlast⟩
        obtain ⟨r, hr, hid, rfl, rfl⟩ := hsaid.kept id decision resolvedBy hlast hdecided
        cases hfind : u.gate.pending.find? (·.id = id) with
        | none =>
            have hno := List.find?_eq_none.mp hfind r hr
            exact absurd hid (by simpa using hno)
        | some r' =>
            have hid' : r'.id = id := by simpa using List.find?_some hfind
            have hsame : r' = r := List.inj_on_of_nodup_map hsaid.apart
              (List.mem_of_find?_eq_some hfind) hr (hid'.trans hid.symm)
            exact ⟨r, by rw [hsame], hdecided, rfl, rfl⟩

/-- A request is allowed, and denied before the wait looks again. -/
def approvalTurns : List ApprovalTurn :=
  [.request 0 (some "bash") "ls" 0 "request-1", .wait 1 (some "request-1") none 0, .run 1 0 0,
    .resolve 2 (ResolveParams.approving ⟨some "request-1", none, some "owner"⟩) 10,
    .resolve 3 ⟨some "request-1", some " Deny ", some "admin"⟩ 20, .list 4 400000,
    .run 1 400000 250]

theorem approvalTurns_run :
    (exec ApprovalWorld.next (.init .default) approvalTurns).isSome = true := by
  decide

theorem waited_iff_sample :
    ∃ before w, Runs ApprovalWorld.Step (.init .default)
        (before ++ ⟨1, .waited "request-1" (.decided .denied (some "admin"))⟩ :: []) w ∧
      lastSaid "request-1" before = some (.denied, some "admin") := by
  have hrun := runs_of_exec_isSome approvalTurns approvalTurns_run
  have hsplit : ((exec ApprovalWorld.next (.init .default) approvalTurns).get
        approvalTurns_run).1 =
      ((exec ApprovalWorld.next (.init .default) approvalTurns).get
        approvalTurns_run).1.take 6 ++
        ⟨1, .waited "request-1" (.decided .denied (some "admin"))⟩ :: [] := by
    decide
  rw [hsplit] at hrun
  exact ⟨_, _, hrun, ((waited_iff hrun .denied (some "admin")).mp rfl).2⟩

end Waits

end Oclaw.Gateway.Approvals
