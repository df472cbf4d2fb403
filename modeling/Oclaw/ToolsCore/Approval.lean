import Mathlib.Data.List.Basic

/-!
# The approval gate

`crates/tools-core/src/approval.rs`: the verdict on a tool and the request for an
approval, which the agent uses, and the operations with which requests are resolved and
listed. Pending requests expire when requests are listed.
-/

namespace Oclaw.ToolsCore

structure ApprovalPolicy : Type where
  requireApproval : List String
  autoApprove : List String
  deny : List String
deriving DecidableEq

def ApprovalPolicy.default : ApprovalPolicy := ⟨["bash", "write_file"], [], []⟩

inductive ApprovalDecision : Type where
  | approved
  | denied
  | pending
deriving DecidableEq

structure ApprovalRequest : Type where
  id : String
  tool : String
  argumentsSummary : String
  decision : ApprovalDecision
  createdAtMs : ℕ
  resolvedAtMs : Option ℕ
  resolvedBy : Option String
deriving DecidableEq

structure ApprovalGate : Type where
  policy : ApprovalPolicy
  pending : List ApprovalRequest
  autoApproveAll : Bool
deriving DecidableEq

namespace ApprovalGate

def new (policy : ApprovalPolicy) : ApprovalGate := ⟨policy, [], false⟩

def autoApprove (g : ApprovalGate) : ApprovalGate := { g with autoApproveAll := true }

/-- The two ways in which `build_approval_gate` makes a gate. -/
def ofPolicy (policy : ApprovalPolicy) (auto : Bool) : ApprovalGate :=
  if auto then (new policy).autoApprove else new policy

@[simp] theorem ofPolicy_policy (policy : ApprovalPolicy) (auto : Bool) :
    (ofPolicy policy auto).policy = policy := by
  cases auto <;> rfl

def check (g : ApprovalGate) (toolName : String) : ApprovalDecision :=
  if toolName ∈ g.policy.deny then .denied
  else if g.autoApproveAll ∨ toolName ∈ g.policy.autoApprove then .approved
  else if toolName ∈ g.policy.requireApproval then .pending
  else .approved

/-- The clock reading and the fresh request id come from outside. -/
def requestApproval (g : ApprovalGate) (tool args : String) (nowMs : ℕ) (id : String) :
    ApprovalRequest × ApprovalGate :=
  let req : ApprovalRequest :=
    { id := id
      tool := tool
      argumentsSummary := String.ofList (args.toList.take 200)
      decision := .pending
      createdAtMs := nowMs
      resolvedAtMs := none
      resolvedBy := none }
  (req, { g with pending := g.pending ++ [req] })

/-- The first request with the id gets the decision; says whether there is one. -/
def resolve (g : ApprovalGate) (id : String) (decision : ApprovalDecision)
    (resolvedBy : Option String) (nowMs : ℕ) : Bool × ApprovalGate :=
  match g.pending.findIdx? (·.id = id) with
  | none => (false, g)
  | some i =>
      (true, { g with
        pending := g.pending.modify i (fun r =>
          if decision ≠ .pending then
            { r with
              decision := decision
              resolvedAtMs := some nowMs
              resolvedBy := resolvedBy }
          else { r with decision := decision, resolvedAtMs := none, resolvedBy := none }) })

def approve (g : ApprovalGate) (id : String) (nowMs : ℕ) : Bool × ApprovalGate :=
  g.resolve id .approved none nowMs

def deny (g : ApprovalGate) (id : String) (nowMs : ℕ) : Bool × ApprovalGate :=
  g.resolve id .denied none nowMs

/-- Five minutes. -/
def approvalTtlMs : ℕ := 5 * 60 * 1000

def evictExpiredPending (g : ApprovalGate) (nowMs : ℕ) : ApprovalGate :=
  { g with
    pending := g.pending.filter (fun r =>
      r.decision ≠ .pending || nowMs - r.createdAtMs < approvalTtlMs) }

def getRequest (g : ApprovalGate) (id : String) (nowMs : ℕ) :
    Option ApprovalRequest × ApprovalGate :=
  let g := g.evictExpiredPending nowMs
  (g.pending.find? (·.id = id), g)

def listRequests (g : ApprovalGate) (nowMs : ℕ) : List ApprovalRequest × ApprovalGate :=
  let g := g.evictExpiredPending nowMs
  (g.pending, g)

def pendingRequests (g : ApprovalGate) (nowMs : ℕ) : List ApprovalRequest × ApprovalGate :=
  let g := g.evictExpiredPending nowMs
  (g.pending.filter (·.decision = .pending), g)

/-- The gates that differ in their requests only. -/
def SameRules (g g' : ApprovalGate) : Prop :=
  g'.policy = g.policy ∧ g'.autoApproveAll = g.autoApproveAll

variable {g g' : ApprovalGate} {toolName : String}

/-- The verdict on a tool looks at the rules alone. -/
theorem SameRules.check (h : SameRules g g') : g'.check toolName = g.check toolName := by
  rw [ApprovalGate.check, ApprovalGate.check, h.1, h.2]

theorem SameRules.trans {g'' : ApprovalGate} (h : SameRules g g') (h' : SameRules g' g'') :
    SameRules g g'' :=
  ⟨h'.1.trans h.1, h'.2.trans h.2⟩

theorem sameRules_resolve (g : ApprovalGate) (id : String) (decision : ApprovalDecision)
    (resolvedBy : Option String) (nowMs : ℕ) :
    SameRules g (g.resolve id decision resolvedBy nowMs).2 := by
  rw [resolve]
  split <;> exact ⟨rfl, rfl⟩

end ApprovalGate

end Oclaw.ToolsCore
