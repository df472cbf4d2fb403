import Mathlib.Data.Finset.Insert
import Mathlib.Data.Fintype.Defs
import Oclaw.Lib.HashMap
import Oclaw.Lib.RwLock

/-!
# Pairing of users for direct messages

`PairingManager` of `crates/security-core/src/pairing.rs`: requests, the codes that name
them and the pairings, each map behind its own lock. Codes and ids are drawn by the
caller; the clock belongs to the environment.
-/

namespace Oclaw.SecurityCore.Pairing

open Oclaw.Lib (HashMap Mode Prog Service Sys)

/-! ## §1  Data -/

inductive PairingStatus : Type where
  | pending
  | approved
  | rejected
  | expired
  | revoked
deriving DecidableEq

structure PairingRequest : Type where
  id : String
  fromUserId : String
  fromDisplayName : String
  toUserId : Option String
  toIdentifier : Option String
  code : String
  status : PairingStatus
  createdAt : Int
  expiresAt : Int
  metadata : List (String × String)

structure DMPairing : Type where
  id : String
  userA : String
  userB : String
  createdAt : Int
  lastMessageAt : Int
  metadata : List (String × String)

inductive PairingError : Type where
  | requestNotFound
  | pairingNotFound
  | invalidCode
  | requestExpired
  | invalidStatus

def PairingError.text : PairingError → String
  | .requestNotFound => "Pairing request not found"
  | .pairingNotFound => "Pairing not found"
  | .invalidCode => "Invalid pairing code"
  | .requestExpired => "Pairing request expired"
  | .invalidStatus => "Invalid request status"

structure Data : Type where
  requests : HashMap String PairingRequest
  pairings : HashMap String DMPairing
  codeStore : HashMap String String
  timeoutSecs : Int
  now : Int

inductive Loc : Type where
  | requests
  | pairings
  | codeStore
deriving DecidableEq

instance instFintypeLoc : Fintype Loc where
  elems := {.requests, .pairings, .codeStore}
  complete l := by cases l <;> decide

inductive Reply : Type where
  | request (r : Except PairingError PairingRequest)
  | approved (r : Except PairingError DMPairing)
  | done (r : Except PairingError Unit)
  | pairing (p : Option DMPairing)
  | pairings (ps : List DMPairing)

/-- The code between two lock operations, with its local variables. -/
inductive Act : Type where
  | createClock (id code fromUserId fromDisplayName : String) (toIdentifier : Option String)
  | createInsert (r : PairingRequest)
  | createCode (r : PairingRequest)
  | approveUpdate (requestId toUserId pairingId : String)
  | approveInsert (p : DMPairing)
  | rejectUpdate (requestId : String)
  | verifyLookup (code : String)
  | verifyRead (requestId : String)
  | getPairing (userA userB : String)
  | listPairings (userId : String)
  | removePairing (pairingId : String)
  | cleanupClock (order : List String)
  | cleanupCollect (order : List String) (now : Int)
  | cleanupRemove (id : String) (rest : List String)
  | cleanupCode (code : String) (rest : List String)

abbrev Code : Type := Prog Loc Act Reply

/-- The public methods. The random values that a method draws are arguments; `order` is
the order in which the map of the requests is iterated. -/
inductive Call : Type where
  | createRequest (id code fromUserId fromDisplayName : String) (toIdentifier : Option String)
  | approveRequest (requestId toUserId pairingId : String)
  | rejectRequest (requestId : String)
  | verifyCode (code : String)
  | getPairing (userA userB : String)
  | listUserPairings (userId : String)
  | removePairing (pairingId : String)
  | cleanupExpired (order : List String)

/-- The clock. -/
abbrev Env : Type := Int

/-! ## §2  The methods -/

def enter (c : Call) (d : Data) : Option (Data × Code) :=
  match c with
  | .createRequest id code fromUserId fromDisplayName toIdentifier =>
      some (d, .act (.createClock id code fromUserId fromDisplayName toIdentifier))
  | .approveRequest requestId toUserId pairingId =>
      some (d, .lock .requests .write (.act (.approveUpdate requestId toUserId pairingId)))
  | .rejectRequest requestId => some (d, .lock .requests .write (.act (.rejectUpdate requestId)))
  | .verifyCode code => some (d, .lock .codeStore .read (.act (.verifyLookup code)))
  | .getPairing userA userB => some (d, .lock .pairings .read (.act (.getPairing userA userB)))
  | .listUserPairings userId => some (d, .lock .pairings .read (.act (.listPairings userId)))
  | .removePairing pairingId => some (d, .lock .pairings .write (.act (.removePairing pairingId)))
  | .cleanupExpired order => some (d, .act (.cleanupClock order))

/-- The requests that `cleanup_expired` drops, in iteration order. -/
def expiredIds (d : Data) (order : List String) (now : Int) : List String :=
  let expired := d.requests.keys.filter (fun id =>
    (d.requests.lookup id).any (fun r => decide (r.expiresAt < now ∨ r.status = .expired)))
  order.dedup.filter (· ∈ expired) ++ expired.filter (· ∉ order)

/-- What `verify_code` says about the request that a code names. -/
def Data.verdict (d : Data) (requestId : String) : Except PairingError PairingRequest :=
  match d.requests.lookup requestId with
  | none => .error .requestNotFound
  | some r =>
      if r.expiresAt < d.now then .error .requestExpired
      else if r.status ≠ .pending then .error .invalidStatus
      else .ok r

/-- The next turn of the loop of `cleanup_expired`. -/
def cleanupLoop : List String → Code
  | [] => .unlock .requests .write (.halt (.done (.ok ())))
  | id :: rest => .act (.cleanupRemove id rest)

def exec (a : Act) (d : Data) : Data × Code :=
  match a with
  -- create_request
  | .createClock id code fromUserId fromDisplayName toIdentifier =>
      (d, .lock .requests .write (.act (.createInsert ⟨id, fromUserId, fromDisplayName, none,
        toIdentifier, code, .pending, d.now, d.now + d.timeoutSecs, []⟩)))
  | .createInsert r =>
      ({ d with requests := d.requests.insert r.id r },
        .lock .codeStore .write (.act (.createCode r)))
  | .createCode r =>
      ({ d with codeStore := d.codeStore.insert r.code r.id },
        .unlock .codeStore .write (.unlock .requests .write (.halt (.request (.ok r)))))
  -- approve_request
  | .approveUpdate requestId toUserId pairingId =>
      match d.requests.lookup requestId with
      | none => (d, .unlock .requests .write (.halt (.approved (.error .requestNotFound))))
      | some r =>
          if r.status ≠ .pending then
            (d, .unlock .requests .write (.halt (.approved (.error .invalidStatus))))
          else if r.expiresAt < d.now then
            ({ d with requests := d.requests.insert requestId { r with status := .expired } },
              .unlock .requests .write (.halt (.approved (.error .requestExpired))))
          else
            ({ d with
              requests := d.requests.insert requestId
                { r with status := .approved, toUserId := some toUserId } },
              .lock .pairings .write (.act (.approveInsert
                ⟨pairingId, r.fromUserId, toUserId, d.now, d.now, r.metadata⟩)))
  | .approveInsert p =>
      ({ d with pairings := d.pairings.insert p.id p },
        .unlock .pairings .write (.unlock .requests .write (.halt (.approved (.ok p)))))
  -- reject_request
  | .rejectUpdate requestId =>
      match d.requests.lookup requestId with
      | none => (d, .unlock .requests .write (.halt (.done (.error .requestNotFound))))
      | some r =>
          if r.status ≠ .pending then
            (d, .unlock .requests .write (.halt (.done (.error .invalidStatus))))
          else
            ({ d with requests := d.requests.insert requestId { r with status := .rejected } },
              .unlock .requests .write (.halt (.done (.ok ()))))
  -- verify_code
  | .verifyLookup code =>
      match d.codeStore.lookup code with
      | none => (d, .unlock .codeStore .read (.halt (.request (.error .invalidCode))))
      | some requestId => (d, .lock .requests .read (.act (.verifyRead requestId)))
  | .verifyRead requestId =>
      (d, .unlock .requests .read (.unlock .codeStore .read
        (.halt (.request (d.verdict requestId)))))
  -- the pairings
  | .getPairing userA userB =>
      (d, .unlock .pairings .read (.halt (.pairing ((d.pairings.entries.map (·.2)).find?
        (fun p => (p.userA == userA && p.userB == userB) ||
          (p.userA == userB && p.userB == userA))))))
  | .listPairings userId =>
      (d, .unlock .pairings .read (.halt (.pairings ((d.pairings.entries.map (·.2)).filter
        (fun p => p.userA == userId || p.userB == userId)))))
  | .removePairing pairingId =>
      if pairingId ∈ d.pairings then
        ({ d with pairings := d.pairings.erase pairingId },
          .unlock .pairings .write (.halt (.done (.ok ()))))
      else (d, .unlock .pairings .write (.halt (.done (.error .pairingNotFound))))
  -- cleanup_expired
  | .cleanupClock order => (d, .lock .requests .write (.act (.cleanupCollect order d.now)))
  | .cleanupCollect order now => (d, cleanupLoop (expiredIds d order now))
  | .cleanupRemove id rest =>
      match d.requests.lookup id with
      | none => (d, cleanupLoop rest)
      | some r =>
          ({ d with requests := d.requests.erase id },
            .lock .codeStore .write (.act (.cleanupCode r.code rest)))
  | .cleanupCode code rest =>
      ({ d with codeStore := d.codeStore.erase code },
        .unlock .codeStore .write (cleanupLoop rest))

def env (now : Env) (d : Data) : Data := { d with now := now }

/-! ## §3  The service -/

/-- The guards that are alive while an action runs. -/
def held : Act → Loc → Option Mode
  | .createInsert _, .requests => some .write
  | .createCode _, .requests | .createCode _, .codeStore => some .write
  | .approveUpdate _ _ _, .requests => some .write
  | .approveInsert _, .requests | .approveInsert _, .pairings => some .write
  | .rejectUpdate _, .requests => some .write
  | .verifyLookup _, .codeStore => some .read
  | .verifyRead _, .codeStore | .verifyRead _, .requests => some .read
  | .getPairing _ _, .pairings | .listPairings _, .pairings => some .read
  | .removePairing _, .pairings => some .write
  | .cleanupCollect _ _, .requests | .cleanupRemove _ _, .requests => some .write
  | .cleanupCode _ _, .requests | .cleanupCode _ _, .codeStore => some .write
  | _, _ => none

/-- Which lock is taken inside which. -/
def nests (l l' : Loc) : Prop :=
  (l = .requests ∧ (l' = .codeStore ∨ l' = .pairings)) ∨ (l = .codeStore ∧ l' = .requests)

theorem Loc.forall_iff {φ : Loc → Prop} :
    (∀ l, φ l) ↔ φ .requests ∧ φ .pairings ∧ φ .codeStore :=
  ⟨fun h => ⟨h _, h _, h _⟩, fun ⟨h₁, h₂, h₃⟩ l => by cases l <;> assumption⟩

theorem cleanupLoop_wf (ids : List String) :
    (cleanupLoop ids).Wf held (fun _ _ => none) nests ∧
      (cleanupLoop ids).guards held = fun l => if l = .requests then some .write else none := by
  cases ids with
  | nil =>
      refine ⟨?_, by funext l; cases l <;> rfl⟩
      simp [cleanupLoop, Prog.Wf, Prog.guards]
  | cons id rest => exact ⟨trivial, by funext l; cases l <;> rfl⟩

theorem enter_wf {c : Call} {d d' : Data} {p : Code} (h : enter c d = some (d', p)) :
    p.Wf held (fun _ _ => none) nests ∧ p.guards held = fun _ => none := by
  revert h
  fun_cases enter c d
  all_goals
    rintro ⟨⟩
    refine ⟨?_, by funext l; cases l <;> rfl⟩
    try simp [Prog.Wf, Prog.guards, Loc.forall_iff, held]

theorem exec_wf (a : Act) (d : Data) :
    (exec a d).2.Wf held (fun _ _ => none) nests ∧ (exec a d).2.guards held = held a := by
  fun_cases exec a d
  all_goals
    refine ⟨?_, ?_⟩
    · simp [Prog.Wf, Prog.guards, Loc.forall_iff, held, nests, cleanupLoop_wf]
    · funext l
      cases l <;> simp [Prog.guards, held, cleanupLoop_wf]

/-- The manager with the lifetime of its requests. -/
def pairingManager (timeoutSecs : Int) : Service Loc Act Reply Call Env Data where
  init := ⟨∅, ∅, ∅, timeoutSecs, 0⟩
  enter := enter
  exec := exec
  env := env
  held := held
  pins _ _ := none
  nests := nests
  pins_held h := by cases h
  enter_wf := enter_wf
  exec_wf := exec_wf

end Oclaw.SecurityCore.Pairing
