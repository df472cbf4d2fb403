import Oclaw.SecurityCore.DevicePairing
import Oclaw.SecurityCore.Pairing
import Oclaw.SecurityCore.Session

/-!
# Lock orders of the managers

Each of the three managers takes its locks in one order, but for one method that reads
them in the other: `validate_token`, `list_user_sessions` and the pairing manager's
`verify_code`. Two calls deadlock if each is between the two locks in its own order, and
only then.
-/

namespace Oclaw.SecurityCore

open Oclaw.Lib

variable {persistPath : Bool} {timeoutSecs : ℕ} {requestSecs : Int}

/-! ## §1  Orders of the locks -/

theorem devicePairing_not_deadlock
    {s : Sys DevicePairing.Loc DevicePairing.Act DevicePairing.Reply DevicePairing.Data}
    (h : Agrees (DevicePairing.devicePairing persistPath) s) (hcross : ¬ s.Crossed) :
    ¬ s.Deadlock :=
  h.not_deadlock_of_pair (x := .devices) (y := .tokenIndex) (by decide) (fun _ _ hl => hl) hcross

theorem sessionManager_not_deadlock {s : Sys Session.Loc Session.Act Session.Reply Session.Data}
    (h : Agrees (Session.sessionManager timeoutSecs) s) (hcross : ¬ s.Crossed) :
    ¬ s.Deadlock :=
  h.not_deadlock_of_pair (x := .sessions) (y := .userSessions) (by decide) (fun _ _ hl => hl)
    hcross

/-- `approve_request` takes the pairings inside the requests, where nothing is taken. -/
theorem pairingManager_not_deadlock {s : Sys Pairing.Loc Pairing.Act Pairing.Reply Pairing.Data}
    (h : Agrees (Pairing.pairingManager requestSecs) s) (hcross : ¬ s.Crossed) :
    ¬ s.Deadlock := by
  refine h.not_deadlock_of_not_crossed (x := .codeStore) (y := .requests)
    (fun l => if l = .requests then 1 else 0)
    (fun l => if l = .codeStore then 2 else if l = .requests then 1 else 0) ?_ ?_ hcross
  · rintro l l' (⟨rfl, rfl | rfl⟩ | ⟨rfl, rfl⟩)
    · exact Or.inr (by decide)
    · exact Or.inr (by decide)
    · exact Or.inl ⟨rfl, rfl⟩
  · rintro l l' (⟨rfl, rfl | rfl⟩ | ⟨rfl, rfl⟩)
    · exact Or.inl ⟨rfl, rfl⟩
    · exact Or.inr (by decide)
    · exact Or.inr (by decide)

/-! ## §2  Runs -/

/-- A run whose turns keep the order reaches only states in which the locks agree with
the programs and no two calls have crossed. -/
theorem reached_of_runs {L A R C E D : Type} [DecidableEq L] {svc : Service L A R C E D}
    {tr : List (Turn C E)} {s : Sys L A R D}
    (run : Runs (StepWhere svc.Step svc.KeepsOrder) svc.start tr s) :
    Agrees svc s ∧ ¬ s.Crossed :=
  ⟨agrees_of_runs agrees_start (run.mono fun _ _ _ _ h => h.1), Service.not_crossed_of_runs run⟩

/-- No deadlock in any of the managers, as long as no two calls are between the same two
locks in opposite orders. -/
theorem managers_deadlock_free {tr₁ tr₂ tr₃}
    {s₁ : Sys DevicePairing.Loc DevicePairing.Act DevicePairing.Reply DevicePairing.Data}
    {s₂ : Sys Session.Loc Session.Act Session.Reply Session.Data}
    {s₃ : Sys Pairing.Loc Pairing.Act Pairing.Reply Pairing.Data}
    (run₁ : Runs (StepWhere (DevicePairing.devicePairing persistPath).Step
      (DevicePairing.devicePairing persistPath).KeepsOrder)
      (DevicePairing.devicePairing persistPath).start tr₁ s₁)
    (run₂ : Runs (StepWhere (Session.sessionManager timeoutSecs).Step
      (Session.sessionManager timeoutSecs).KeepsOrder)
      (Session.sessionManager timeoutSecs).start tr₂ s₂)
    (run₃ : Runs (StepWhere (Pairing.pairingManager requestSecs).Step
      (Pairing.pairingManager requestSecs).KeepsOrder)
      (Pairing.pairingManager requestSecs).start tr₃ s₃) :
    ¬ s₁.Deadlock ∧ ¬ s₂.Deadlock ∧ ¬ s₃.Deadlock := by
  obtain ⟨hagree₁, hcross₁⟩ := reached_of_runs run₁
  obtain ⟨hagree₂, hcross₂⟩ := reached_of_runs run₂
  obtain ⟨hagree₃, hcross₃⟩ := reached_of_runs run₃
  exact ⟨devicePairing_not_deadlock hagree₁ hcross₁, sessionManager_not_deadlock hagree₂ hcross₂,
    pairingManager_not_deadlock hagree₃ hcross₃⟩

/-! ## §3  Crossed calls -/

section Inputs

open DevicePairing (Call Env) in
/-- A device is paired; its token is validated while the device is revoked. -/
def validateAgainstRevoke : List (Turn Call Env) :=
  Turn.call 0 (Call.generateCode "123456" none) :: List.replicate 6 (Turn.run 0) ++
    Turn.call 1 (Call.verifyCode "123456" "device" "dev_token") ::
    List.replicate 14 (Turn.run 1) ++
    [.call 2 (.validateToken "dev_token"), .run 2, .run 2, .run 2,
      .call 3 (.revokeDevice "device"), .run 3, .run 3, .run 3, .run 3, .run 2]

def alice : Session.AuthUser := ⟨"alice", "alice", "Alice", none, none, [], "test"⟩

open Session (Call Env) in
/-- A session is created while the sessions of the user are listed. -/
def createAgainstList : List (Turn Call Env) :=
  [.call 0 (.createSession alice "token"), .run 0, .run 0, .run 0, .run 0,
    .call 1 (.listUserSessions "alice"), .run 1, .run 1, .run 0, .run 1]

open Pairing (Call Env) in
/-- A code is verified while another request is created. -/
def verifyAgainstCreate : List (Turn Call Env) :=
  Turn.call 0 (Call.createRequest "request" "ABCDEFGH" "alice" "Alice" none) ::
    List.replicate 10 (Turn.run 0) ++
    [.call 1 (.verifyCode "ABCDEFGH"), .run 1, .run 1, .run 1,
      .call 2 (.createRequest "request'" "HGFEDCBA" "bob" "Bob" none), .run 2, .run 2, .run 2,
      .run 2, .run 2, .run 1]

end Inputs

theorem managers_deadlock :
    (∃ tr s, Runs (DevicePairing.devicePairing false).Step
      (DevicePairing.devicePairing false).start tr s ∧ s.Deadlock) ∧
    (∃ tr s, Runs (Session.sessionManager 3600).Step
      (Session.sessionManager 3600).start tr s ∧ s.Deadlock) ∧
    ∃ tr s, Runs (Pairing.pairingManager 300).Step
      (Pairing.pairingManager 300).start tr s ∧ s.Deadlock := by
  refine ⟨?_, ?_, ?_⟩
  · exact Service.deadlock_of_exec validateAgainstRevoke 2 3 .tokenIndex .devices
      (by decide)
  · exact Service.deadlock_of_exec createAgainstList 0 1 .sessions .userSessions
      (by decide)
  · exact Service.deadlock_of_exec verifyAgainstCreate 1 2 .codeStore .requests
      (by decide)

/-- Without the call that crosses. -/
theorem managers_deadlock_free_in_sequence :
    ∃ tr₁ s₁ tr₂ s₂ tr₃ s₃,
      Runs (DevicePairing.devicePairing false).Step
        (DevicePairing.devicePairing false).start tr₁ s₁ ∧
      Runs (Session.sessionManager 3600).Step (Session.sessionManager 3600).start tr₂ s₂ ∧
      Runs (Pairing.pairingManager 300).Step (Pairing.pairingManager 300).start tr₃ s₃ ∧
      tr₁.length = 25 ∧ tr₂.length = 5 ∧ tr₃.length = 15 ∧
      ¬ s₁.Deadlock ∧ ¬ s₂.Deadlock ∧ ¬ s₃.Deadlock := by
  have run₁ : Runs (StepWhere (DevicePairing.devicePairing false).Step
      (DevicePairing.devicePairing false).KeepsOrder) (DevicePairing.devicePairing false).start
      _ _ :=
    runs_where_of_exec (validateAgainstRevoke.take 25) (by decide)
  have run₂ : Runs (StepWhere (Session.sessionManager 3600).Step
      (Session.sessionManager 3600).KeepsOrder) (Session.sessionManager 3600).start _ _ :=
    runs_where_of_exec (createAgainstList.take 5) (by decide)
  have run₃ : Runs (StepWhere (Pairing.pairingManager 300).Step
      (Pairing.pairingManager 300).KeepsOrder) (Pairing.pairingManager 300).start _ _ :=
    runs_where_of_exec (verifyAgainstCreate.take 15) (by decide)
  exact ⟨_, _, _, _, _, _, run₁.mono fun _ _ _ _ h => h.1, run₂.mono fun _ _ _ _ h => h.1,
    run₃.mono fun _ _ _ _ h => h.1, by decide, by decide, by decide,
    managers_deadlock_free run₁ run₂ run₃⟩

end Oclaw.SecurityCore
