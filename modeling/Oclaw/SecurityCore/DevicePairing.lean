import Mathlib.Data.Finset.Insert
import Mathlib.Data.Fintype.Defs
import Oclaw.Lib.HashMap
import Oclaw.Lib.RwLock

/-!
# Device pairing

`DevicePairingManager` of `crates/security-core/src/device_pairing.rs`: three locks, and
every method as the program of its lock acquisitions, guard drops and the code between
them. A guard that goes out of scope is dropped in the reverse order of declaration. The
clock and the file are changed by the environment; codes, ids and tokens are drawn by
the caller of a method and must not have been drawn before.
-/

namespace Oclaw.SecurityCore.DevicePairing

open Oclaw.Lib (HashMap Mode Prog Service Sys)

/-! ## §1  Data -/

def codeExpirySecs : Int := 300

structure PendingCode : Type where
  code : String
  deviceName : Option String
  createdAt : Int
  expiresAt : Int

structure PairedDevice : Type where
  deviceId : String
  deviceName : String
  token : String
  pairedAt : Int
  lastSeen : Option Int
deriving DecidableEq

inductive DevicePairingError : Type where
  | invalidCode
  | codeExpired
  | deviceNotFound

def DevicePairingError.text : DevicePairingError → String
  | .invalidCode => "Invalid pairing code"
  | .codeExpired => "Pairing code expired"
  | .deviceNotFound => "Device not found"

/-- The file at `persist_path`, if there is such a path: absent, not readable as a device
store, or with its devices; and whether its directory and the file can be written. -/
structure Disk : Type where
  persistPath : Bool
  file : Option (Except String (List PairedDevice))
  dirOk : Bool
  fileOk : Bool

def Disk.write (disk : Disk) (devices : List PairedDevice) : Disk :=
  if disk.fileOk then { disk with file := some (.ok devices) } else disk

/-- What happened to codes, devices and tokens, oldest first. -/
inductive Event : Type where
  | issued (p : PendingCode)
  | paired (code : String) (d : PairedDevice)
  | accepted (token deviceId : String)
  | revoked (d : PairedDevice)

structure Data : Type where
  pending : HashMap String PendingCode
  devices : List PairedDevice
  tokenIndex : HashMap String ℕ
  disk : Disk
  now : Int
  codes : List String
  ids : List String
  tokens : List String
  log : List Event

inductive Loc : Type where
  | pending
  | devices
  | tokenIndex
deriving DecidableEq

instance instFintypeLoc : Fintype Loc where
  elems := {.pending, .devices, .tokenIndex}
  complete l := by cases l <;> decide

inductive Reply : Type where
  | loaded (r : Except String Unit)
  | code (code : String)
  | verified (r : Except DevicePairingError PairedDevice)
  | validated (deviceId : Option String)
  | touched
  | listed (devices : List PairedDevice)
  | revoked (r : Except DevicePairingError Unit)
  | cleaned

/-- The code between two lock operations, with its local variables. -/
inductive Act : Type where
  | loadRead
  | loadStore (devices : List PairedDevice)
  | saveCheck (r : Reply)
  | saveWrite (r : Reply)
  | generateClock (code : String) (deviceName : Option String)
  | generateInsert (p : PendingCode)
  | verifyTake (code deviceId token : String)
  | verifyPush (code : String) (d : PairedDevice)
  | verifyIndex (d : PairedDevice) (idx : ℕ)
  | validateLookup (token : String)
  | validateRead (token : String) (idx : ℕ)
  | touchLookup (token : String)
  | touchWrite (token : String) (idx : ℕ)
  | list
  | revokeRemove (deviceId : String)
  | revokeIndex (removed : PairedDevice)
  | cleanupClock
  | cleanupRetain (now : Int)

abbrev Code : Type := Prog Loc Act Reply

/-- The public methods; the random values that a method draws are arguments. -/
inductive Call : Type where
  | load
  | generateCode (code : String) (deviceName : Option String)
  | verifyCode (code deviceId token : String)
  | validateToken (token : String)
  | touch (token : String)
  | listDevices
  | revokeDevice (deviceId : String)
  | cleanupExpiredCodes
deriving DecidableEq

inductive Env : Type where
  | clock (now : Int)
  | disk (file : Option (Except String (List PairedDevice))) (dirOk fileOk : Bool)

/-! ## §2  The methods -/

/-- `index.clear()`, then every token with the position of its device. -/
def indexOf (devices : List PairedDevice) : HashMap String ℕ :=
  HashMap.ofEntries (devices.zipIdx.map (fun e => (e.1.token, e.2)))

/-- Where the methods start. -/
def enter (c : Call) (d : Data) : Option (Data × Code) :=
  match c with
  | .load => some (d, .act .loadRead)
  | .generateCode code deviceName =>
      if code ∈ d.codes then none
      else some ({ d with codes := code :: d.codes }, .act (.generateClock code deviceName))
  | .verifyCode code deviceId token =>
      if deviceId ∈ d.ids ∨ token ∈ d.tokens then none
      else some ({ d with ids := deviceId :: d.ids, tokens := token :: d.tokens },
        .lock .pending .write (.act (.verifyTake code deviceId token)))
  | .validateToken token => some (d, .lock .tokenIndex .read (.act (.validateLookup token)))
  | .touch token => some (d, .lock .tokenIndex .read (.act (.touchLookup token)))
  | .listDevices => some (d, .lock .devices .read (.act .list))
  | .revokeDevice deviceId => some (d, .lock .devices .write (.act (.revokeRemove deviceId)))
  | .cleanupExpiredCodes => some (d, .act .cleanupClock)

def exec (a : Act) (d : Data) : Data × Code :=
  match a with
  -- load
  | .loadRead =>
      if d.disk.persistPath then
        match d.disk.file with
        | none => (d, .halt (.loaded (.ok ())))
        | some (.error e) => (d, .halt (.loaded (.error e)))
        | some (.ok devices) =>
            (d, .lock .devices .write (.lock .tokenIndex .write (.act (.loadStore devices))))
      else (d, .halt (.loaded (.ok ())))
  | .loadStore devices =>
      ({ d with devices := devices, tokenIndex := indexOf devices },
        .unlock .tokenIndex .write (.unlock .devices .write (.halt (.loaded (.ok ())))))
  -- save, called at the end of verify_code and revoke_device; its result is dropped
  | .saveCheck r =>
      if d.disk.persistPath ∧ d.disk.dirOk then (d, .lock .devices .read (.act (.saveWrite r)))
      else (d, .halt r)
  | .saveWrite r =>
      ({ d with disk := d.disk.write d.devices }, .unlock .devices .read (.halt r))
  -- generate_code
  | .generateClock code deviceName =>
      (d, .lock .pending .write (.act (.generateInsert
        ⟨code, deviceName, d.now, d.now + codeExpirySecs⟩)))
  | .generateInsert p =>
      ({ d with pending := d.pending.insert p.code p, log := d.log ++ [.issued p] },
        .unlock .pending .write (.halt (.code p.code)))
  -- verify_code
  | .verifyTake code deviceId token =>
      match d.pending.lookup code with
      | none => (d, .unlock .pending .write (.halt (.verified (.error .invalidCode))))
      | some p =>
          let d' := { d with pending := d.pending.erase code }
          if p.expiresAt < d.now then
            (d', .unlock .pending .write (.halt (.verified (.error .codeExpired))))
          else
            (d', .unlock .pending .write (.lock .devices .write (.act (.verifyPush code
              ⟨deviceId, p.deviceName.getD "Unknown Device", token, d.now, some d.now⟩))))
  | .verifyPush code dev =>
      ({ d with devices := d.devices ++ [dev], log := d.log ++ [.paired code dev] },
        .lock .tokenIndex .write (.act (.verifyIndex dev d.devices.length)))
  | .verifyIndex dev idx =>
      ({ d with tokenIndex := d.tokenIndex.insert dev.token idx },
        .unlock .devices .write (.unlock .tokenIndex .write (.act (.saveCheck
          (.verified (.ok dev))))))
  -- validate_token
  | .validateLookup token =>
      match d.tokenIndex.lookup token with
      | none => (d, .unlock .tokenIndex .read (.halt (.validated none)))
      | some idx => (d, .lock .devices .read (.act (.validateRead token idx)))
  | .validateRead token idx =>
      match d.devices[idx]? with
      | none =>
          (d, .unlock .devices .read (.unlock .tokenIndex .read (.halt (.validated none))))
      | some dev =>
          ({ d with log := d.log ++ [.accepted token dev.deviceId] },
            .unlock .devices .read (.unlock .tokenIndex .read
              (.halt (.validated (some dev.deviceId)))))
  -- touch
  | .touchLookup token =>
      match d.tokenIndex.lookup token with
      | none => (d, .unlock .tokenIndex .read (.halt .touched))
      | some idx =>
          (d, .unlock .tokenIndex .read (.lock .devices .write (.act (.touchWrite token idx))))
  | .touchWrite _ idx =>
      ({ d with devices := d.devices.modify idx (fun dev => { dev with lastSeen := some d.now }) },
        .unlock .devices .write (.halt .touched))
  -- list_devices
  | .list => (d, .unlock .devices .read (.halt (.listed d.devices)))
  -- revoke_device
  | .revokeRemove deviceId =>
      match d.devices.find? (fun dev => dev.deviceId == deviceId) with
      | none => (d, .unlock .devices .write (.halt (.revoked (.error .deviceNotFound))))
      | some removed =>
          ({ d with
            devices := d.devices.eraseP (fun dev => dev.deviceId == deviceId)
            log := d.log ++ [.revoked removed] },
            .lock .tokenIndex .write (.act (.revokeIndex removed)))
  | .revokeIndex _ =>
      ({ d with tokenIndex := indexOf d.devices },
        .unlock .devices .write (.unlock .tokenIndex .write (.act (.saveCheck
          (.revoked (.ok ()))))))
  -- cleanup_expired_codes
  | .cleanupClock => (d, .lock .pending .write (.act (.cleanupRetain d.now)))
  | .cleanupRetain now =>
      ({ d with pending := HashMap.retain (fun _ p => decide (now < p.expiresAt)) d.pending },
        .unlock .pending .write (.halt .cleaned))

def env : Env → Data → Data
  | .clock now, d => { d with now := now }
  | .disk file dirOk fileOk, d => { d with disk := ⟨d.disk.persistPath, file, dirOk, fileOk⟩ }

/-! ## §3  The service -/

/-- The guards that are alive while an action runs. -/
def held : Act → Loc → Option Mode
  | .loadStore _, .devices | .loadStore _, .tokenIndex => some .write
  | .saveWrite _, .devices => some .read
  | .generateInsert _, .pending | .verifyTake _ _ _, .pending => some .write
  | .verifyPush _ _, .devices => some .write
  | .verifyIndex _ _, .devices | .verifyIndex _ _, .tokenIndex => some .write
  | .validateLookup _, .tokenIndex => some .read
  | .validateRead _ _, .tokenIndex | .validateRead _ _, .devices => some .read
  | .touchLookup _, .tokenIndex => some .read
  | .touchWrite _ _, .devices => some .write
  | .list, .devices => some .read
  | .revokeRemove _, .devices => some .write
  | .revokeIndex _, .devices | .revokeIndex _, .tokenIndex => some .write
  | .cleanupRetain _, .pending => some .write
  | _, _ => none

/-- The guards that were taken before the action before. -/
def pins : Act → Loc → Option Mode
  | .verifyIndex _ _, .devices | .revokeIndex _, .devices => some .write
  | .validateRead _ _, .tokenIndex => some .read
  | _, _ => none

/-- Which lock is taken inside which. -/
def nests (l l' : Loc) : Prop :=
  (l = .devices ∧ l' = .tokenIndex) ∨ (l = .tokenIndex ∧ l' = .devices)

theorem Loc.forall_iff {φ : Loc → Prop} :
    (∀ l, φ l) ↔ φ .pending ∧ φ .devices ∧ φ .tokenIndex :=
  ⟨fun h => ⟨h _, h _, h _⟩, fun ⟨h₁, h₂, h₃⟩ l => by cases l <;> assumption⟩

theorem enter_wf {c : Call} {d d' : Data} {p : Code} (h : enter c d = some (d', p)) :
    p.Wf held pins nests ∧ p.guards held = fun _ => none := by
  revert h
  fun_cases enter c d
  all_goals
    rintro ⟨⟩
    try refine ⟨?_, by funext l; cases l <;> rfl⟩
    try simp [Prog.Wf, Prog.guards, Prog.focus, Loc.forall_iff, held, pins, nests]

theorem exec_wf (a : Act) (d : Data) :
    (exec a d).2.Wf held pins nests ∧ (exec a d).2.guards held = held a := by
  fun_cases exec a d
  all_goals
    refine ⟨?_, by funext l; cases l <;> rfl⟩
    simp [Prog.Wf, Prog.guards, Prog.focus, Loc.forall_iff, held, pins, nests]

/-- The manager, with or without a file. -/
def devicePairing (persistPath : Bool) : Service Loc Act Reply Call Env Data where
  init := ⟨∅, [], ∅, ⟨persistPath, none, true, true⟩, 0, [], [], [], []⟩
  enter := enter
  exec := exec
  env := env
  held := held
  pins := pins
  nests := nests
  pins_held {a l m} h := by
    cases a <;> cases l <;> simp [pins, held] at h ⊢ <;> exact h
  enter_wf := enter_wf
  exec_wf := exec_wf

end Oclaw.SecurityCore.DevicePairing
