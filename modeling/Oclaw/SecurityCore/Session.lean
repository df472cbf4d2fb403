import Mathlib.Algebra.Group.Int.Defs
import Mathlib.Algebra.Group.Nat.Defs
import Mathlib.Data.Finset.Insert
import Mathlib.Data.Fintype.Defs
import Oclaw.Lib.HashMap
import Oclaw.Lib.RwLock

/-!
# Sessions of authenticated users

`SessionManager` of `crates/security-core/src/session.rs`: the sessions by token and the
tokens by user, each map behind its own lock. The clock belongs to the environment and
tokens are drawn by the caller.
-/

namespace Oclaw.SecurityCore.Session

open Oclaw.Lib (HashMap Mode Prog Service Sys)

/-! ## §1  Data -/

structure AuthUser : Type where
  id : String
  username : String
  displayName : String
  email : Option String
  avatarUrl : Option String
  roles : List String
  provider : String

/-- The errors of `AuthError` that the manager answers with. -/
inductive AuthError : Type where
  | tokenExpired
  | tokenInvalid

def AuthError.text : AuthError → String
  | .tokenExpired => "Token expired"
  | .tokenInvalid => "Token invalid"

structure SecuritySession : Type where
  token : String
  userId : String
  username : String
  createdAt : Int
  expiresAt : Int
  lastActivity : Int
  ipAddress : Option String
  userAgent : Option String
  metadata : List (String × String)

def SecuritySession.isExpired (s : SecuritySession) (now : Int) : Bool := decide (s.expiresAt ≤ now)

/-- What `validate_session` says about the user. -/
def SecuritySession.authUser (s : SecuritySession) : AuthUser :=
  ⟨s.userId, s.username, s.username, none, none, [], "session"⟩

structure Data : Type where
  sessions : HashMap String SecuritySession
  userSessions : HashMap String (List String)
  timeoutSecs : ℕ
  now : Int
  /-- The tokens drawn so far. -/
  tokens : List String

/-- `now + self.timeout_secs as i64` -/
def Data.expiry (d : Data) : Int :=
  d.now + if d.timeoutSecs < 2 ^ 63 then (d.timeoutSecs : Int) else d.timeoutSecs - 2 ^ 64

def Data.sessionCount (d : Data) : ℕ := d.sessions.keys.length

def Data.activeUserCount (d : Data) : ℕ := d.userSessions.keys.length

inductive Loc : Type where
  | sessions
  | userSessions
deriving DecidableEq

instance instFintypeLoc : Fintype Loc where
  elems := {.sessions, .userSessions}
  complete l := by cases l <;> decide

inductive Reply : Type where
  | created (token : String)
  | validated (r : Except AuthError AuthUser)
  | refreshed (r : Except AuthError String)
  | revoked (r : Except AuthError Unit)
  | revokedAll (count : ℕ)
  | session (s : Option SecuritySession)
  | listed (sessions : List SecuritySession)
  | cleaned
  | count (n : ℕ)

/-- Who called `revoke_session`. -/
inductive After : Type where
  | revoke
  | validate
  | cleanup (rest : List String)

/-- The code between two lock operations, with its local variables. -/
inductive Act : Type where
  | createClock (user : AuthUser) (token : String)
  | createInsert (s : SecuritySession)
  | createPush (userId token : String)
  | validateRead (token : String)
  | refreshUpdate (token : String)
  | revokeRemove (token : String) (k : After)
  | revokeRetain (token userId : String) (k : After)
  | revokeAllTake (userId : String)
  | revokeAllRemove (userId : String) (tokens : List String)
  | getRead (token : String)
  | listRead (userId : String)
  | cleanupClock (order : List String)
  | cleanupCollect (order : List String) (now : Int)
  | countSessions
  | countUsers

abbrev Code : Type := Prog Loc Act Reply

/-- The public methods. `create_session` draws a token; `order` is the order in which
the map of the sessions is iterated. -/
inductive Call : Type where
  | createSession (user : AuthUser) (token : String)
  | validateSession (token : String)
  | refreshSession (token : String)
  | revokeSession (token : String)
  | revokeAllUserSessions (userId : String)
  | getSession (token : String)
  | listUserSessions (userId : String)
  | cleanupExpired (order : List String)
  | sessionCount
  | activeUserCount

/-- The clock. -/
abbrev Env : Type := Int

/-! ## §2  The methods -/

def revokeCode (token : String) (k : After) : Code :=
  .lock .sessions .write (.act (.revokeRemove token k))

/-- How the caller of `revoke_session` goes on. -/
def After.resume (r : Except AuthError Unit) : After → Code
  | .revoke => .halt (.revoked r)
  | .validate => .halt (.validated (.error .tokenExpired))
  | .cleanup [] => .halt .cleaned
  | .cleanup (token :: rest) => revokeCode token (.cleanup rest)

def enter (c : Call) (d : Data) : Option (Data × Code) :=
  match c with
  | .createSession user token =>
      if token ∈ d.tokens then none
      else some ({ d with tokens := token :: d.tokens }, .act (.createClock user token))
  | .validateSession token => some (d, .lock .sessions .read (.act (.validateRead token)))
  | .refreshSession token => some (d, .lock .sessions .write (.act (.refreshUpdate token)))
  | .revokeSession token => some (d, revokeCode token .revoke)
  | .revokeAllUserSessions userId =>
      some (d, .lock .userSessions .write (.act (.revokeAllTake userId)))
  | .getSession token => some (d, .lock .sessions .read (.act (.getRead token)))
  | .listUserSessions userId =>
      some (d, .lock .userSessions .read (.lock .sessions .read (.act (.listRead userId))))
  | .cleanupExpired order => some (d, .act (.cleanupClock order))
  | .sessionCount => some (d, .lock .sessions .read (.act .countSessions))
  | .activeUserCount => some (d, .lock .userSessions .read (.act .countUsers))

/-- The tokens of the sessions that expired before `now`, in iteration order. -/
def expiredTokens (d : Data) (order : List String) (now : Int) : List String :=
  let expired := d.sessions.keys.filter (fun token =>
    (d.sessions.lookup token).any (fun s => decide (s.expiresAt < now)))
  order.dedup.filter (· ∈ expired) ++ expired.filter (· ∉ order)

def exec (a : Act) (d : Data) : Data × Code :=
  match a with
  -- create_session
  | .createClock user token =>
      (d, .lock .sessions .write (.act (.createInsert
        ⟨token, user.id, user.username, d.now, d.expiry, d.now, none, none, []⟩)))
  | .createInsert s =>
      ({ d with sessions := d.sessions.insert s.token s },
        .lock .userSessions .write (.act (.createPush s.userId s.token)))
  | .createPush userId token =>
      ({ d with
        userSessions := d.userSessions.insert userId
          ((d.userSessions.lookup userId).getD [] ++ [token]) },
        .unlock .userSessions .write (.unlock .sessions .write (.halt (.created token))))
  -- validate_session
  | .validateRead token =>
      match d.sessions.lookup token with
      | none => (d, .unlock .sessions .read (.halt (.validated (.error .tokenInvalid))))
      | some s =>
          if s.isExpired d.now then (d, .unlock .sessions .read (revokeCode token .validate))
          else (d, .unlock .sessions .read (.halt (.validated (.ok s.authUser))))
  -- refresh_session
  | .refreshUpdate token =>
      match d.sessions.lookup token with
      | none => (d, .unlock .sessions .write (.halt (.refreshed (.error .tokenInvalid))))
      | some s =>
          if s.isExpired d.now then
            (d, .unlock .sessions .write (.halt (.refreshed (.error .tokenExpired))))
          else
            ({ d with
              sessions := d.sessions.insert token
                { s with expiresAt := d.expiry, lastActivity := d.now } },
              .unlock .sessions .write (.halt (.refreshed (.ok token))))
  -- revoke_session
  | .revokeRemove token k =>
      match d.sessions.lookup token with
      | none => (d, .unlock .sessions .write (k.resume (.error .tokenInvalid)))
      | some s =>
          ({ d with sessions := d.sessions.erase token },
            .unlock .sessions .write (.lock .userSessions .write
              (.act (.revokeRetain token s.userId k))))
  | .revokeRetain token userId k =>
      match d.userSessions.lookup userId with
      | none => (d, .unlock .userSessions .write (k.resume (.ok ())))
      | some tokens =>
          ({ d with userSessions := d.userSessions.insert userId (tokens.filter (· ≠ token)) },
            .unlock .userSessions .write (k.resume (.ok ())))
  -- revoke_all_user_sessions
  | .revokeAllTake userId =>
      ({ d with userSessions := d.userSessions.erase userId },
        .unlock .userSessions .write (.lock .sessions .write (.act (.revokeAllRemove userId
          ((d.userSessions.lookup userId).getD [])))))
  | .revokeAllRemove _ tokens =>
      ({ d with sessions := HashMap.eraseAll d.sessions tokens },
        .unlock .sessions .write (.halt (.revokedAll tokens.length)))
  -- get_session, list_user_sessions
  | .getRead token => (d, .unlock .sessions .read (.halt (.session (d.sessions.lookup token))))
  | .listRead userId =>
      (d, .unlock .sessions .read (.unlock .userSessions .read (.halt (.listed
        (((d.userSessions.lookup userId).getD []).filterMap (fun t => d.sessions.lookup t))))))
  -- cleanup_expired
  | .cleanupClock order => (d, .lock .sessions .read (.act (.cleanupCollect order d.now)))
  | .cleanupCollect order now =>
      (d, .unlock .sessions .read
        ((After.cleanup (expiredTokens d order now)).resume (.ok ())))
  -- session_count, active_user_count
  | .countSessions => (d, .unlock .sessions .read (.halt (.count d.sessionCount)))
  | .countUsers => (d, .unlock .userSessions .read (.halt (.count d.activeUserCount)))

def env (now : Env) (d : Data) : Data := { d with now := now }

/-! ## §3  The service -/

/-- The guards that are alive while an action runs. -/
def held : Act → Loc → Option Mode
  | .createInsert _, .sessions => some .write
  | .createPush _ _, .sessions | .createPush _ _, .userSessions => some .write
  | .validateRead _, .sessions => some .read
  | .refreshUpdate _, .sessions => some .write
  | .revokeRemove _ _, .sessions => some .write
  | .revokeRetain _ _ _, .userSessions => some .write
  | .revokeAllTake _, .userSessions => some .write
  | .revokeAllRemove _ _, .sessions => some .write
  | .getRead _, .sessions => some .read
  | .listRead _, .userSessions | .listRead _, .sessions => some .read
  | .cleanupCollect _ _, .sessions => some .read
  | .countSessions, .sessions => some .read
  | .countUsers, .userSessions => some .read
  | _, _ => none

/-- The guard that `create_session` holds on from its first action to its last. -/
def pins : Act → Loc → Option Mode
  | .createPush _ _, .sessions => some .write
  | _, _ => none

/-- Which lock is taken inside which. -/
def nests (l l' : Loc) : Prop :=
  (l = .sessions ∧ l' = .userSessions) ∨ (l = .userSessions ∧ l' = .sessions)

theorem Loc.forall_iff {φ : Loc → Prop} : (∀ l, φ l) ↔ φ .sessions ∧ φ .userSessions :=
  ⟨fun h => ⟨h _, h _⟩, fun ⟨h₁, h₂⟩ l => by cases l <;> assumption⟩

/-- The caller of `revoke_session` goes on without a guard. -/
theorem resume_wf (k : After) (r : Except AuthError Unit) :
    (k.resume r).Wf held pins nests ∧ (k.resume r).guards held = fun _ => none := by
  fun_cases After.resume r k
  all_goals
    refine ⟨?_, by funext l; cases l <;> rfl⟩
    simp [revokeCode, Prog.Wf, Prog.guards, Prog.focus, Loc.forall_iff, held, pins]

/-- The only locks it takes next are those of `revoke_session`. -/
theorem pins_resume {k : After} {r : Except AuthError Unit} {a : Act} {l : Loc}
    (h : (k.resume r).focus = some a) : pins a l = none := by
  revert h
  fun_cases After.resume r k
  all_goals rintro ⟨⟩
  rfl

theorem enter_wf {c : Call} {d d' : Data} {p : Code} (h : enter c d = some (d', p)) :
    p.Wf held pins nests ∧ p.guards held = fun _ => none := by
  revert h
  fun_cases enter c d
  all_goals
    rintro ⟨⟩
    try refine ⟨?_, by funext l; cases l <;> rfl⟩
    try simp [revokeCode, Prog.Wf, Prog.guards, Prog.focus, Loc.forall_iff, held, pins, nests]

theorem exec_wf (a : Act) (d : Data) :
    (exec a d).2.Wf held pins nests ∧ (exec a d).2.guards held = held a := by
  fun_cases exec a d
  all_goals
    refine ⟨?_, ?_⟩
    · simp [revokeCode, Prog.Wf, Prog.guards, Prog.focus, Loc.forall_iff, held, pins, nests,
        resume_wf]
      try exact fun _ h => pins_resume h
    · funext l
      cases l <;> simp [revokeCode, Prog.guards, held, resume_wf]

/-- The manager with its session timeout. -/
def sessionManager (timeoutSecs : ℕ) : Service Loc Act Reply Call Env Data where
  init := ⟨∅, ∅, timeoutSecs, 0, []⟩
  enter := enter
  exec := exec
  env := env
  held := held
  pins := pins
  nests := nests
  pins_held {a l m} h := by
    cases a <;> cases l <;> simp [pins, held] at h ⊢
    exact h
  enter_wf := enter_wf
  exec_wf := exec_wf

end Oclaw.SecurityCore.Session
