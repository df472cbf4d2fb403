import Mathlib.Data.List.Sort
import Mathlib.Data.List.Induction
import Oclaw.Lib.Keyed
import Oclaw.Lib.Text

/-!
# The session store

`SessionManager` of `crates/gateway-core/src/message.rs` over its three SQL tables.
A table is the list of its rows in insertion order; message ids are assigned by
`AUTOINCREMENT`, primary keys are unique, and foreign keys are enforced with
`ON DELETE CASCADE`. A call holds the connection's lock, so it is one function from
tables to tables with its answer; clock readings are arguments.
-/

namespace Oclaw.Gateway

open Oclaw.Lib (trim find?_of_nodup_keys)

/-! ## §1  Tables and statements -/

/-- A row of `sessions`. -/
structure SessionInfo : Type where
  key : String
  agentId : String
  createdAt : Int
  updatedAt : Int
  messageCount : ℕ

/-- The columns that `create_session` and `update_agent_id` refresh. -/
def SessionInfo.refreshed (agentId : String) (now : Int) (s : SessionInfo) : SessionInfo :=
  { s with agentId := agentId, updatedAt := now }

/-- A row of `session_messages`. -/
structure MessageRow : Type where
  id : ℕ
  sessionKey : String
  role : String
  content : String
  timestamp : Int

/-- A row of `session_metadata`. -/
structure MetadataRow : Type where
  sessionKey : String
  k : String
  v : String

/-- The tables, with the last id that `AUTOINCREMENT` gave out. -/
structure Db : Type where
  sessions : List SessionInfo
  messages : List MessageRow
  metadata : List MetadataRow
  lastId : ℕ

namespace Db

def empty : Db := ⟨[], [], [], 0⟩

def hasSession (db : Db) (key : String) : Bool := db.sessions.any (fun s => s.key == key)

/-- The rows of `session_messages` with this session key, in table order. -/
def rowsOf (db : Db) (key : String) : List MessageRow :=
  db.messages.filter (fun m => m.sessionKey == key)

/-- `SELECT … FROM session_messages WHERE session_key = key ORDER BY id ASC` -/
def messagesOf (db : Db) (key : String) : List MessageRow :=
  (db.rowsOf key).insertionSort (fun m m' => m.id ≤ m'.id)

/-- `SELECT COUNT(*) FROM session_messages WHERE session_key = key` -/
def countOf (db : Db) (key : String) : ℕ := (db.rowsOf key).length

/-- `UPDATE sessions SET … WHERE key = key` -/
def updateSession (db : Db) (key : String) (f : SessionInfo → SessionInfo) : Db :=
  { db with sessions := db.sessions.map (fun s => if s.key = key then f s else s) }

/-- `DELETE FROM sessions WHERE …`, with the rows that refer to what it deletes. -/
def deleteSessions (db : Db) (stale : SessionInfo → Bool) : Db :=
  let gone (key : String) := db.sessions.any (fun s => s.key == key && stale s)
  { db with
    sessions := db.sessions.filter (fun s => !stale s)
    messages := db.messages.filter (fun m => !gone m.sessionKey)
    metadata := db.metadata.filter (fun e => !gone e.sessionKey) }

/-- What SQLite answers when a row names no session. -/
def foreignKeyError : String := "FOREIGN KEY constraint failed"

/-- `INSERT INTO session_messages` -/
def insertMessage (db : Db) (sessionKey role content : String) (now : Int) :
    Except String Db :=
  if db.hasSession sessionKey then
    .ok { db with
      messages := db.messages ++ [⟨db.lastId + 1, sessionKey, role, content, now⟩]
      lastId := db.lastId + 1 }
  else .error foreignKeyError

/-- `INSERT OR REPLACE INTO session_metadata` -/
def replaceMetadata (db : Db) (key field value : String) : Except String Db :=
  if db.hasSession key then
    .ok { db with
      metadata := db.metadata.filter (fun e => !(e.sessionKey == key && e.k == field)) ++
        [⟨key, field, value⟩] }
  else .error foreignKeyError

/-! ## §2  The session manager -/

def getSession (db : Db) (key : String) : Option SessionInfo :=
  db.sessions.find? (fun s => s.key == key)

def createSession (db : Db) (key agentId : String) (now : Int) :
    Except String SessionInfo × Db :=
  -- INSERT OR IGNORE, then UPDATE
  let db₁ :=
    if db.hasSession key then db
    else { db with sessions := db.sessions ++ [⟨key, agentId, now, now, 0⟩] }
  let db₂ := db₁.updateSession key (SessionInfo.refreshed agentId now)
  match db₂.getSession key with
  | some s => (.ok s, db₂)
  | none => (.error "Session created but not found", db₂)

def removeSession (db : Db) (key : String) : Option SessionInfo × Db :=
  match db.getSession key with
  | some s => (some s, db.deleteSessions (fun s => s.key == key))
  | none => (none, db)

def updateAgentId (db : Db) (key agentId : String) (now : Int) : Db :=
  db.updateSession key (SessionInfo.refreshed agentId now)

def touchSession (db : Db) (key : String) (now : Int) : Db :=
  db.updateSession key (fun s => { s with updatedAt := now })

def setSessionMetadataField (db : Db) (key field value : String) : Except String Unit × Db :=
  let field := trim field
  if field = "" then (.error "metadata key cannot be empty", db)
  else
    match db.replaceMetadata key field value with
    | .ok db' => (.ok (), db')
    | .error e => (.error e, db)

/-- The statements of the transaction; empty field names are skipped. -/
def replaceMetadataFields (db : Db) (key : String) :
    List (String × String) → Except String Db
  | [] => .ok db
  | (field, value) :: rest =>
      if trim field = "" then db.replaceMetadataFields key rest
      else
        match db.replaceMetadata key (trim field) value with
        | .ok db' => db'.replaceMetadataFields key rest
        | .error e => .error e

/-- A failed statement rolls the transaction back. The fields are listed in the order
in which the source's hash map iterates. -/
def setSessionMetadataFields (db : Db) (key : String) (fields : List (String × String)) :
    Except String Unit × Db :=
  if fields.isEmpty then (.ok (), db)
  else
    match db.replaceMetadataFields key fields with
    | .ok db' => (.ok (), db')
    | .error e => (.error e, db)

def addMessage (db : Db) (sessionKey role content : String) (now : Int) :
    Except String Unit × Db :=
  match db.insertMessage sessionKey role content now with
  | .error e => (.error ("Failed to add message: " ++ e), db)
  | .ok db₁ =>
      (.ok (), db₁.updateSession sessionKey (fun s =>
        { s with messageCount := db₁.countOf sessionKey, updatedAt := now }))

def clearMessages (db : Db) (sessionKey : String) (now : Int) : Db :=
  let db₁ := { db with messages := db.messages.filter (fun m => m.sessionKey != sessionKey) }
  db₁.updateSession sessionKey (fun s => { s with messageCount := 0, updatedAt := now })

def compactMessages (db : Db) (sessionKey : String) (maxMessages : ℕ) (now : Int) :
    (ℕ × ℕ) × Db :=
  let total := db.countOf sessionKey
  if total > maxMessages then
    let toDelete := total - maxMessages
    let oldest := ((db.messagesOf sessionKey).take toDelete).map MessageRow.id
    let db₁ := { db with messages := db.messages.filter (fun m => !oldest.contains m.id) }
    let newCount := total - toDelete
    ((total, newCount), db₁.updateSession sessionKey (fun s =>
      { s with messageCount := newCount, updatedAt := now }))
  else ((total, total), db)

/-- `i64` subtraction of a release build. -/
def wrappingSub (a b : Int) : Int := Int.bmod (a - b) 0x10000000000000000

/-- Remove sessions not updated within `max_age_ms` milliseconds. -/
def cleanupStale (db : Db) (maxAgeMs now : Int) : ℕ × Db :=
  let cutoff := wrappingSub now maxAgeMs
  (db.sessions.countP (fun s => s.updatedAt < cutoff),
    db.deleteSessions (fun s => s.updatedAt < cutoff))

end Db

/-! ## §3  Sequences of calls -/

inductive StoreCall : Type where
  | createSession (key agentId : String)
  | addMessage (sessionKey role content : String)
  | clearMessages (sessionKey : String)
  | compactMessages (sessionKey : String) (maxMessages : ℕ)
  | removeSession (key : String)
  | cleanupStale (maxAgeMs : Int)
  | touchSession (key : String)
  | updateAgentId (key agentId : String)
  | setMetadataField (key field value : String)
  | setMetadataFields (key : String) (fields : List (String × String))

def StoreCall.run (now : Int) (db : Db) : StoreCall → Db
  | .createSession key agentId => (db.createSession key agentId now).2
  | .addMessage key role content => (db.addMessage key role content now).2
  | .clearMessages key => db.clearMessages key now
  | .compactMessages key maxMessages => (db.compactMessages key maxMessages now).2
  | .removeSession key => (db.removeSession key).2
  | .cleanupStale maxAgeMs => (db.cleanupStale maxAgeMs now).2
  | .touchSession key => db.touchSession key now
  | .updateAgentId key agentId => db.updateAgentId key agentId now
  | .setMetadataField key field value => (db.setSessionMetadataField key field value).2
  | .setMetadataFields key fields => (db.setSessionMetadataFields key fields).2

/-- The tables after a sequence of calls, each with the clock it reads. -/
def sessionStore (calls : List (Int × StoreCall)) : Db :=
  calls.foldl (fun db c => c.2.run c.1 db) .empty

theorem sessionStore_snoc (calls : List (Int × StoreCall)) (c : Int × StoreCall) :
    sessionStore (calls ++ [c]) = c.2.run c.1 (sessionStore calls) := by
  simp [sessionStore, List.foldl_append]

/-! ## §4  Consistent tables -/

namespace Db

def keys (db : Db) : List String := db.sessions.map SessionInfo.key

/-- Keys are unique, counts are right, every row belongs to a session, and the
messages stand in the order of their ids, none of which is to be given out again. -/
structure Consistent (db : Db) : Prop where
  unique : db.keys.Nodup
  counts : ∀ s ∈ db.sessions, s.messageCount = (db.rowsOf s.key).length
  owned : ∀ m ∈ db.messages, m.sessionKey ∈ db.keys
  described : ∀ e ∈ db.metadata, e.sessionKey ∈ db.keys
  sorted : db.messages.Pairwise (fun m m' => m.id < m'.id)
  issued : ∀ m ∈ db.messages, m.id ≤ db.lastId

variable {db : Db} {key : String}

theorem hasSession_iff : db.hasSession key = true ↔ key ∈ db.keys := by
  simp [hasSession, keys]

theorem consistent_empty : empty.Consistent := by
  constructor <;> simp [empty, keys]

/-- In consistent tables the `ORDER BY` has nothing to do. -/
theorem Consistent.messagesOf_eq (h : db.Consistent) (key : String) :
    db.messagesOf key = db.rowsOf key := by
  apply List.Pairwise.insertionSort_eq
  exact (h.sorted.filter _).imp (fun hlt => Nat.le_of_lt hlt)

theorem Consistent.id_injective (h : db.Consistent) {m m' : MessageRow} (hm : m ∈ db.messages)
    (hm' : m' ∈ db.messages) (hid : m.id = m'.id) : m = m' := by
  have hnodup : (db.messages.map MessageRow.id).Nodup :=
    List.pairwise_map.mpr (h.sorted.imp Nat.ne_of_lt)
  exact List.inj_on_of_nodup_map hnodup hm hm' hid

theorem keys_updateSession {f : SessionInfo → SessionInfo} (hf : ∀ s, (f s).key = s.key) :
    (db.updateSession key f).keys = db.keys := by
  simp only [keys, updateSession, List.map_map]
  apply List.map_congr_left
  intro s _
  by_cases hs : s.key = key <;> simp [hs, hf]

theorem mem_updateSession {f : SessionInfo → SessionInfo} {s : SessionInfo}
    (hs : s ∈ (db.updateSession key f).sessions) :
    (∃ s₀ ∈ db.sessions, s₀.key = key ∧ s = f s₀) ∨ (s ∈ db.sessions ∧ s.key ≠ key) := by
  obtain ⟨s₀, hmem, rfl⟩ := List.mem_map.mp hs
  split
  · rename_i heq
    exact .inl ⟨s₀, hmem, heq, rfl⟩
  · rename_i hne
    exact .inr ⟨hmem, hne⟩

/-- An update of other columns than the key and the count. -/
theorem Consistent.updated (h : db.Consistent) {f : SessionInfo → SessionInfo}
    (hkey : ∀ s, (f s).key = s.key) (hcount : ∀ s, (f s).messageCount = s.messageCount) :
    (db.updateSession key f).Consistent := by
  have hkeys : (db.updateSession key f).keys = db.keys := keys_updateSession hkey
  constructor
  case unique => exact hkeys ▸ h.unique
  case counts =>
      intro s hs
      rcases mem_updateSession hs with ⟨s₀, hmem, -, rfl⟩ | ⟨hmem, -⟩
      · rw [hcount, hkey]
        exact h.counts s₀ hmem
      · exact h.counts s hmem
  case owned => exact hkeys ▸ h.owned
  case described => exact hkeys ▸ h.described
  case sorted => exact h.sorted
  case issued => exact h.issued

/-- New messages for one session and its new count, whichever way it was computed. -/
theorem Consistent.recounted (h : db.Consistent) {messages : List MessageRow} {lastId : ℕ}
    {f : SessionInfo → SessionInfo} (hkey : ∀ s, (f s).key = s.key)
    (hcount : ∀ s, (f s).messageCount = (messages.filter (fun m => m.sessionKey == key)).length)
    (hothers : ∀ k, k ≠ key →
      messages.filter (fun m => m.sessionKey == k) = db.rowsOf k)
    (howned : ∀ m ∈ messages, m.sessionKey ∈ db.keys)
    (hsorted : messages.Pairwise (fun m m' => m.id < m'.id))
    (hissued : ∀ m ∈ messages, m.id ≤ lastId) :
    (updateSession { db with messages := messages, lastId := lastId } key f).Consistent := by
  have hkeys : (updateSession { db with messages := messages, lastId := lastId } key f).keys =
      db.keys := keys_updateSession hkey
  constructor
  case unique => exact hkeys ▸ h.unique
  case counts =>
      intro s hs
      rcases mem_updateSession hs with ⟨s₀, -, hs₀, rfl⟩ | ⟨hmem, hne⟩
      · rw [hcount, hkey, hs₀]
        rfl
      · rw [h.counts s hmem, ← hothers s.key hne]
        rfl
  case owned => exact hkeys ▸ howned
  case described => exact hkeys ▸ h.described
  case sorted => exact hsorted
  case issued => exact hissued

/-! ## §5  What each call keeps -/

theorem Consistent.addMessage (h : db.Consistent) (role content : String) (now : Int) :
    (db.addMessage key role content now).2.Consistent := by
  unfold Db.addMessage insertMessage
  by_cases hknown : db.hasSession key = true
  · rw [if_pos hknown]
    have hmem := hasSession_iff.mp hknown
    refine h.recounted (fun _ => rfl) (fun _ => rfl) ?_ ?_ ?_ ?_
    · intro k hk
      rw [List.filter_append, rowsOf]
      simp [Ne.symm hk]
    · intro m hm
      rcases List.mem_append.mp hm with hm | hm
      · exact h.owned m hm
      · rw [List.mem_singleton.mp hm]
        exact hmem
    · refine List.pairwise_append.mpr ⟨h.sorted, List.pairwise_singleton _ _, ?_⟩
      intro m hm m' hm'
      rw [List.mem_singleton.mp hm']
      exact Nat.lt_succ_of_le (h.issued m hm)
    · intro m hm
      rcases List.mem_append.mp hm with hm | hm
      · exact Nat.le_succ_of_le (h.issued m hm)
      · rw [List.mem_singleton.mp hm]
  · rw [if_neg hknown]
    exact h

theorem filter_filter_ne {l : List MessageRow} {k : String} (hk : k ≠ key) :
    (l.filter (fun m => m.sessionKey != key)).filter (fun m => m.sessionKey == k) =
      l.filter (fun m => m.sessionKey == k) := by
  rw [List.filter_filter]
  apply List.filter_congr
  intro m _
  by_cases hm : m.sessionKey = k <;> simp [hm, hk]

theorem Consistent.clearMessages (h : db.Consistent) (now : Int) :
    (db.clearMessages key now).Consistent := by
  refine h.recounted (fun _ => rfl) (fun _ => ?_) (fun k hk => filter_filter_ne hk) ?_ ?_ ?_
  · rw [List.filter_filter, eq_comm, List.length_eq_zero_iff, List.filter_eq_nil_iff]
    simp
  · exact fun m hm => h.owned m (List.mem_filter.mp hm).1
  · exact h.sorted.filter _
  · exact fun m hm => h.issued m (List.mem_filter.mp hm).1

/-- Filtering out the ids of a first part leaves the rest. -/
theorem filter_not_oldest {l : List MessageRow} (hl : l.Pairwise (fun m m' => m.id < m'.id))
    (n : ℕ) : l.filter (fun m => !((l.take n).map MessageRow.id).contains m.id) = l.drop n := by
  have hsplit : (l.take n ++ l.drop n).Pairwise (fun m m' => m.id < m'.id) := by
    rwa [List.take_append_drop]
  obtain ⟨-, -, hcross⟩ := List.pairwise_append.mp hsplit
  conv_lhs => rw [← List.take_append_drop n l]
  rw [List.filter_append]
  have hgone : (l.take n).filter
      (fun m => !((l.take n).map MessageRow.id).contains m.id) = [] := by
    rw [List.filter_eq_nil_iff]
    intro m hm
    have hid : m.id ∈ (l.take n).map MessageRow.id := List.mem_map_of_mem hm
    simp only [List.contains_eq_mem, hid, decide_true, Bool.not_true, Bool.false_eq_true,
      not_false_eq_true]
  have hkept : (l.drop n).filter
      (fun m => !((l.take n).map MessageRow.id).contains m.id) = l.drop n := by
    rw [List.filter_eq_self]
    intro m hm
    simp only [List.contains_eq_mem, List.mem_map, Bool.not_eq_eq_eq_not, Bool.not_true,
      decide_eq_false_iff_not, not_exists, not_and]
    intro m' hm' hid
    exact absurd (hcross m' hm' m hm) (by omega)
  rw [List.take_append_drop, hgone, hkept, List.nil_append]

/-- The ids that a compaction deletes are all of its own session. -/
theorem Consistent.oldest_mem (h : db.Consistent) {n : ℕ} {m : MessageRow}
    (hm : m ∈ db.messages)
    (hold : m.id ∈ ((db.rowsOf key).take n).map MessageRow.id) : m.sessionKey = key := by
  obtain ⟨m', hm', hid⟩ := List.mem_map.mp hold
  obtain ⟨hrow, hkey⟩ := List.mem_filter.mp (List.mem_of_mem_take hm')
  rw [← h.id_injective hrow hm hid]
  simpa using hkey

/-- The messages that a compaction leaves: those of its session without the oldest,
and all of the others. -/
theorem Consistent.compacted_rows (h : db.Consistent) (n : ℕ) (k : String) :
    (db.messages.filter (fun m =>
      !(((db.rowsOf key).take n).map MessageRow.id).contains m.id)).filter
        (fun m => m.sessionKey == k) =
      if k = key then (db.rowsOf key).drop n else db.rowsOf k := by
  rw [List.filter_filter]
  split
  · rename_i hk
    subst hk
    have hrows : (db.rowsOf k).Pairwise (fun m m' => m.id < m'.id) := h.sorted.filter _
    rw [← filter_not_oldest hrows n]
    change _ = (db.messages.filter _).filter _
    rw [List.filter_filter]
    apply List.filter_congr
    intro m _
    rw [Bool.and_comm]
  · rename_i hk
    apply List.filter_congr
    intro m hm
    by_cases hmk : m.sessionKey = k
    · have hnot : m.id ∉ ((db.rowsOf key).take n).map MessageRow.id := by
        intro hold
        exact hk (hmk.symm.trans (h.oldest_mem hm hold))
      simp only [hmk, beq_self_eq_true, List.contains_eq_mem, hnot, decide_false, Bool.not_false,
        Bool.and_self]
    · simp [hmk]

theorem Consistent.compactMessages (h : db.Consistent) (key : String) (maxMessages : ℕ)
    (now : Int) :
    (db.compactMessages key maxMessages now).2.Consistent := by
  unfold Db.compactMessages
  by_cases hmany : db.countOf key > maxMessages
  · simp only [if_pos hmany, h.messagesOf_eq key]
    refine h.recounted (fun _ => rfl) (fun _ => ?_) ?_ ?_ ?_ ?_
    · rw [h.compacted_rows, if_pos rfl, List.length_drop]
      rfl
    · intro k hk
      rw [h.compacted_rows, if_neg hk]
    · exact fun m hm => h.owned m (List.mem_filter.mp hm).1
    · exact h.sorted.filter _
    · exact fun m hm => h.issued m (List.mem_filter.mp hm).1
  · simp only [if_neg hmany]
    exact h

theorem Consistent.deleteSessions (h : db.Consistent) (stale : SessionInfo → Bool) :
    (db.deleteSessions stale).Consistent := by
  -- a session that stays keeps all its rows, because its key is its own
  have hstays : ∀ s ∈ db.sessions, stale s = false →
      db.sessions.any (fun s' => s'.key == s.key && stale s') = false := by
    intro s hs hfresh
    rw [List.any_eq_false]
    intro s' hs' hgone
    simp only [Bool.and_eq_true, beq_iff_eq] at hgone
    rw [List.inj_on_of_nodup_map h.unique hs' hs hgone.1, hfresh] at hgone
    exact absurd hgone.2 Bool.false_ne_true
  have hkeys : ∀ key ∈ db.keys, db.sessions.any (fun s => s.key == key && stale s) = false →
      key ∈ (db.deleteSessions stale).keys := by
    intro key hkey hleft
    obtain ⟨s, hs, rfl⟩ := List.mem_map.mp hkey
    refine List.mem_map_of_mem (List.mem_filter.mpr ⟨hs, ?_⟩)
    have hnot := List.any_eq_false.mp hleft s hs
    simpa using hnot
  constructor
  case unique => exact h.unique.sublist (List.filter_sublist.map _)
  case counts =>
      intro s hs
      obtain ⟨hmem, hfresh⟩ := List.mem_filter.mp hs
      rw [h.counts s hmem]
      congr 1
      rw [rowsOf, rowsOf, Db.deleteSessions, List.filter_filter]
      apply List.filter_congr
      intro m _
      by_cases hm : m.sessionKey = s.key
      · have hleft := hstays s hmem (by simpa using hfresh)
        simp only [hm, beq_self_eq_true, hleft, Bool.not_false, Bool.and_self]
      · simp [hm]
  case owned =>
      intro m hm
      obtain ⟨hmem, hleft⟩ := List.mem_filter.mp hm
      exact hkeys _ (h.owned m hmem) (by simpa using hleft)
  case described =>
      intro e he
      obtain ⟨hmem, hleft⟩ := List.mem_filter.mp he
      exact hkeys _ (h.described e hmem) (by simpa using hleft)
  case sorted => exact h.sorted.filter _
  case issued => exact fun m hm => h.issued m (List.mem_filter.mp hm).1

/-- The tables of `create_session`, with the row inserted or found. -/
theorem createSession_snd (agentId : String) (now : Int) :
    (db.createSession key agentId now).2 =
      (if db.hasSession key then db
        else { db with sessions := db.sessions ++ [⟨key, agentId, now, now, 0⟩] }).updateSession
          key (SessionInfo.refreshed agentId now) := by
  unfold createSession
  simp only
  split <;> rfl

/-- A session that was not there has no rows. -/
theorem Consistent.rowsOf_eq_nil (h : db.Consistent) (hnew : key ∉ db.keys) :
    db.rowsOf key = [] := by
  rw [rowsOf, List.filter_eq_nil_iff]
  intro m hm hkey
  rw [beq_iff_eq] at hkey
  exact hnew (hkey ▸ h.owned m hm)

theorem Consistent.inserted (h : db.Consistent) (hnew : key ∉ db.keys) (agentId : String)
    (now : Int) :
    Consistent { db with sessions := db.sessions ++ [⟨key, agentId, now, now, 0⟩] } := by
  have hkeys : keys { db with sessions := db.sessions ++ [⟨key, agentId, now, now, 0⟩] } =
      db.keys ++ [key] := by
    simp [keys]
  constructor
  case unique =>
      rw [hkeys, ← List.concat_eq_append]
      exact h.unique.concat hnew
  case counts =>
      intro s hs
      rcases List.mem_append.mp hs with hs | hs
      · exact h.counts s hs
      · rw [List.mem_singleton.mp hs]
        exact (congrArg List.length (h.rowsOf_eq_nil hnew)).symm
  case owned =>
      intro m hm
      rw [hkeys]
      exact List.mem_append_left _ (h.owned m hm)
  case described =>
      intro e he
      rw [hkeys]
      exact List.mem_append_left _ (h.described e he)
  case sorted => exact h.sorted
  case issued => exact h.issued

theorem Consistent.createSession (h : db.Consistent) (agentId : String) (now : Int) :
    (db.createSession key agentId now).2.Consistent := by
  rw [createSession_snd]
  apply Consistent.updated
  · split
    · exact h
    · rename_i hnew
      exact h.inserted (fun hmem => hnew (hasSession_iff.mpr hmem)) agentId now
  · exact fun _ => rfl
  · exact fun _ => rfl

theorem Consistent.removeSession (h : db.Consistent) :
    (db.removeSession key).2.Consistent := by
  unfold Db.removeSession
  split
  · exact h.deleteSessions _
  · exact h

theorem Consistent.replaceMetadata (h : db.Consistent) {field value : String} {db' : Db}
    (hrun : db.replaceMetadata key field value = .ok db') : db'.Consistent := by
  unfold Db.replaceMetadata at hrun
  split at hrun
  · rename_i hknown
    cases hrun
    refine ⟨h.unique, h.counts, h.owned, ?_, h.sorted, h.issued⟩
    intro e he
    rcases List.mem_append.mp he with he | he
    · exact h.described e (List.mem_filter.mp he).1
    · rw [List.mem_singleton.mp he]
      exact hasSession_iff.mp hknown
  · cases hrun

theorem Consistent.setSessionMetadataField (h : db.Consistent) (field value : String) :
    (db.setSessionMetadataField key field value).2.Consistent := by
  unfold Db.setSessionMetadataField
  simp only
  split
  · exact h
  · split
    · rename_i db' hrun
      exact h.replaceMetadata hrun
    · exact h

theorem Consistent.replaceMetadataFields (h : db.Consistent) {fields : List (String × String)}
    {db' : Db} (hrun : db.replaceMetadataFields key fields = .ok db') : db'.Consistent := by
  induction fields generalizing db with
  | nil =>
      cases hrun
      exact h
  | cons entry rest ih =>
      obtain ⟨field, value⟩ := entry
      rw [Db.replaceMetadataFields] at hrun
      split at hrun
      · exact ih h hrun
      · split at hrun
        · rename_i db₁ hone
          exact ih (h.replaceMetadata hone) hrun
        · cases hrun

theorem Consistent.setSessionMetadataFields (h : db.Consistent)
    (fields : List (String × String)) :
    (db.setSessionMetadataFields key fields).2.Consistent := by
  unfold Db.setSessionMetadataFields
  split
  · exact h
  · split
    · rename_i db' hrun
      exact h.replaceMetadataFields hrun
    · exact h

/-- Creating a session that exists refreshes its row and nothing else. -/
theorem createSession_existing (h : db.Consistent) {s : SessionInfo} (hs : s ∈ db.sessions)
    (agentId : String) (now : Int) :
    db.createSession s.key agentId now =
      (.ok (s.refreshed agentId now),
        db.updateSession s.key (SessionInfo.refreshed agentId now)) := by
  have hknown : db.hasSession s.key = true :=
    hasSession_iff.mpr (List.mem_map_of_mem hs)
  have hafter : (db.updateSession s.key (SessionInfo.refreshed agentId now)).Consistent :=
    h.updated (fun _ => rfl) (fun _ => rfl)
  have hrow : s.refreshed agentId now ∈
      (db.updateSession s.key (SessionInfo.refreshed agentId now)).sessions :=
    List.mem_map.mpr ⟨s, hs, if_pos rfl⟩
  have hget : (db.updateSession s.key (SessionInfo.refreshed agentId now)).getSession s.key =
      some (s.refreshed agentId now) := find?_of_nodup_keys hafter.unique hrow
  simp only [createSession, hknown, if_true, hget]

/-- An update of one session is no update of another. -/
theorem getSession_updateSession {f : SessionInfo → SessionInfo} (hf : ∀ s, (f s).key = s.key)
    {k : String} (hk : k ≠ key) : (db.updateSession key f).getSession k = db.getSession k := by
  unfold getSession updateSession
  simp only
  induction db.sessions with
  | nil => rfl
  | cons s rest ih =>
      rw [List.map_cons, List.find?_cons, List.find?_cons, ih]
      by_cases hs : s.key = key
      · have hne : (s.key == k) = false := by simp [hs, Ne.symm hk]
        simp only [if_pos hs, hf, hne]
      · simp only [if_neg hs]

/-- What is left of a session after a compaction, and of the others. -/
theorem messagesOf_compactMessages (h : db.Consistent) (key : String) (maxMessages : ℕ)
    (now : Int) (k : String) :
    (db.compactMessages key maxMessages now).2.messagesOf k =
      if k = key then (db.messagesOf key).drop ((db.messagesOf key).length - maxMessages)
      else db.messagesOf k := by
  have hafter := h.compactMessages key maxMessages now
  rw [hafter.messagesOf_eq, h.messagesOf_eq, h.messagesOf_eq]
  unfold Db.compactMessages
  by_cases hmany : db.countOf key > maxMessages
  · simp only [if_pos hmany, h.messagesOf_eq key]
    exact h.compacted_rows _ k
  · have hfew : (db.rowsOf key).length - maxMessages = 0 := by
      unfold countOf at hmany
      omega
    simp only [if_neg hmany, hfew, List.drop_zero]
    split
    · rename_i hk
      rw [hk]
    · rfl

/-- A compaction touches neither the rows of other sessions nor any metadata. -/
theorem compactMessages_frame (db : Db) (key : String) (maxMessages : ℕ) (now : Int) :
    (∀ k, k ≠ key → (db.compactMessages key maxMessages now).2.getSession k = db.getSession k) ∧
      (db.compactMessages key maxMessages now).2.metadata = db.metadata := by
  unfold Db.compactMessages
  by_cases hmany : db.countOf key > maxMessages
  · simp only [if_pos hmany]
    refine ⟨fun k hk => ?_, rfl⟩
    refine getSession_updateSession ?_ hk
    exact fun _ => rfl
  · simp [hmany]

end Db

/-- **Every call keeps the tables consistent.** -/
theorem consistent_call {db : Db} (h : db.Consistent) (now : Int) (c : StoreCall) :
    (c.run now db).Consistent := by
  cases c with
  | createSession key agentId => exact h.createSession agentId now
  | addMessage key role content => exact h.addMessage role content now
  | clearMessages key => exact h.clearMessages now
  | compactMessages key maxMessages => exact h.compactMessages key maxMessages now
  | removeSession key => exact h.removeSession
  | cleanupStale maxAgeMs => exact h.deleteSessions _
  | touchSession key => exact h.updated (fun _ => rfl) (fun _ => rfl)
  | updateAgentId key agentId => exact h.updated (fun _ => rfl) (fun _ => rfl)
  | setMetadataField key field value => exact h.setSessionMetadataField field value
  | setMetadataFields key fields => exact h.setSessionMetadataFields fields

theorem consistent_sessionStore (calls : List (Int × StoreCall)) :
    (sessionStore calls).Consistent := by
  induction calls using List.reverseRecOn with
  | nil => exact Db.consistent_empty
  | append_singleton calls c ih =>
      rw [sessionStore_snoc]
      exact consistent_call ih c.1 c.2

/-- **The session store is consistent.** After every sequence of calls, every count is
the number of message rows of its session, and every message and every metadata row
belongs to a session; creating a session again keeps all messages, the creation time
and the count; and a compaction to `m` leaves exactly the newest `min(m, total)`
messages of its session, in order, and no row of another session changes. -/
theorem session_store_consistent (calls : List (Int × StoreCall)) :
    (∀ s ∈ (sessionStore calls).sessions,
      s.messageCount = ((sessionStore calls).messagesOf s.key).length) ∧
    (∀ m ∈ (sessionStore calls).messages,
      ∃ s ∈ (sessionStore calls).sessions, s.key = m.sessionKey) ∧
    (∀ e ∈ (sessionStore calls).metadata,
      ∃ s ∈ (sessionStore calls).sessions, s.key = e.sessionKey) ∧
    (∀ s ∈ (sessionStore calls).sessions, ∀ agentId now,
      ((sessionStore calls).createSession s.key agentId now).2.messages =
        (sessionStore calls).messages ∧
      ∃ s', ((sessionStore calls).createSession s.key agentId now).1 = .ok s' ∧
        s' ∈ ((sessionStore calls).createSession s.key agentId now).2.sessions ∧
        s'.key = s.key ∧ s'.createdAt = s.createdAt ∧ s'.messageCount = s.messageCount) ∧
    ∀ key m now,
      ((sessionStore calls).compactMessages key m now).2.messagesOf key =
        ((sessionStore calls).messagesOf key).drop
          (((sessionStore calls).messagesOf key).length - m) ∧
      (((sessionStore calls).compactMessages key m now).2.messagesOf key).length =
        min m ((sessionStore calls).messagesOf key).length ∧
      ∀ k, k ≠ key →
        ((sessionStore calls).compactMessages key m now).2.messagesOf k =
          (sessionStore calls).messagesOf k ∧
        ((sessionStore calls).compactMessages key m now).2.getSession k =
          (sessionStore calls).getSession k ∧
        ((sessionStore calls).compactMessages key m now).2.metadata =
          (sessionStore calls).metadata := by
  have h := consistent_sessionStore calls
  generalize sessionStore calls = db at h ⊢
  have howner : ∀ key ∈ db.keys, ∃ s ∈ db.sessions, s.key = key :=
    fun key hkey => List.mem_map.mp hkey
  refine ⟨?_, fun m hm => howner _ (h.owned m hm), fun e he => howner _ (h.described e he), ?_, ?_⟩
  · intro s hs
    rw [h.messagesOf_eq]
    exact h.counts s hs
  · intro s hs agentId now
    rw [Db.createSession_existing h hs agentId now]
    exact ⟨rfl, _, rfl, List.mem_map.mpr ⟨s, hs, if_pos rfl⟩, rfl, rfl, rfl⟩
  · intro key m now
    have hrows := Db.messagesOf_compactMessages h key m now
    obtain ⟨hothers, hmetadata⟩ := Db.compactMessages_frame db key m now
    refine ⟨by rw [hrows, if_pos rfl], ?_, fun k hk =>
      ⟨by rw [hrows, if_neg hk], hothers k hk, hmetadata⟩⟩
    rw [hrows, if_pos rfl, List.length_drop]
    omega

end Oclaw.Gateway
