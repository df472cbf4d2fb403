import Oclaw.Gateway.SessionStore
import Oclaw.Lib.HashMap

/-!
# The metadata of a session

`get_session_metadata` of `crates/gateway-core/src/message.rs`, and what the calls of the
store leave of a field: a call that does not write the field can only lose it together
with the session.
-/

namespace Oclaw.Gateway

open Oclaw.Lib (trim HashMap find?_of_nodup_keys)

namespace Db

def getSessionMetadata (db : Db) (key : String) : HashMap String String :=
  HashMap.ofEntries ((db.metadata.filter (fun e => e.sessionKey == key)).map (fun e => (e.k, e.v)))

variable {db db' : Db} {key field value k f : String}

/-- The row that `replaceMetadata` put in last. -/
theorem lookup_getSessionMetadata : (db.getSessionMetadata key).lookup field =
    ((db.metadata.filter (fun e => e.sessionKey == key && e.k == field)).getLast?).map
      MetadataRow.v := by
  unfold getSessionMetadata
  induction db.metadata using List.reverseRecOn with
  | nil => rfl
  | append_singleton rows e ih =>
      by_cases hkey : e.sessionKey = key
      · have hkept : (rows ++ [e]).filter (fun e => e.sessionKey == key) =
            rows.filter (fun e => e.sessionKey == key) ++ [e] := by
          simp [List.filter_append, hkey]
        rw [hkept, List.map_append, List.map_singleton, HashMap.ofEntries_concat,
          HashMap.lookup_insert_eq, ih, List.filter_append]
        by_cases hfield : field = e.k
        · simp [hkey, hfield]
        · have hfield' : ¬ e.k = field := fun h => hfield h.symm
          simp [hfield, hfield']
      · have hkept : (rows ++ [e]).filter (fun e => e.sessionKey == key) =
            rows.filter (fun e => e.sessionKey == key) := by
          simp [List.filter_append, hkey]
        rw [hkept, ih, List.filter_append]
        simp [hkey]

theorem lookup_of_metadata_eq (h : db'.metadata = db.metadata) :
    (db'.getSessionMetadata key).lookup field = (db.getSessionMetadata key).lookup field := by
  rw [getSessionMetadata, getSessionMetadata, h]

theorem lookup_replaceMetadata (h : db.replaceMetadata k f value = .ok db') :
    (db'.getSessionMetadata key).lookup field =
      if key = k ∧ field = f then some value else (db.getSessionMetadata key).lookup field := by
  unfold replaceMetadata at h
  split at h
  · cases h
    rw [lookup_getSessionMetadata, lookup_getSessionMetadata, List.filter_append, List.filter_filter]
    by_cases hrow : key = k ∧ field = f
    · obtain ⟨rfl, rfl⟩ := hrow
      simp
    · have hnew : (k == key && f == field) = false := by
        simp only [Bool.and_eq_false_iff, beq_eq_false_iff_ne, ne_eq]
        by_cases hkey : k = key
        · exact Or.inr fun hfield => hrow ⟨hkey.symm, hfield.symm⟩
        · exact Or.inl hkey
      have hsame : db.metadata.filter (fun e => (e.sessionKey == key && e.k == field) &&
            !(e.sessionKey == k && e.k == f)) =
          db.metadata.filter (fun e => e.sessionKey == key && e.k == field) := by
        apply List.filter_congr
        intro e _
        by_cases he : e.sessionKey = key ∧ e.k = field
        · obtain ⟨rfl, rfl⟩ := he
          simp only [not_and] at hrow
          by_cases hkey : e.sessionKey = k
          · simp [hrow hkey]
          · simp [hkey]
        · simp only [not_and] at he
          by_cases hkey : e.sessionKey = key
          · simp [he hkey]
          · simp [hkey]
      rw [if_neg hrow, hsame]
      simp [hnew]
  · cases h

theorem keys_replaceMetadata (h : db.replaceMetadata k f value = .ok db') :
    db'.keys = db.keys := by
  unfold replaceMetadata at h
  split at h
  · cases h
    rfl
  · cases h

theorem lookup_setSessionMetadataField :
    ((db.setSessionMetadataField k f value).2.getSessionMetadata key).lookup field =
      if (db.setSessionMetadataField k f value).1 = .ok () ∧ key = k ∧ field = trim f then
        some value
      else (db.getSessionMetadata key).lookup field := by
  unfold setSessionMetadataField
  simp only
  split
  · simp
  · split
    · rename_i db' hrun
      rw [lookup_replaceMetadata hrun]
      simp
    · simp

theorem keys_setSessionMetadataField :
    (db.setSessionMetadataField k f value).2.keys = db.keys := by
  unfold setSessionMetadataField
  simp only
  split
  · rfl
  · split
    · rename_i db' hrun
      exact keys_replaceMetadata hrun
    · rfl

/-- Fields that a batch does not name. -/
theorem lookup_replaceMetadataFields {fields : List (String × String)}
    (h : db.replaceMetadataFields k fields = .ok db')
    (hfield : field ∉ fields.map (fun e => trim e.1)) :
    (db'.getSessionMetadata key).lookup field = (db.getSessionMetadata key).lookup field ∧
      db'.keys = db.keys := by
  induction fields generalizing db with
  | nil =>
      cases h
      exact ⟨rfl, rfl⟩
  | cons entry rest ih =>
      obtain ⟨f, value⟩ := entry
      rw [List.map_cons, List.mem_cons, not_or] at hfield
      rw [replaceMetadataFields] at h
      split at h
      · exact ih h hfield.2
      · split at h
        · rename_i db₁ hone
          obtain ⟨hlookup, hkeys⟩ := ih h hfield.2
          rw [hlookup, hkeys, lookup_replaceMetadata hone, if_neg (fun hrow => hfield.1 hrow.2)]
          exact ⟨rfl, keys_replaceMetadata hone⟩
        · cases h

/-- What a deletion leaves of a field. -/
theorem lookup_deleteSessions {stale : SessionInfo → Bool} :
    ((db.deleteSessions stale).getSessionMetadata key).lookup field =
      if db.sessions.any (fun s => s.key == key && stale s) then none
      else (db.getSessionMetadata key).lookup field := by
  rw [lookup_getSessionMetadata, lookup_getSessionMetadata, deleteSessions, List.filter_filter]
  split
  · rename_i hgone
    have hnil : db.metadata.filter (fun e => (e.sessionKey == key && e.k == field) &&
        !db.sessions.any (fun s => s.key == e.sessionKey && stale s)) = [] := by
      rw [List.filter_eq_nil_iff]
      intro e _ he
      simp only [Bool.and_eq_true, beq_iff_eq, Bool.not_eq_true'] at he
      obtain ⟨⟨rfl, -⟩, hleft⟩ := he
      rw [hgone] at hleft
      cases hleft
    rw [hnil]
    rfl
  · rename_i hleft
    rw [Bool.not_eq_true] at hleft
    congr 2
    apply List.filter_congr
    intro e _
    by_cases hkey : e.sessionKey = key
    · simp only [hkey, hleft, Bool.not_false, Bool.and_true]
    · simp [hkey]

theorem mem_keys_deleteSessions {stale : SessionInfo → Bool} :
    key ∈ (db.deleteSessions stale).keys ↔ ∃ s ∈ db.sessions, stale s = false ∧ s.key = key := by
  unfold deleteSessions keys
  simp only [List.mem_map, List.mem_filter, Bool.not_eq_true', and_assoc]

theorem Consistent.gone_iff (h : db.Consistent) {stale : SessionInfo → Bool} :
    db.sessions.any (fun s => s.key == key && stale s) = true ↔
      key ∈ db.keys ∧ key ∉ (db.deleteSessions stale).keys := by
  rw [mem_keys_deleteSessions]
  simp only [List.any_eq_true, Bool.and_eq_true, beq_iff_eq, keys, List.mem_map, not_exists, not_and]
  constructor
  · rintro ⟨s, hs, rfl, hstale⟩
    refine ⟨⟨s, hs, rfl⟩, ?_⟩
    intro s' hs' hfresh hkey
    rw [List.inj_on_of_nodup_map h.unique hs' hs hkey, hstale] at hfresh
    cases hfresh
  · rintro ⟨⟨s, hs, rfl⟩, hno⟩
    refine ⟨s, hs, rfl, ?_⟩
    by_contra hfresh
    exact hno s hs (by simpa using hfresh) rfl

theorem mem_keys_updateSession {g : SessionInfo → SessionInfo} (hg : ∀ s, (g s).key = s.key)
    (h : key ∈ db.keys) : key ∈ (db.updateSession k g).keys := by
  rwa [keys_updateSession hg]

end Db

/-! ## Calls that leave a field alone -/

/-- The fields that a call writes. -/
def StoreCall.writes : StoreCall → List String
  | .setMetadataField _ field _ => [trim field]
  | .setMetadataFields _ fields => fields.map (fun e => trim e.1)
  | _ => []

theorem mem_keys_createSession {db : Db} {key agentId k : String} {now : ℤ} (h : k ∈ db.keys) :
    k ∈ (db.createSession key agentId now).2.keys := by
  rw [Db.createSession_snd]
  refine Db.mem_keys_updateSession (fun _ => rfl) ?_
  split
  · exact h
  · rw [Db.keys, List.map_append]
    exact List.mem_append_left _ h

/-- A call that does not write a field loses it with the session and not otherwise. -/
theorem lookup_run {db : Db} (h : db.Consistent) (now : ℤ) (c : StoreCall) {key field : String}
    (hfield : field ∉ c.writes) :
    ((c.run now db).getSessionMetadata key).lookup field =
      if key ∈ db.keys ∧ key ∉ (c.run now db).keys then none
      else (db.getSessionMetadata key).lookup field := by
  -- most calls neither touch the metadata nor delete a session
  have frame {db' : Db} (hmetadata : db'.metadata = db.metadata)
      (hkeys : ∀ k ∈ db.keys, k ∈ db'.keys) :
      (db'.getSessionMetadata key).lookup field =
        if key ∈ db.keys ∧ key ∉ db'.keys then none
        else (db.getSessionMetadata key).lookup field := by
    rw [if_neg (fun hgone => hgone.2 (hkeys key hgone.1)), Db.lookup_of_metadata_eq hmetadata]
  have deleted (stale : SessionInfo → Bool) :
      ((db.deleteSessions stale).getSessionMetadata key).lookup field =
        if key ∈ db.keys ∧ key ∉ (db.deleteSessions stale).keys then none
        else (db.getSessionMetadata key).lookup field := by
    rw [Db.lookup_deleteSessions, if_congr h.gone_iff rfl rfl]
  cases c with
  | createSession k agentId =>
      refine frame ?_ (fun _ => mem_keys_createSession)
      rw [StoreCall.run, Db.createSession_snd]
      show (if db.hasSession k then db else _).metadata = db.metadata
      split <;> rfl
  | addMessage k role content =>
      have hdb : (db.addMessage k role content now).2.metadata = db.metadata ∧
          (db.addMessage k role content now).2.keys = db.keys := by
        unfold Db.addMessage Db.insertMessage
        split
        · rename_i e hrun
          exact ⟨rfl, rfl⟩
        · rename_i db₁ hrun
          split at hrun
          · cases hrun
            exact ⟨rfl, Db.keys_updateSession (fun _ => rfl)⟩
          · cases hrun
      exact frame hdb.1 (fun k hk => hdb.2 ▸ hk)
  | clearMessages k => exact frame rfl (fun _ hk => Db.mem_keys_updateSession (fun _ => rfl) hk)
  | compactMessages k n =>
      refine frame (Db.compactMessages_frame db k n now).2 ?_
      intro k' hk'
      rw [StoreCall.run]
      unfold Db.compactMessages
      simp only
      split
      · exact Db.mem_keys_updateSession (fun _ => rfl) hk'
      · exact hk'
  | removeSession k =>
      rw [StoreCall.run]
      unfold Db.removeSession
      split
      · exact deleted _
      · exact frame rfl (fun _ hk => hk)
  | cleanupStale maxAgeMs => exact deleted _
  | touchSession k => exact frame rfl (fun _ hk => Db.mem_keys_updateSession (fun _ => rfl) hk)
  | updateAgentId k agentId =>
      exact frame rfl (fun _ hk => Db.mem_keys_updateSession (fun _ => rfl) hk)
  | setMetadataField k f value =>
      rw [StoreCall.writes, List.mem_singleton] at hfield
      rw [StoreCall.run, Db.lookup_setSessionMetadataField, Db.keys_setSessionMetadataField,
        if_neg (fun hrow => hfield hrow.2.2), if_neg (fun hgone => hgone.2 hgone.1)]
  | setMetadataFields k fields =>
      rw [StoreCall.run]
      unfold Db.setSessionMetadataFields
      split
      · exact frame rfl (fun _ hk => hk)
      · split
        · rename_i db' hrun
          obtain ⟨hlookup, hkeys⟩ :
              (db'.getSessionMetadata key).lookup field = (db.getSessionMetadata key).lookup field ∧
                db'.keys = db.keys :=
            Db.lookup_replaceMetadataFields hrun hfield
          rw [hlookup, hkeys, if_neg (fun hgone => hgone.2 hgone.1)]
        · exact frame rfl (fun _ hk => hk)

end Oclaw.Gateway
