import Oclaw.Lib.Solo
import Oclaw.SecurityCore.Pairing

/-!
# The life of a pairing request

The methods of the pairing manager as functions on its data, each of them what its program
does when no other call is in progress. Over sequences of calls: a request leaves `Pending`
at most once, the pairings that were created are those of the approved requests, a code
verifies the request it was made for, and a call that fails leaves the pairings alone.
-/

namespace Oclaw.SecurityCore.Pairing

open Oclaw.Lib

/-! ## §1  Calls that run alone -/

section Calls

variable (d : Data)

def Data.newRequest (id code fromUserId fromDisplayName : String)
    (toIdentifier : Option String) : PairingRequest :=
  ⟨id, fromUserId, fromDisplayName, none, toIdentifier, code, .pending, d.now,
    d.now + d.timeoutSecs, []⟩

def Data.newPairing (r : PairingRequest) (toUserId pairingId : String) : DMPairing :=
  ⟨pairingId, r.fromUserId, toUserId, d.now, d.now, r.metadata⟩

def Data.withRequest (id : String) (r : PairingRequest) : Data :=
  { d with requests := d.requests.insert id r }

def Data.createRequest (id code fromUserId fromDisplayName : String)
    (toIdentifier : Option String) : Data × Except PairingError PairingRequest :=
  let request := d.newRequest id code fromUserId fromDisplayName toIdentifier
  ({ d.withRequest id request with codeStore := d.codeStore.insert code id }, .ok request)

def Data.approveRequest (requestId toUserId pairingId : String) :
    Data × Except PairingError DMPairing :=
  match d.requests.lookup requestId with
  | none => (d, .error .requestNotFound)
  | some r =>
      if r.status ≠ .pending then (d, .error .invalidStatus)
      else if r.expiresAt < d.now then
        (d.withRequest requestId { r with status := .expired }, .error .requestExpired)
      else
        let pairing := d.newPairing r toUserId pairingId
        ({ d.withRequest requestId { r with status := .approved, toUserId := some toUserId } with
          pairings := d.pairings.insert pairingId pairing }, .ok pairing)

def Data.rejectRequest (requestId : String) : Data × Except PairingError Unit :=
  match d.requests.lookup requestId with
  | none => (d, .error .requestNotFound)
  | some r =>
      if r.status ≠ .pending then (d, .error .invalidStatus)
      else (d.withRequest requestId { r with status := .rejected }, .ok ())

def Data.verifyCode (code : String) : Except PairingError PairingRequest :=
  match d.codeStore.lookup code with
  | none => .error .invalidCode
  | some requestId => d.verdict requestId

def Data.getPairing (userA userB : String) : Option DMPairing :=
  (d.pairings.entries.map (·.2)).find? (fun p =>
    (p.userA == userA && p.userB == userB) || (p.userA == userB && p.userB == userA))

def Data.listUserPairings (userId : String) : List DMPairing :=
  (d.pairings.entries.map (·.2)).filter (fun p => p.userA == userId || p.userB == userId)

def Data.removePairing (pairingId : String) : Data × Except PairingError Unit :=
  if pairingId ∈ d.pairings then ({ d with pairings := d.pairings.erase pairingId }, .ok ())
  else (d, .error .pairingNotFound)

/-- One turn of the loop of `cleanup_expired`. -/
def Data.drop (id : String) : Data :=
  match d.requests.lookup id with
  | none => d
  | some r => { d with requests := d.requests.erase id, codeStore := d.codeStore.erase r.code }

def Data.cleanupExpired (order : List String) : Data :=
  (expiredIds d order d.now).foldl Data.drop d

end Calls

def call (c : Call) (d : Data) : Data × Reply :=
  match c with
  | .createRequest id code fromUserId fromDisplayName toIdentifier =>
      let x := d.createRequest id code fromUserId fromDisplayName toIdentifier
      (x.1, .request x.2)
  | .approveRequest requestId toUserId pairingId =>
      let x := d.approveRequest requestId toUserId pairingId
      (x.1, .approved x.2)
  | .rejectRequest requestId =>
      let x := d.rejectRequest requestId
      (x.1, .done x.2)
  | .verifyCode code => (d, .request (d.verifyCode code))
  | .getPairing userA userB => (d, .pairing (d.getPairing userA userB))
  | .listUserPairings userId => (d, .pairings (d.listUserPairings userId))
  | .removePairing pairingId =>
      let x := d.removePairing pairingId
      (x.1, .done x.2)
  | .cleanupExpired order => (d.cleanupExpired order, .done (.ok ()))

theorem cleanupLoop_completes (ids : List String) (d : Data) :
    (cleanupLoop ids).Completes exec d (ids.foldl Data.drop d) (.done (.ok ())) := by
  induction ids generalizing d with
  | nil => exact .unlock .halt
  | cons id ids ih =>
      apply Prog.Completes.act
      rw [List.foldl_cons, Data.drop]
      cases hr : d.requests.lookup id with
      | none =>
          simp only [exec, hr]
          exact ih d
      | some r =>
          simp only [exec, hr]
          exact .lock (.act (.unlock (ih _)))

/-- The programs of the manager compute these functions. -/
theorem pairingManager_computes (timeoutSecs : Int) :
    (pairingManager timeoutSecs).Computes call := by
  intro c d
  cases c with
  | createRequest id code fromUserId fromDisplayName toIdentifier =>
      exact ⟨d, _, rfl, .act (.lock (.act (.lock (.act (.unlock (.unlock .halt))))))⟩
  | approveRequest requestId toUserId pairingId =>
      refine ⟨d, _, rfl, .lock (.act ?_)⟩
      simp only [call, Data.approveRequest, pairingManager, exec]
      cases d.requests.lookup requestId with
      | none => exact .unlock .halt
      | some r =>
          simp only
          split
          · exact .unlock .halt
          · split
            · exact .unlock .halt
            · exact .lock (.act (.unlock (.unlock .halt)))
  | rejectRequest requestId =>
      refine ⟨d, _, rfl, .lock (.act ?_)⟩
      simp only [call, Data.rejectRequest, pairingManager, exec]
      cases d.requests.lookup requestId with
      | none => exact .unlock .halt
      | some r =>
          simp only
          split <;> exact .unlock .halt
  | verifyCode code =>
      refine ⟨d, _, rfl, .lock (.act ?_)⟩
      simp only [call, Data.verifyCode, pairingManager, exec]
      cases d.codeStore.lookup code with
      | none => exact .unlock .halt
      | some requestId => exact .lock (.act (.unlock (.unlock .halt)))
  | getPairing userA userB => exact ⟨d, _, rfl, .lock (.act (.unlock .halt))⟩
  | listUserPairings userId => exact ⟨d, _, rfl, .lock (.act (.unlock .halt))⟩
  | removePairing pairingId =>
      refine ⟨d, _, rfl, .lock (.act ?_)⟩
      simp only [call, Data.removePairing, pairingManager, exec]
      split <;> exact .unlock .halt
  | cleanupExpired order =>
      exact ⟨d, _, rfl, .act (.lock (.act (cleanupLoop_completes _ d)))⟩

/-! ## §2  What a call does -/

/-- The calls by what they do to the data. -/
inductive Effect (d : Data) : Call → Reply → Data → Prop where
  | created (id code fromUserId fromDisplayName : String) (toIdentifier : Option String) :
      Effect d (.createRequest id code fromUserId fromDisplayName toIdentifier)
        (.request (.ok (d.newRequest id code fromUserId fromDisplayName toIdentifier)))
        { d.withRequest id (d.newRequest id code fromUserId fromDisplayName toIdentifier) with
          codeStore := d.codeStore.insert code id }
  | approved {id toUserId pairingId : String} {r : PairingRequest}
      (hr : d.requests.lookup id = some r) (hpending : r.status = .pending)
      (htime : d.now ≤ r.expiresAt) :
      Effect d (.approveRequest id toUserId pairingId)
        (.approved (.ok (d.newPairing r toUserId pairingId)))
        { d.withRequest id { r with status := .approved, toUserId := some toUserId } with
          pairings := d.pairings.insert pairingId (d.newPairing r toUserId pairingId) }
  | lapsed {id toUserId pairingId : String} {r : PairingRequest}
      (hr : d.requests.lookup id = some r) (hpending : r.status = .pending) :
      Effect d (.approveRequest id toUserId pairingId) (.approved (.error .requestExpired))
        (d.withRequest id { r with status := .expired })
  | rejected {id : String} {r : PairingRequest} (hr : d.requests.lookup id = some r)
      (hpending : r.status = .pending) :
      Effect d (.rejectRequest id) (.done (.ok ()))
        (d.withRequest id { r with status := .rejected })
  | unpaired {pairingId : String} :
      Effect d (.removePairing pairingId) (.done (.ok ()))
        { d with pairings := d.pairings.erase pairingId }
  | cleaned (order : List String) :
      Effect d (.cleanupExpired order) (.done (.ok ())) (d.cleanupExpired order)
  | refusedApproval {id toUserId pairingId : String} {e : PairingError} :
      Effect d (.approveRequest id toUserId pairingId) (.approved (.error e)) d
  | refusedRejection {id : String} {e : PairingError} :
      Effect d (.rejectRequest id) (.done (.error e)) d
  | notPaired {pairingId : String} {e : PairingError} :
      Effect d (.removePairing pairingId) (.done (.error e)) d
  | verified (code : String) : Effect d (.verifyCode code) (.request (d.verifyCode code)) d
  | read {userA userB : String} {p : Option DMPairing} :
      Effect d (.getPairing userA userB) (.pairing p) d
  | listed {userId : String} {ps : List DMPairing} :
      Effect d (.listUserPairings userId) (.pairings ps) d

theorem effect (c : Call) (d : Data) : Effect d c (call c d).2 (call c d).1 := by
  cases c with
  | createRequest id code fromUserId fromDisplayName toIdentifier => exact .created ..
  | approveRequest requestId toUserId pairingId =>
      simp only [call, Data.approveRequest]
      cases hr : d.requests.lookup requestId with
      | none => exact .refusedApproval
      | some r =>
          simp only
          split
          · exact .refusedApproval
          · rename_i hpending
            split
            · exact .lapsed hr (not_not.mp hpending)
            · rename_i htime
              exact .approved hr (not_not.mp hpending) (not_lt.mp htime)
  | rejectRequest requestId =>
      simp only [call, Data.rejectRequest]
      cases hr : d.requests.lookup requestId with
      | none => exact .refusedRejection
      | some r =>
          simp only
          split
          · exact .refusedRejection
          · rename_i hpending
            exact .rejected hr (not_not.mp hpending)
  | verifyCode code => exact .verified code
  | getPairing userA userB => exact .read
  | listUserPairings userId => exact .listed
  | removePairing pairingId =>
      simp only [call, Data.removePairing]
      split
      · exact .unpaired
      · exact .notPaired
  | cleanupExpired order => exact .cleaned order

section Cleanup

variable {d : Data} {id code : String}

theorem lookup_drop (d : Data) (id' : String) :
    (d.drop id').requests.lookup id = if id = id' then none else d.requests.lookup id := by
  unfold Data.drop
  cases hr : d.requests.lookup id' with
  | none =>
      simp only
      split
      · rename_i heq
        rw [heq, hr]
      · rfl
  | some r => exact HashMap.lookup_erase_eq

/-- A code is dropped only with a request that has it. -/
theorem codeStore_drop (d : Data) (id' : String) :
    (d.drop id').codeStore.lookup code = d.codeStore.lookup code ∨
      ((d.drop id').codeStore.lookup code = none ∧
        ∃ r, d.requests.lookup id' = some r ∧ r.code = code) := by
  unfold Data.drop
  cases hr : d.requests.lookup id' with
  | none => exact Or.inl rfl
  | some r =>
      simp only [HashMap.lookup_erase_eq]
      split
      · rename_i heq
        exact Or.inr ⟨rfl, r, rfl, heq.symm⟩
      · exact Or.inl rfl

theorem pairings_drop (d : Data) (id' : String) : (d.drop id').pairings = d.pairings := by
  unfold Data.drop
  split <;> rfl

theorem lookup_dropAll (ids : List String) (d : Data) :
    (ids.foldl Data.drop d).requests.lookup id =
      if id ∈ ids then none else d.requests.lookup id := by
  induction ids generalizing d with
  | nil => simp
  | cons id' ids ih =>
      rw [List.foldl_cons, ih, lookup_drop]
      by_cases hmem : id ∈ ids <;> by_cases heq : id = id' <;> simp [hmem, heq]

theorem codeStore_dropAll (ids : List String) (code : String) (d : Data) :
    (ids.foldl Data.drop d).codeStore.lookup code = d.codeStore.lookup code ∨
      ((ids.foldl Data.drop d).codeStore.lookup code = none ∧
        ∃ id ∈ ids, ∃ r, d.requests.lookup id = some r ∧ r.code = code) := by
  induction ids generalizing d with
  | nil => exact Or.inl rfl
  | cons id' ids ih =>
      rw [List.foldl_cons]
      rcases ih (d.drop id') with hrest | ⟨hnone, id, hid, r, hr, hcode⟩
      · rw [hrest]
        rcases codeStore_drop d id' with hsame | ⟨hnone, r, hr, hcode⟩
        · exact Or.inl hsame
        · exact Or.inr ⟨hnone, id', by simp, r, hr, hcode⟩
      · rw [lookup_drop] at hr
        split at hr
        · cases hr
        · exact Or.inr ⟨hnone, id, by simp [hid], r, hr, hcode⟩

theorem pairings_dropAll (ids : List String) (d : Data) :
    (ids.foldl Data.drop d).pairings = d.pairings := by
  induction ids generalizing d with
  | nil => rfl
  | cons id' ids ih => rw [List.foldl_cons, ih, pairings_drop]

end Cleanup

/-! ## §3  Histories -/

/-- A call, on the data with the clock at its time. -/
structure Event : Type where
  before : Data
  call : Call
  reply : Reply
  after : Data

def eventAt (d : Data) (now : Int) (c : Call) : Event :=
  ⟨env now d, c, (call c (env now d)).2, (call c (env now d)).1⟩

/-- The data and the events of a sequence of calls. -/
def history (timeoutSecs : Int) (cs : List (Int × Call)) : Data × List Event :=
  cs.foldl (fun x c => ((eventAt x.1 c.1 c.2).after, x.2 ++ [eventAt x.1 c.1 c.2]))
    ((pairingManager timeoutSecs).init, [])

/-- The request that an event creates. -/
def Event.request (e : Event) : Option PairingRequest :=
  match e.call, e.reply with
  | .createRequest _ _ _ _ _, .request (.ok r) => some r
  | _, _ => none

/-- The id of the request that an event approves, and the pairing. -/
def Event.pair (e : Event) : Option (String × DMPairing) :=
  match e.call, e.reply with
  | .approveRequest id _ _, .approved (.ok p) => some (id, p)
  | _, _ => none

def requestsOf (es : List Event) : List PairingRequest := es.filterMap Event.request

def pairsOf (es : List Event) : List (String × DMPairing) := es.filterMap Event.pair

/-- The ids and codes that were drawn are pairwise distinct. -/
structure Distinct (es : List Event) : Prop where
  requestIds : ((requestsOf es).map PairingRequest.id).Nodup
  codes : ((requestsOf es).map PairingRequest.code).Nodup
  pairingIds : ((pairsOf es).map (fun x => x.2.id)).Nodup

def Data.status (d : Data) (id : String) : Option PairingStatus :=
  (d.requests.lookup id).map PairingRequest.status

/-- The request was pending and is not any more. -/
def Event.leaves (id : String) (e : Event) : Bool :=
  e.before.status id = some .pending && e.after.status id ≠ some .pending

def Reply.failed : Reply → Bool
  | .request (.error _) | .approved (.error _) | .done (.error _) => true
  | _ => false

/-- The request is approved by one of the events, and not too late. -/
def ApprovedInTime (es : List Event) (id : String) : Prop :=
  ∃ e ∈ es, ∃ r, e.before.requests.lookup id = some r ∧ r.status ≠ .approved ∧
    e.after.status id = some .approved ∧ e.before.now ≤ r.expiresAt

/-- The pairing is entered by one of the events. -/
def PairingCreated (es : List Event) (p : DMPairing) : Prop :=
  ∃ e ∈ es, p.id ∉ e.before.pairings ∧ e.after.pairings.lookup p.id = some p

section Histories

variable {timeoutSecs : Int} {cs : List (Int × Call)} {es : List Event} {d d' : Data}
variable {c : Call} {reply : Reply} {e : Event} {id code k : String} {p : DMPairing}
variable {r r' : PairingRequest}

theorem history_concat (cs : List (Int × Call)) (now : Int) (c : Call) :
    history timeoutSecs (cs ++ [(now, c)]) =
      ((eventAt (history timeoutSecs cs).1 now c).after,
        (history timeoutSecs cs).2 ++ [eventAt (history timeoutSecs cs).1 now c]) := by
  simp [history]

theorem history_eq_sequence (timeoutSecs : Int) (cs : List (Int × Call)) :
    ((history timeoutSecs cs).1, (history timeoutSecs cs).2.map Event.reply) =
      (pairingManager timeoutSecs).sequence call cs := by
  induction cs using List.reverseRecOn with
  | nil => rfl
  | append_singleton cs c ih =>
      have hseq : (pairingManager timeoutSecs).sequence call (cs ++ [c]) =
          ((call c.2 (env c.1 ((pairingManager timeoutSecs).sequence call cs).1)).1,
            ((pairingManager timeoutSecs).sequence call cs).2 ++
              [(call c.2 (env c.1 ((pairingManager timeoutSecs).sequence call cs).1)).2]) := by
        simp only [Service.sequence, List.foldl_append, List.foldl_cons, List.foldl_nil]
        rfl
      rw [hseq, ← ih, history_concat, List.map_append]
      rfl

/-- A history is what a run of the manager with its locks does. -/
theorem history_is_run (timeoutSecs : Int) (cs : List (Int × Call)) :
    ∃ tr s, Runs (pairingManager timeoutSecs).Step (pairingManager timeoutSecs).start tr s ∧
      s.data = (history timeoutSecs cs).1 ∧
      s.replies.map Prod.snd = (history timeoutSecs cs).2.map Event.reply := by
  obtain ⟨tr, s, run, -, hdata, hreplies⟩ := (pairingManager_computes timeoutSecs).exists_run cs
  rw [← history_eq_sequence] at hdata hreplies
  exact ⟨tr, s, run, hdata, hreplies⟩

theorem requestsOf_concat (es : List Event) (e : Event) :
    requestsOf (es ++ [e]) = requestsOf es ++ e.request.toList := by
  rw [requestsOf, List.filterMap_append]
  cases he : e.request <;> simp [he, requestsOf]

theorem pairsOf_concat (es : List Event) (e : Event) :
    pairsOf (es ++ [e]) = pairsOf es ++ e.pair.toList := by
  rw [pairsOf, List.filterMap_append]
  cases he : e.pair <;> simp [he, pairsOf]

theorem Distinct.of_concat (h : Distinct (es ++ [e])) : Distinct es := by
  obtain ⟨hids, hcodes, hpairs⟩ := h
  rw [requestsOf_concat, List.map_append] at hids hcodes
  rw [pairsOf_concat, List.map_append] at hpairs
  exact ⟨hids.of_append_left, hcodes.of_append_left, hpairs.of_append_left⟩

/-- A new request has an id and a code that no earlier one has. -/
theorem Distinct.fresh (h : Distinct (es ++ [e])) (he : e.request = some r) {r₀ : PairingRequest}
    (hr₀ : r₀ ∈ requestsOf es) : r₀.id ≠ r.id ∧ r₀.code ≠ r.code := by
  obtain ⟨hids, hcodes, -⟩ := h
  rw [requestsOf_concat, he, List.map_append, List.nodup_append] at hids hcodes
  exact ⟨hids.2.2 _ (List.mem_map_of_mem hr₀) _ (by simp),
    hcodes.2.2 _ (List.mem_map_of_mem hr₀) _ (by simp)⟩

/-! What one effect does to a request, to the codes and to a pairing. -/

/-- A request comes from itself or is new; only a pending one changes its status. -/
theorem Effect.request_before (h : Effect d c reply d') (hr : d'.requests.lookup id = some r') :
    (∃ r, d.requests.lookup id = some r ∧ r'.id = r.id ∧ r'.code = r.code ∧
      (r' = r ∨ r.status = .pending ∧ r'.status ≠ .pending)) ∨
    ((Event.mk d c reply d').request = some r' ∧ r'.id = id) := by
  cases h with
  | created id' code' fromUserId fromDisplayName toIdentifier =>
      simp only [Data.withRequest, HashMap.lookup_insert_eq] at hr
      split at hr
      · rename_i heq
        cases hr
        exact Or.inr ⟨rfl, heq.symm⟩
      · exact Or.inl ⟨r', hr, rfl, rfl, Or.inl rfl⟩
  | approved hold hpending _ | lapsed hold hpending | rejected hold hpending =>
      simp only [Data.withRequest, HashMap.lookup_insert_eq] at hr
      split at hr
      · rename_i heq
        subst heq
        cases hr
        exact Or.inl ⟨_, hold, rfl, rfl, Or.inr ⟨hpending, by simp⟩⟩
      · exact Or.inl ⟨r', hr, rfl, rfl, Or.inl rfl⟩
  | cleaned order =>
      rw [Data.cleanupExpired, lookup_dropAll] at hr
      split at hr
      · cases hr
      · exact Or.inl ⟨r', hr, rfl, rfl, Or.inl rfl⟩
  | unpaired | refusedApproval | refusedRejection | notPaired | verified _ | read | listed =>
      exact Or.inl ⟨r', hr, rfl, rfl, Or.inl rfl⟩

/-- A code comes from itself or is that of a new request. -/
theorem Effect.code_before (h : Effect d c reply d') (hcode : d'.codeStore.lookup code = some id) :
    d.codeStore.lookup code = some id ∨
      ∃ r, (Event.mk d c reply d').request = some r ∧ r.code = code ∧ r.id = id := by
  cases h with
  | created id' code' fromUserId fromDisplayName toIdentifier =>
      simp only [HashMap.lookup_insert_eq] at hcode
      split at hcode
      · rename_i heq
        cases hcode
        exact Or.inr ⟨_, rfl, heq.symm, rfl⟩
      · exact Or.inl hcode
  | cleaned order =>
      rcases codeStore_dropAll (expiredIds d order d.now) code d with hsame | ⟨hnone, -⟩
      · exact Or.inl (hsame ▸ hcode)
      · rw [Data.cleanupExpired, hnone] at hcode
        cases hcode
  | approved _ _ _ | lapsed _ _ | rejected _ _ | unpaired | refusedApproval | refusedRejection
  | notPaired | verified _ | read | listed => exact Or.inl hcode

/-- A pairing comes from itself or is created by an approval. -/
theorem Effect.pairing_before (h : Effect d c reply d') (hp : d'.pairings.lookup k = some p) :
    d.pairings.lookup k = some p ∨
      ∃ id, (Event.mk d c reply d').pair = some (id, p) ∧ p.id = k := by
  cases h with
  | approved hold hpending htime =>
      simp only [HashMap.lookup_insert_eq] at hp
      split at hp
      · rename_i heq
        cases hp
        exact Or.inr ⟨_, rfl, heq.symm⟩
      · exact Or.inl hp
  | unpaired =>
      simp only [HashMap.lookup_erase_eq] at hp
      split at hp
      · cases hp
      · exact Or.inl hp
  | cleaned order =>
      rw [Data.cleanupExpired, pairings_dropAll] at hp
      exact Or.inl hp
  | created _ _ _ _ _ | lapsed _ _ | rejected _ _ | refusedApproval | refusedRejection | notPaired
  | verified _ | read | listed => exact Or.inl hp

/-- **Spec of an approval.** -/
theorem Effect.pair_iff (h : Effect d c reply d') :
    (Event.mk d c reply d').pair = some (id, p) ↔
      ∃ toUserId pairingId r, c = .approveRequest id toUserId pairingId ∧
        reply = .approved (.ok p) ∧ d.requests.lookup id = some r ∧ r.status = .pending ∧
        d.now ≤ r.expiresAt ∧ d'.status id = some .approved ∧ p.id = pairingId ∧
        d'.pairings = d.pairings.insert pairingId p := by
  constructor
  · cases h with
    | approved hold hpending htime =>
        intro heq
        cases heq
        exact ⟨_, _, _, rfl, rfl, hold, hpending, htime,
          by simp [Data.status, Data.withRequest], rfl, rfl⟩
    | created _ _ _ _ _ | lapsed _ _ | rejected _ _ | unpaired | cleaned _ | refusedApproval
    | refusedRejection | notPaired | verified _ | read | listed => rintro ⟨⟩
  · rintro ⟨toUserId, pairingId, r, rfl, rfl, -⟩
    rfl

/-! ## §4  What the data remembers -/

/-- Some event let the request leave `Pending`. -/
def HasLeft (es : List Event) (id : String) : Prop := ∃ e ∈ es, e.leaves id = true

/-- The requests, the codes and the pairings of the data come from the events. -/
structure Ledger (es : List Event) (d : Data) : Prop where
  stored : ∀ {id r}, d.requests.lookup id = some r →
    r.id = id ∧ ∃ r₀ ∈ requestsOf es, r₀.id = id ∧ r₀.code = r.code ∧
      (r.status = .pending → r₀ = r)
  indexed : ∀ {id r}, d.requests.lookup id = some r → d.codeStore.lookup r.code = some id
  sound : ∀ {code id}, d.codeStore.lookup code = some id →
    ∃ r₀ ∈ requestsOf es, r₀.code = code ∧ r₀.id = id
  left : ∀ {id}, HasLeft es id → d.status id ≠ some .pending ∧ ∃ r₀ ∈ requestsOf es, r₀.id = id
  paired : ∀ {k p}, d.pairings.lookup k = some p → p.id = k ∧ p ∈ (pairsOf es).map Prod.snd

theorem ledger_nil (timeoutSecs : Int) : Ledger [] (pairingManager timeoutSecs).init := by
  constructor
  · intro id r h; cases h
  · intro id r h; cases h
  · intro code id h; cases h
  · rintro id ⟨e, he, -⟩; cases he
  · intro k p h; cases h

theorem mem_requestsOf_concat {r₀ : PairingRequest} (h : r₀ ∈ requestsOf es) (e : Event) :
    r₀ ∈ requestsOf (es ++ [e]) := by
  rw [requestsOf_concat]
  exact List.mem_append_left _ h

theorem request_mem_concat (h : e.request = some r) : r ∈ requestsOf (es ++ [e]) := by
  rw [requestsOf_concat, h]
  simp

theorem status_eq_some {status : PairingStatus} :
    d.status id = some status ↔ ∃ r, d.requests.lookup id = some r ∧ r.status = status :=
  Option.map_eq_some_iff

/-- A code stays as long as a request that has it. -/
theorem Ledger.code_kept (hl : Ledger es d) (h : Effect d c reply d')
    (hdistinct : Distinct (es ++ [⟨d, c, reply, d'⟩])) (hr : d.requests.lookup id = some r)
    (hkept : (d'.requests.lookup id).isSome = true) : d'.codeStore.lookup r.code = some id := by
  have hcode := hl.indexed hr
  cases h with
  | created id' code' fromUserId fromDisplayName toIdentifier =>
      obtain ⟨-, r₀, hr₀, -, hr₀code, -⟩ := hl.stored hr
      have hne : r.code ≠ code' := hr₀code ▸ (hdistinct.fresh rfl hr₀).2
      rw [HashMap.lookup_insert_eq, if_neg hne]
      exact hcode
  | cleaned order =>
      rcases codeStore_dropAll (expiredIds d order d.now) r.code d with
        hsame | ⟨-, id', hid', r', hr', hcode'⟩
      · exact hsame.trans hcode
      · -- the request with this code was dropped, and it is the one that was kept
        have hindexed := hl.indexed hr'
        rw [hcode', hcode] at hindexed
        cases hindexed
        rw [Data.cleanupExpired, lookup_dropAll, if_pos hid'] at hkept
        cases hkept
  | approved _ _ _ | lapsed _ _ | rejected _ _ | unpaired | refusedApproval | refusedRejection
  | notPaired | verified _ | read | listed => exact hcode

theorem Ledger.stored_step (hl : Ledger es d) (h : Effect d c reply d')
    (hr' : d'.requests.lookup id = some r') :
    r'.id = id ∧ ∃ r₀ ∈ requestsOf (es ++ [⟨d, c, reply, d'⟩]), r₀.id = id ∧ r₀.code = r'.code ∧
      (r'.status = .pending → r₀ = r') := by
  rcases h.request_before hr' with ⟨r, hr, hid, hcode, hsame⟩ | ⟨hnew, hid⟩
  · obtain ⟨hrid, r₀, hr₀, hr₀id, hr₀code, hpending⟩ := hl.stored hr
    refine ⟨hid.trans hrid, r₀, mem_requestsOf_concat hr₀ _, hr₀id,
      hr₀code.trans hcode.symm, ?_⟩
    rcases hsame with rfl | ⟨-, hne⟩
    · exact hpending
    · intro hp
      exact absurd hp hne
  · exact ⟨hid, r', request_mem_concat hnew, hid, rfl, fun _ => rfl⟩

theorem Ledger.indexed_step (hl : Ledger es d) (h : Effect d c reply d')
    (hdistinct : Distinct (es ++ [⟨d, c, reply, d'⟩])) (hr' : d'.requests.lookup id = some r') :
    d'.codeStore.lookup r'.code = some id := by
  rcases h.request_before hr' with ⟨r, hr, -, hcode, -⟩ | ⟨hnew, hid⟩
  · rw [hcode]
    exact hl.code_kept h hdistinct hr (by rw [hr']; rfl)
  · cases h with
    | created id' code' fromUserId fromDisplayName toIdentifier =>
        cases hnew
        cases hid
        simp [Data.newRequest]
    | approved _ _ _ | lapsed _ _ | rejected _ _ | unpaired | cleaned _ | refusedApproval
    | refusedRejection | notPaired | verified _ | read | listed => cases hnew

/-- What has left `Pending` does not come back. -/
theorem Ledger.left_step (hl : Ledger es d) (h : Effect d c reply d')
    (hdistinct : Distinct (es ++ [⟨d, c, reply, d'⟩])) (hleft : HasLeft es id) :
    d'.status id ≠ some .pending := by
  obtain ⟨hstatus, r₀, hr₀, hr₀id⟩ := hl.left hleft
  intro hpending
  obtain ⟨r', hr', hpending'⟩ := status_eq_some.mp hpending
  rcases h.request_before hr' with ⟨r, hr, -, -, rfl | ⟨-, hne⟩⟩ | ⟨hnew, hid⟩
  · exact hstatus (status_eq_some.mpr ⟨r', hr, hpending'⟩)
  · exact hne hpending'
  · exact (hdistinct.fresh hnew hr₀).1 (hr₀id.trans hid.symm)

/-- **One event keeps the ledger.** -/
theorem Ledger.step (hl : Ledger es d) (h : Effect d c reply d')
    (hdistinct : Distinct (es ++ [⟨d, c, reply, d'⟩])) :
    Ledger (es ++ [⟨d, c, reply, d'⟩]) d' := by
  refine ⟨hl.stored_step h, hl.indexed_step h hdistinct, ?_, ?_, ?_⟩
  · intro code id hcode
    rcases h.code_before hcode with hold | ⟨r, hnew, hrcode, hrid⟩
    · obtain ⟨r₀, hr₀, hr₀code, hr₀id⟩ := hl.sound hold
      exact ⟨r₀, mem_requestsOf_concat hr₀ _, hr₀code, hr₀id⟩
    · exact ⟨r, request_mem_concat hnew, hrcode, hrid⟩
  · rintro id ⟨e, he, hleaves⟩
    rcases List.mem_append.mp he with he | he
    · obtain ⟨-, r₀, hr₀, hr₀id⟩ := hl.left ⟨e, he, hleaves⟩
      exact ⟨hl.left_step h hdistinct ⟨e, he, hleaves⟩, r₀, mem_requestsOf_concat hr₀ _, hr₀id⟩
    · obtain rfl := List.mem_singleton.mp he
      simp only [Event.leaves, Bool.and_eq_true, decide_eq_true_eq] at hleaves
      obtain ⟨r, hr, -⟩ := status_eq_some.mp hleaves.1
      obtain ⟨-, r₀, hr₀, hr₀id, -⟩ := hl.stored hr
      exact ⟨hleaves.2, r₀, mem_requestsOf_concat hr₀ _, hr₀id⟩
  · intro k p hp
    rw [pairsOf_concat, List.map_append, List.mem_append]
    rcases h.pairing_before hp with hold | ⟨id, hnew, hk⟩
    · exact ⟨(hl.paired hold).1, Or.inl (hl.paired hold).2⟩
    · exact ⟨hk, Or.inr (by rw [hnew]; simp)⟩

theorem Ledger.env (hl : Ledger es d) (now : Int) : Ledger es (env now d) :=
  ⟨hl.stored, hl.indexed, hl.sound, hl.left, hl.paired⟩

theorem ledger_history (h : Distinct (history timeoutSecs cs).2) :
    Ledger (history timeoutSecs cs).2 (history timeoutSecs cs).1 := by
  induction cs using List.reverseRecOn with
  | nil => exact ledger_nil timeoutSecs
  | append_singleton cs c ih =>
      obtain ⟨now, c⟩ := c
      rw [history_concat] at h ⊢
      exact ((ih h.of_concat).env now).step (effect c _) h

/-! ## §5  The life cycle -/

/-- The history up to an event, and what is known before it. -/
theorem history_split {before after : List Event}
    (h : (history timeoutSecs cs).2 = before ++ e :: after)
    (hdistinct : Distinct (history timeoutSecs cs).2) :
    Ledger before e.before ∧ Effect e.before e.call e.reply e.after ∧
      Distinct (before ++ [e]) := by
  induction cs using List.reverseRecOn generalizing after with
  | nil => simp [history] at h
  | append_singleton cs c ih =>
      obtain ⟨now, c⟩ := c
      rw [history_concat] at h hdistinct
      rcases List.eq_nil_or_concat after with rfl | ⟨after', last, rfl⟩
      · obtain ⟨rfl, hlast⟩ := List.append_inj' h rfl
        cases hlast
        exact ⟨(ledger_history hdistinct.of_concat).env now, effect c _, hdistinct⟩
      · have h' : (history timeoutSecs cs).2 ++ [eventAt (history timeoutSecs cs).1 now c] =
            (before ++ e :: after') ++ [last] := by
          rw [List.append_assoc, List.cons_append]
          simpa using h
        obtain ⟨hrest, -⟩ := List.append_inj' h' rfl
        exact ih hrest hdistinct.of_concat

theorem history_event (hdistinct : Distinct (history timeoutSecs cs).2)
    (he : e ∈ (history timeoutSecs cs).2) :
    ∃ before, Ledger before e.before ∧ Effect e.before e.call e.reply e.after ∧
      Distinct (before ++ [e]) := by
  obtain ⟨before, after, h⟩ := List.append_of_mem he
  exact ⟨before, history_split h hdistinct⟩

theorem mem_pairsOf : (id, p) ∈ pairsOf es ↔ ∃ e ∈ es, e.pair = some (id, p) :=
  List.mem_filterMap

/-- An approval takes the request out of `Pending`. -/
theorem Effect.leaves_of_pair (h : Effect d c reply d')
    (hpair : (Event.mk d c reply d').pair = some (id, p)) :
    (Event.mk d c reply d').leaves id = true := by
  obtain ⟨-, -, r, -, -, hr, hpending, -, hafter, -⟩ := h.pair_iff.mp hpair
  have hbefore : d.status id = some .pending := status_eq_some.mpr ⟨r, hr, hpending⟩
  simp [Event.leaves, hbefore, hafter]

/-- Only an approval that succeeds makes a request approved. -/
theorem Effect.pair_of_approved (h : Effect d c reply d')
    (hr : d.requests.lookup id = some r) (hne : r.status ≠ .approved)
    (hafter : d'.status id = some .approved) :
    ∃ p, (Event.mk d c reply d').pair = some (id, p) := by
  obtain ⟨r', hr', happroved⟩ := status_eq_some.mp hafter
  have hsame : d'.requests.lookup id ≠ d.requests.lookup id := by
    intro heq
    rw [heq, hr] at hr'
    cases hr'
    exact hne happroved
  cases h with
  | approved hold hpending htime =>
      simp only [Data.withRequest, HashMap.lookup_insert_eq] at hr' hsame
      split at hr'
      · rename_i heq
        subst heq
        exact ⟨_, rfl⟩
      · rename_i hid
        simp [hid] at hsame
  | created _ _ _ _ _ | lapsed _ _ | rejected _ _ =>
      simp only [Data.withRequest, HashMap.lookup_insert_eq] at hr' hsame
      split at hr'
      · cases hr'
        cases happroved
      · rename_i hid
        simp [hid] at hsame
  | cleaned order =>
      rw [Data.cleanupExpired, lookup_dropAll] at hr' hsame
      split at hr'
      · cases hr'
      · rename_i hid
        simp [hid] at hsame
  | unpaired | refusedApproval | refusedRejection | notPaired | verified _ | read | listed =>
      exact absurd rfl hsame

theorem Effect.pairings_of_failed (h : Effect d c reply d') (hfailed : reply.failed = true) :
    d'.pairings = d.pairings := by
  cases h with
  | lapsed _ _ | refusedApproval | refusedRejection | notPaired | verified _ => rfl
  | created _ _ _ _ _ | approved _ _ _ | rejected _ _ | unpaired | cleaned _ | read | listed =>
      cases hfailed

theorem Effect.verify_reply (h : Effect d c reply d') (hc : c = .verifyCode code) :
    reply = .request (d.verifyCode code) := by
  cases h with
  | verified code' => cases hc; rfl
  | created _ _ _ _ _ | approved _ _ _ | lapsed _ _ | rejected _ _ | unpaired | cleaned _
  | refusedApproval | refusedRejection | notPaired | read | listed => cases hc

theorem history_leaves_once (h : Distinct (history timeoutSecs cs).2) (id : String) :
    ((history timeoutSecs cs).2.filter (Event.leaves id)).length ≤ 1 := by
  induction cs using List.reverseRecOn with
  | nil => simp [history]
  | append_singleton cs c ih =>
      obtain ⟨now, c⟩ := c
      rw [history_concat] at h ⊢
      have hl := (ledger_history h.of_concat).env now
      rw [List.filter_append, List.length_append]
      by_cases hleaves : (eventAt (history timeoutSecs cs).1 now c).leaves id = true
      · -- it was pending, so it had not left before
        have hnone : (history timeoutSecs cs).2.filter (Event.leaves id) = [] := by
          rw [List.filter_eq_nil_iff]
          intro e he hpast
          simp only [Event.leaves, Bool.and_eq_true, decide_eq_true_eq] at hleaves
          exact (hl.left ⟨e, he, hpast⟩).1 hleaves.1
        rw [hnone, List.filter_singleton, hleaves]
        rfl
      · rw [List.filter_singleton, eq_false_of_ne_true hleaves]
        exact ih h.of_concat

/-- No request is approved twice. -/
theorem history_pairs_nodup (h : Distinct (history timeoutSecs cs).2) :
    ((pairsOf (history timeoutSecs cs).2).map Prod.fst).Nodup := by
  induction cs using List.reverseRecOn with
  | nil => simp [history, pairsOf]
  | append_singleton cs c ih =>
      obtain ⟨now, c⟩ := c
      rw [history_concat] at h ⊢
      have hl := (ledger_history h.of_concat).env now
      rw [pairsOf_concat, List.map_append]
      cases hpair : (eventAt (history timeoutSecs cs).1 now c).pair with
      | none => simpa using ih h.of_concat
      | some x =>
          obtain ⟨id, p⟩ := x
          refine List.Nodup.append (ih h.of_concat) (by simp) ?_
          rw [Option.toList_some, List.map_singleton, List.disjoint_singleton]
          intro hmem
          obtain ⟨⟨id', p'⟩, hpast, rfl⟩ := List.mem_map.mp hmem
          obtain ⟨e, he, hpast⟩ := mem_pairsOf.mp hpast
          obtain ⟨-, -, heffect, -⟩ := history_event h.of_concat he
          obtain ⟨-, -, r, -, -, hr, hpending, -⟩ := (effect c _).pair_iff.mp hpair
          exact (hl.left ⟨e, he, heffect.leaves_of_pair hpast⟩).1
            (status_eq_some.mpr ⟨r, hr, hpending⟩)

theorem approvedInTime_iff (h : Distinct (history timeoutSecs cs).2) (id : String) :
    id ∈ (pairsOf (history timeoutSecs cs).2).map Prod.fst ↔
      ApprovedInTime (history timeoutSecs cs).2 id := by
  constructor
  · intro hmem
    obtain ⟨⟨id', p⟩, hp, rfl⟩ := List.mem_map.mp hmem
    obtain ⟨e, he, hpair⟩ := mem_pairsOf.mp hp
    obtain ⟨-, -, heffect, -⟩ := history_event h he
    obtain ⟨-, -, r, -, -, hr, hpending, htime, hafter, -⟩ := heffect.pair_iff.mp hpair
    exact ⟨e, he, r, hr, by simp [hpending], hafter, htime⟩
  · rintro ⟨e, he, r, hr, hne, hafter, -⟩
    obtain ⟨-, -, heffect, -⟩ := history_event h he
    obtain ⟨p, hpair⟩ := heffect.pair_of_approved hr hne hafter
    exact List.mem_map.mpr ⟨(id, p), mem_pairsOf.mpr ⟨e, he, hpair⟩, rfl⟩

theorem pairingCreated_iff (h : Distinct (history timeoutSecs cs).2) (p : DMPairing) :
    p ∈ (pairsOf (history timeoutSecs cs).2).map Prod.snd ↔
      PairingCreated (history timeoutSecs cs).2 p := by
  constructor
  · intro hmem
    obtain ⟨⟨id, p'⟩, hp, rfl⟩ := List.mem_map.mp hmem
    obtain ⟨e, he, hpair⟩ := mem_pairsOf.mp hp
    obtain ⟨before, hl, heffect, hdistinct⟩ := history_event h he
    obtain ⟨-, pairingId, -, -, -, -, -, -, -, rfl, hinsert⟩ := heffect.pair_iff.mp hpair
    refine ⟨e, he, ?_, by rw [hinsert]; exact AList.lookup_insert ..⟩
    -- a pairing with this id was created before, with another id
    intro hold
    obtain ⟨p₀, hp₀⟩ := Option.isSome_iff_exists.mp (AList.lookup_isSome.mpr hold)
    obtain ⟨hid, hpast⟩ := hl.paired hp₀
    obtain ⟨x, hx, rfl⟩ := List.mem_map.mp hpast
    have hids := hdistinct.pairingIds
    rw [pairsOf_concat, hpair, List.map_append, List.nodup_append] at hids
    exact hids.2.2 _ (List.mem_map_of_mem hx) _ (by simp) hid
  · rintro ⟨e, he, hnew, hafter⟩
    obtain ⟨-, -, heffect, -⟩ := history_event h he
    rcases heffect.pairing_before hafter with hold | ⟨id, hpair, -⟩
    · exact absurd (AList.lookup_isSome.mp (by rw [hold]; rfl)) hnew
    · exact List.mem_map.mpr ⟨(id, p), mem_pairsOf.mpr ⟨e, he, hpair⟩, rfl⟩

theorem verdict_eq_ok :
    d.verdict id = .ok r ↔
      d.requests.lookup id = some r ∧ r.status = .pending ∧ d.now ≤ r.expiresAt := by
  unfold Data.verdict
  cases hr : d.requests.lookup id with
  | none => simp
  | some r₀ =>
      simp only [Option.some.injEq]
      split
      · rename_i hlate
        constructor
        · intro h; cases h
        · rintro ⟨rfl, -, htime⟩
          exact absurd hlate (not_lt.mpr htime)
      · rename_i htime
        split
        · rename_i hne
          constructor
          · intro h; cases h
          · rintro ⟨rfl, hpending, -⟩
            exact absurd hpending hne
        · rename_i hpending
          constructor
          · intro h
            cases h
            exact ⟨rfl, not_not.mp hpending, not_lt.mp htime⟩
          · rintro ⟨rfl, -⟩
            rfl

/-- **Spec of `verify_code`**, on the data that a history leaves. -/
theorem Ledger.verifyCode_iff (hl : Ledger es d) (hdistinct : Distinct es) :
    d.verifyCode code = .ok r ↔
      r ∈ requestsOf es ∧ r.code = code ∧ d.requests.lookup r.id = some r ∧
        r.status = .pending ∧ d.now ≤ r.expiresAt := by
  constructor
  · intro h
    unfold Data.verifyCode at h
    cases hcode : d.codeStore.lookup code with
    | none => rw [hcode] at h; cases h
    | some requestId =>
        rw [hcode] at h
        obtain ⟨hr, hpending, htime⟩ := verdict_eq_ok.mp h
        obtain ⟨hid, r₀, hr₀, hr₀id, -, hsame⟩ := hl.stored hr
        obtain rfl := hsame hpending
        obtain ⟨r₁, hr₁, hr₁code, hr₁id⟩ := hl.sound hcode
        obtain rfl : r₀ = r₁ :=
          List.inj_on_of_nodup_map hdistinct.requestIds hr₀ hr₁ (hr₀id.trans hr₁id.symm)
        exact ⟨hr₀, hr₁code, hid ▸ hr, hpending, htime⟩
  · rintro ⟨-, rfl, hr, hpending, htime⟩
    simp only [Data.verifyCode, hl.indexed hr]
    exact verdict_eq_ok.mpr ⟨hr, hpending, htime⟩

end Histories

/-- **The life cycle of pairing requests**, over every sequence of calls at any times: a
request leaves `Pending` at most once, requests approved in time and created pairings
correspond one to one, a code verifies the stored, pending and unexpired request it was
made for, and a call that fails leaves the pairings as they are. -/
theorem pairing_life_cycle (timeoutSecs : Int) (cs : List (Int × Call))
    (h : Distinct (history timeoutSecs cs).2) :
    (∀ id, ((history timeoutSecs cs).2.filter (Event.leaves id)).length ≤ 1) ∧
    (((pairsOf (history timeoutSecs cs).2).map Prod.fst).Nodup ∧
      ((pairsOf (history timeoutSecs cs).2).map Prod.snd).Nodup ∧
      (∀ id, id ∈ (pairsOf (history timeoutSecs cs).2).map Prod.fst ↔
        ApprovedInTime (history timeoutSecs cs).2 id) ∧
      (∀ p, p ∈ (pairsOf (history timeoutSecs cs).2).map Prod.snd ↔
        PairingCreated (history timeoutSecs cs).2 p)) ∧
    (∀ before e after, (history timeoutSecs cs).2 = before ++ e :: after →
      ∀ code r, e.call = .verifyCode code →
        (e.reply = .request (.ok r) ↔
          r ∈ requestsOf before ∧ r.code = code ∧ e.before.requests.lookup r.id = some r ∧
            r.status = .pending ∧ e.before.now ≤ r.expiresAt)) ∧
    ∀ e ∈ (history timeoutSecs cs).2, e.reply.failed = true →
      e.after.pairings = e.before.pairings := by
  refine ⟨history_leaves_once h, ⟨history_pairs_nodup h, ?_, approvedInTime_iff h,
    pairingCreated_iff h⟩, ?_, ?_⟩
  · apply List.Nodup.of_map DMPairing.id
    rw [List.map_map]
    exact h.pairingIds
  · intro before e after hsplit code r hcall
    obtain ⟨hl, heffect, hdistinct⟩ := history_split hsplit h
    have hreply : e.reply = .request (e.before.verifyCode code) := heffect.verify_reply hcall
    rw [hreply, Reply.request.injEq]
    exact hl.verifyCode_iff hdistinct.of_concat
  · intro e he hfailed
    obtain ⟨-, -, heffect, -⟩ := history_event h he
    exact heffect.pairings_of_failed hfailed

/-- A request is approved, and then once more. -/
def approvedTwice : List (Int × Call) :=
  [(0, .createRequest "r" "K7QX" "ada" "Ada" none), (5, .approveRequest "r" "bob" "p"),
    (6, .approveRequest "r" "eve" "q")]

theorem approved_twice_leaves_once :
    ((history 10 approvedTwice).2.filter (Event.leaves "r")).length ≤ 1 ∧
      ApprovedInTime (history 10 approvedTwice).2 "r" := by
  have hdistinct : Distinct (history 10 approvedTwice).2 :=
    ⟨by decide, by decide, by decide⟩
  have hlife := pairing_life_cycle 10 approvedTwice hdistinct
  exact ⟨hlife.1 "r", (hlife.2.1.2.2.1 "r").mp (by decide)⟩

end Oclaw.SecurityCore.Pairing
