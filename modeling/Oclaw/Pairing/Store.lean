import Mathlib.Data.List.Basic
import Mathlib.Order.Lattice

/-!
# Pairing by setup code

`PairingStore` of `crates/pairing/src/store.rs`. An age is a difference of two unsigned
clock readings that nothing keeps in order: a build with overflow checks panics when the
clock has stepped back, a build without them wraps. Each call says which readings of the
clock it takes.
-/

namespace Oclaw.SetupPairing

/-! ## §1  Data -/

structure PairingRequest : Type where
  id : String
  code : String
  createdAt : UInt64
  lastSeenAt : UInt64
  metadata : List (String × String)
  approved : Bool

inductive PairingError : Type where
  | tooManyPending (max : ℕ)
  | notFound (id : String)
  | expired (id : String)

def PairingError.text : PairingError → String
  | .tooManyPending max => s!"too many pending requests (max {max})"
  | .notFound id => s!"request not found: {id}"
  | .expired id => s!"request expired: {id}"

structure PairingStore : Type where
  requests : List PairingRequest
  maxPending : ℕ
  ttlMs : UInt64

def PairingStore.new (maxPending : ℕ) (ttlMs : UInt64) : PairingStore := ⟨[], maxPending, ttlMs⟩

/-- At most three pending requests, for one hour. -/
def PairingStore.default : PairingStore := .new 3 3600000

/-- How a build treats a subtraction below zero. -/
inductive Build : Type where
  | checked
  | wrapping

/-- The methods. The random values are arguments, and so are the clock readings: two of them
for `create_request`, which cleans up first. -/
inductive Call : Type where
  | createRequest (id code : String) (cleanedAt now : UInt64)
  | verifyCode (code : String) (now : UInt64)
  | approve (id : String) (now : UInt64)
  | reject (id : String)
  | cleanupExpired (now : UInt64)

inductive Reply : Type where
  | created (r : Except PairingError PairingRequest)
  | found (r : Option PairingRequest)
  | done (r : Except PairingError Unit)
  | cleaned
  | panicked

/-! ## §2  The methods -/

/-- `a - b` on `u64`; `none` is a panic. -/
def sub (build : Build) (a b : UInt64) : Option UInt64 :=
  match build with
  | .checked => if b ≤ a then some (a - b) else none
  | .wrapping => some (a - b)

/-- The test `(now - r.created_at) < self.ttl_ms`. -/
def PairingRequest.inTtl (build : Build) (ttlMs now : UInt64) (r : PairingRequest) :
    Option Bool :=
  (sub build now r.createdAt).map (fun age => decide (age < ttlMs))

/-- The `retain` of `cleanup_expired`: what is kept, and whether it panicked. A panic leaves
the requests that were not looked at yet in place, and the one it happened at. -/
def retain (build : Build) (ttlMs now : UInt64) : List PairingRequest → List PairingRequest × Bool
  | [] => ([], false)
  | r :: rs =>
      let rest := retain build ttlMs now rs
      if r.approved then (r :: rest.1, rest.2)
      else
        match r.inTtl build ttlMs now with
        | none => (r :: rs, true)
        | some true => (r :: rest.1, rest.2)
        | some false => rest

/-- The `find` of `verify_code`; the outer `none` is a panic. -/
def findCode (build : Build) (code : String) (ttlMs now : UInt64) :
    List PairingRequest → Option (Option PairingRequest)
  | [] => some none
  | r :: rs =>
      if r.code = code ∧ r.approved = false then
        match r.inTtl build ttlMs now with
        | none => none
        | some true => some (some r)
        | some false => findCode build code ttlMs now rs
      else findCode build code ttlMs now rs

/-- The first request with the id becomes approved. -/
def approveFirst (id : String) (now : UInt64) : List PairingRequest → List PairingRequest
  | [] => []
  | r :: rs =>
      if r.id = id then { r with approved := true, lastSeenAt := now } :: rs
      else r :: approveFirst id now rs

namespace PairingStore

variable (build : Build) (s : PairingStore)

def listPending : List PairingRequest := s.requests.filter (fun r => !r.approved)

def listApproved : List PairingRequest := s.requests.filter (fun r => r.approved)

def cleanupExpired (now : UInt64) : PairingStore × Reply :=
  let kept := retain build s.ttlMs now s.requests
  ({ s with requests := kept.1 }, if kept.2 then .panicked else .cleaned)

def createRequest (id code : String) (cleanedAt now : UInt64) : PairingStore × Reply :=
  let kept := retain build s.ttlMs cleanedAt s.requests
  let cleaned := { s with requests := kept.1 }
  if kept.2 then (cleaned, .panicked)
  else if s.maxPending ≤ cleaned.listPending.length then
    (cleaned, .created (.error (.tooManyPending s.maxPending)))
  else
    let r : PairingRequest := ⟨id, code, now, now, [], false⟩
    ({ cleaned with requests := kept.1 ++ [r] }, .created (.ok r))

def verifyCode (code : String) (now : UInt64) : Reply :=
  match findCode build code s.ttlMs now s.requests with
  | none => .panicked
  | some r => .found r

def approve (id : String) (now : UInt64) : PairingStore × Reply :=
  if s.requests.any (fun r => r.id = id) then
    ({ s with requests := approveFirst id now s.requests }, .done (.ok ()))
  else (s, .done (.error (.notFound id)))

def reject (id : String) : PairingStore × Reply :=
  if s.requests.any (fun r => r.id = id) then
    ({ s with requests := s.requests.eraseP (fun r => r.id = id) }, .done (.ok ()))
  else (s, .done (.error (.notFound id)))

def call (c : Call) : PairingStore × Reply :=
  match c with
  | .createRequest id code cleanedAt now => s.createRequest build id code cleanedAt now
  | .verifyCode code now => (s, s.verifyCode build code now)
  | .approve id now => s.approve id now
  | .reject id => s.reject id
  | .cleanupExpired now => s.cleanupExpired build now

end PairingStore

/-! ## §3  What pairing is for -/

/-- The age of a request, below zero when the clock has stepped back. -/
def PairingRequest.age (now : UInt64) (r : PairingRequest) : ℤ :=
  (now.toNat : ℤ) - (r.createdAt.toNat : ℤ)

def PairingRequest.unexpired (ttlMs now : UInt64) (r : PairingRequest) : Bool :=
  decide (r.age now < ttlMs.toNat)

/-- What an approval has to answer. -/
def PairingStore.approval (s : PairingStore) (id : String) (now : UInt64) :
    Except PairingError Unit :=
  match s.requests.find? (fun r => r.id = id) with
  | none => .error (.notFound id)
  | some r => if r.unexpired s.ttlMs now then .ok () else .error (.expired id)

/-- A subtraction of the call goes below zero: the overflow check stops it. -/
def Underflows (s : PairingStore) (c : Call) : Prop := (s.call .checked c).2 = .panicked

/-- The calls that clean up. -/
def Call.cleans : Call → Bool
  | .createRequest .. | .cleanupExpired _ => true
  | _ => false

structure Event : Type where
  before : PairingStore
  call : Call
  reply : Reply
  after : PairingStore

def eventAt (build : Build) (s : PairingStore) (c : Call) : Event :=
  ⟨s, c, (s.call build c).2, (s.call build c).1⟩

/-- The events of a sequence of calls. -/
def events (build : Build) : PairingStore → List Call → List Event
  | _, [] => []
  | s, c :: cs => eventAt build s c :: events build (s.call build c).1 cs

/-- The rules of pairing, for one event. -/
structure Event.Correct (e : Event) : Prop where
  bounded : ∀ now, (e.after.listPending.filter (·.unexpired e.after.ttlMs now)).length ≤
    e.after.maxPending
  approves : ∀ {id now}, e.call = .approve id now → e.reply = .done (e.before.approval id now)
  keeps : e.call.cleans = true → ∀ r ∈ e.before.requests, r.approved = true → r ∈ e.after.requests
  inRange : ¬ Underflows e.before e.call

/-- What has to hold before a call. A clock that has stepped back is refused where an age is
computed from it, and an approval where the request has expired. -/
def Fit (s : PairingStore) : Call → Prop
  | .createRequest _ _ now _ | .cleanupExpired now =>
      ∀ r ∈ s.listPending, r.createdAt ≤ now
  | .verifyCode code now =>
      ∀ r ∈ s.listPending.find? (fun r => r.code = code ∧ r.unexpired s.ttlMs now),
        r.createdAt ≤ now
  | .approve id now =>
      ∀ r ∈ s.requests.find? (fun r => r.id = id), r.unexpired s.ttlMs now = true
  | .reject _ => True

/-! ## §4  One call -/

section OneCall

variable {build : Build} {s : PairingStore} {c : Call} {rs : List PairingRequest}
variable {r : PairingRequest} {ttlMs now : UInt64} {id code : String}

theorem inTtl_of_le (h : r.createdAt ≤ now) :
    r.inTtl build ttlMs now = some (r.unexpired ttlMs now) := by
  have hsub : sub build now r.createdAt = some (now - r.createdAt) := by
    cases build with
    | checked => exact if_pos h
    | wrapping => rfl
  have hage : (now - r.createdAt).toNat = now.toNat - r.createdAt.toNat :=
    UInt64.toNat_sub_of_le _ _ h
  have hle : r.createdAt.toNat ≤ now.toNat := UInt64.le_iff_toNat_le.mp h
  rw [PairingRequest.inTtl, hsub, Option.map_some, PairingRequest.unexpired, PairingRequest.age]
  congr 1
  rw [decide_eq_decide, UInt64.lt_iff_toNat_lt, hage]
  omega

theorem inTtl_of_not_le (h : ¬ r.createdAt ≤ now) : r.inTtl .checked ttlMs now = none := by
  rw [PairingRequest.inTtl, sub, if_neg h]
  rfl

/-- A clock that has stepped back makes nothing expire. -/
theorem unexpired_of_not_le (h : ¬ r.createdAt ≤ now) : r.unexpired ttlMs now = true := by
  have hlt : now.toNat < r.createdAt.toNat := by
    rw [UInt64.le_iff_toNat_le] at h
    omega
  rw [PairingRequest.unexpired, PairingRequest.age, decide_eq_true_eq]
  omega

theorem retain_sublist (build : Build) (ttlMs now : UInt64) (rs : List PairingRequest) :
    (retain build ttlMs now rs).1.Sublist rs := by
  induction rs with
  | nil => exact List.Sublist.refl []
  | cons r rs ih =>
      rw [retain]
      split
      · exact ih.cons_cons r
      · split
        · exact List.Sublist.refl _
        · exact ih.cons_cons r
        · exact ih.cons r

theorem mem_retain (hr : r ∈ rs) (happroved : r.approved = true) :
    r ∈ (retain build ttlMs now rs).1 := by
  induction rs with
  | nil => cases hr
  | cons r' rs ih =>
      rw [retain]
      rcases List.mem_cons.mp hr with rfl | hr'
      · rw [if_pos happroved]
        exact List.mem_cons_self
      · split
        · exact List.mem_cons_of_mem _ (ih hr')
        · split
          · exact hr
          · exact List.mem_cons_of_mem _ (ih hr')
          · exact ih hr'

/-- The cleanup gets through when the clock is past every pending request. -/
theorem retain_checked_iff :
    (retain .checked ttlMs now rs).2 = false ↔
      ∀ r ∈ rs.filter (fun r => !r.approved), r.createdAt ≤ now := by
  induction rs with
  | nil => simp [retain]
  | cons r rs ih =>
      rw [retain, List.filter_cons]
      cases happroved : r.approved with
      | true => simpa using ih
      | false =>
          by_cases hle : r.createdAt ≤ now
          · rw [inTtl_of_le hle]
            cases r.unexpired ttlMs now <;> simpa [hle] using ih
          · simp [inTtl_of_not_le hle, hle]

theorem findCode_checked_iff :
    findCode .checked code ttlMs now rs ≠ none ↔
      ∀ r ∈ (rs.filter (fun r => !r.approved)).find?
        (fun r => r.code = code ∧ r.unexpired ttlMs now), r.createdAt ≤ now := by
  induction rs with
  | nil => simp [findCode]
  | cons r rs ih =>
      rw [findCode, List.filter_cons]
      cases happroved : r.approved with
      | true => simpa using ih
      | false =>
          by_cases hcode : r.code = code
          · by_cases hle : r.createdAt ≤ now
            · rw [inTtl_of_le hle]
              cases hage : r.unexpired ttlMs now with
              | true => simp [hcode, hage, hle]
              | false => simpa [hcode, hage] using ih
            · simp [inTtl_of_not_le hle, hcode, unexpired_of_not_le hle, hle]
          · simpa [hcode] using ih

theorem length_filter_approveFirst (id : String) (now : UInt64) (rs : List PairingRequest) :
    ((approveFirst id now rs).filter (fun r => !r.approved)).length ≤
      (rs.filter (fun r => !r.approved)).length := by
  induction rs with
  | nil => exact le_refl 0
  | cons r rs ih =>
      rw [approveFirst]
      split
      · simp only [List.filter_cons, Bool.not_true, Bool.false_eq_true, if_false]
        split <;> simp
      · simp only [List.filter_cons]
        split
        · exact Nat.succ_le_succ ih
        · exact ih

/-- No call makes the pending requests too many, whatever the clock says. -/
theorem length_listPending_call (h : s.listPending.length ≤ s.maxPending) :
    (s.call build c).1.listPending.length ≤ (s.call build c).1.maxPending := by
  have hretain (now : UInt64) :
      ((retain build s.ttlMs now s.requests).1.filter (fun r => !r.approved)).length ≤
        s.maxPending :=
    ((retain_sublist build s.ttlMs now s.requests).filter _).length_le.trans h
  cases c with
  | createRequest id code cleanedAt now =>
      simp only [PairingStore.call, PairingStore.createRequest]
      split
      · exact hretain cleanedAt
      · split
        · exact hretain cleanedAt
        · rename_i hfull
          simp only [PairingStore.listPending, not_le, List.filter_append, List.length_append,
            List.filter_singleton, Bool.not_false, cond_true, List.length_singleton] at hfull ⊢
          exact hfull
  | verifyCode code now => exact h
  | approve id now =>
      simp only [PairingStore.call, PairingStore.approve]
      split
      · exact (length_filter_approveFirst id now s.requests).trans h
      · exact h
  | reject id =>
      simp only [PairingStore.call, PairingStore.reject]
      split
      · exact ((List.eraseP_sublist).filter _).length_le.trans h
      · exact h
  | cleanupExpired now => exact hretain now

theorem not_underflows_create {id code : String} {cleanedAt now : UInt64} :
    ¬ Underflows s (.createRequest id code cleanedAt now) ↔
      (retain .checked s.ttlMs cleanedAt s.requests).2 = false := by
  simp only [Underflows, PairingStore.call, PairingStore.createRequest]
  cases (retain .checked s.ttlMs cleanedAt s.requests).2 with
  | true => simp
  | false =>
      simp only [Bool.false_eq_true, if_false]
      split <;> simp

theorem not_underflows_cleanup :
    ¬ Underflows s (.cleanupExpired now) ↔
      (retain .checked s.ttlMs now s.requests).2 = false := by
  simp only [Underflows, PairingStore.call, PairingStore.cleanupExpired]
  cases (retain .checked s.ttlMs now s.requests).2 <;> simp

theorem not_underflows_verify :
    ¬ Underflows s (.verifyCode code now) ↔
      findCode .checked code s.ttlMs now s.requests ≠ none := by
  simp only [Underflows, PairingStore.call, PairingStore.verifyCode]
  cases findCode .checked code s.ttlMs now s.requests <;> simp

theorem not_underflows_approve : ¬ Underflows s (.approve id now) := by
  simp only [Underflows, PairingStore.call, PairingStore.approve]
  split <;> simp

theorem not_underflows_reject : ¬ Underflows s (.reject id) := by
  simp only [Underflows, PairingStore.call, PairingStore.reject]
  split <;> simp

theorem approve_iff :
    (s.approve id now).2 = .done (s.approval id now) ↔
      ∀ r ∈ s.requests.find? (fun r => r.id = id), r.unexpired s.ttlMs now = true := by
  rw [PairingStore.approve, PairingStore.approval, ← List.isSome_find?]
  cases hfind : s.requests.find? (fun r => r.id = id) with
  | none => simp
  | some r => cases hage : r.unexpired s.ttlMs now <;> simp [hage]

/-- A cleanup keeps what is approved. -/
theorem mem_call_of_approved (hclean : c.cleans = true) (hr : r ∈ s.requests)
    (happroved : r.approved = true) : r ∈ (s.call build c).1.requests := by
  cases c with
  | createRequest id code cleanedAt now =>
      have hkept : r ∈ (retain build s.ttlMs cleanedAt s.requests).1 := mem_retain hr happroved
      simp only [PairingStore.call, PairingStore.createRequest]
      split
      · exact hkept
      · split
        · exact hkept
        · exact List.mem_append_left _ hkept
  | cleanupExpired now => exact mem_retain hr happroved
  | verifyCode code now | approve id now | reject id => cases hclean

theorem inTtl_wrapping {b : Bool} (h : r.inTtl .checked ttlMs now = some b) :
    r.inTtl .wrapping ttlMs now = some b := by
  by_cases hle : r.createdAt ≤ now
  · rw [← h, inTtl_of_le hle, inTtl_of_le hle]
  · rw [inTtl_of_not_le hle] at h
    cases h

theorem retain_wrapping (h : (retain .checked ttlMs now rs).2 = false) :
    retain .wrapping ttlMs now rs = retain .checked ttlMs now rs := by
  induction rs with
  | nil => rfl
  | cons r rs ih =>
      rw [retain] at h ⊢
      rw [retain]
      cases happroved : r.approved with
      | true =>
          simp only [happroved, if_true] at h ⊢
          rw [ih h]
      | false =>
          simp only [happroved, Bool.false_eq_true, if_false] at h ⊢
          cases hage : r.inTtl .checked ttlMs now with
          | none => simp [hage] at h
          | some b =>
              rw [inTtl_wrapping hage]
              cases b <;> simp only [hage] at h ⊢ <;> rw [ih h]

theorem findCode_wrapping (h : findCode .checked code ttlMs now rs ≠ none) :
    findCode .wrapping code ttlMs now rs = findCode .checked code ttlMs now rs := by
  induction rs with
  | nil => rfl
  | cons r rs ih =>
      rw [findCode] at h ⊢
      rw [findCode]
      split
      · rename_i hmatch
        rw [if_pos hmatch] at h
        cases hage : r.inTtl .checked ttlMs now with
        | none => simp [hage] at h
        | some b =>
            rw [inTtl_wrapping hage]
            cases b with
            | true => rfl
            | false => exact ih (by simpa [hage] using h)
      · rename_i hmatch
        rw [if_neg hmatch] at h
        exact ih h

/-- The two builds differ only where a subtraction underflows. -/
theorem call_wrapping (h : ¬ Underflows s c) : s.call .wrapping c = s.call .checked c := by
  cases c with
  | createRequest id code cleanedAt now =>
      simp only [PairingStore.call, PairingStore.createRequest,
        retain_wrapping (not_underflows_create.mp h)]
  | verifyCode code now =>
      simp only [PairingStore.call, PairingStore.verifyCode,
        findCode_wrapping (not_underflows_verify.mp h)]
  | approve id now | reject id => rfl
  | cleanupExpired now =>
      simp only [PairingStore.call, PairingStore.cleanupExpired,
        retain_wrapping (not_underflows_cleanup.mp h)]

/-- **One call follows the rules exactly when it is fit.** -/
theorem correct_iff (build : Build) (c : Call) (h : s.listPending.length ≤ s.maxPending) :
    (eventAt build s c).Correct ↔ Fit s c := by
  have hbounded (now : UInt64) : ((s.call build c).1.listPending.filter
      (·.unexpired (s.call build c).1.ttlMs now)).length ≤ (s.call build c).1.maxPending :=
    (List.length_filter_le _ _).trans (length_listPending_call h)
  have hcorrect : (eventAt build s c).Correct ↔
      (∀ {id now}, c = .approve id now →
        (s.call build c).2 = .done (s.approval id now)) ∧ ¬ Underflows s c := by
    constructor
    · intro hc
      exact ⟨hc.approves, hc.inRange⟩
    · rintro ⟨happroves, hrange⟩
      exact ⟨hbounded, happroves, fun hclean r hr happroved =>
        mem_call_of_approved hclean hr happroved, hrange⟩
  rw [hcorrect]
  cases c with
  | createRequest id code cleanedAt now =>
      rw [not_underflows_create, retain_checked_iff, Fit]
      simp [PairingStore.listPending]
  | verifyCode code now =>
      rw [not_underflows_verify, findCode_checked_iff, Fit]
      simp [PairingStore.listPending]
  | approve id now =>
      rw [Fit, ← approve_iff]
      constructor
      · rintro ⟨happroves, -⟩
        exact happroves rfl
      · intro hreply
        refine ⟨?_, not_underflows_approve⟩
        intro id' now' hc
        cases hc
        exact hreply
  | reject id => simp [Fit, not_underflows_reject]
  | cleanupExpired now =>
      rw [not_underflows_cleanup, retain_checked_iff, Fit]
      simp [PairingStore.listPending]

end OneCall

/-! ## §5  Sequences of calls -/

theorem events_correct_iff (build : Build) (cs : List Call) {s : PairingStore}
    (h : s.listPending.length ≤ s.maxPending) :
    (∀ e ∈ events build s cs, e.Correct) ↔ ∀ e ∈ events build s cs, Fit e.before e.call := by
  induction cs generalizing s with
  | nil => simp [events]
  | cons c cs ih =>
      simp only [events, List.forall_mem_cons]
      rw [correct_iff build c h, ih (length_listPending_call h)]
      rfl

/-- The builds agree on sequences of calls without an underflow. -/
theorem events_wrapping {s : PairingStore} {cs : List Call}
    (h : ∀ e ∈ events .checked s cs, ¬ Underflows e.before e.call) :
    events .wrapping s cs = events .checked s cs := by
  induction cs generalizing s with
  | nil => rfl
  | cons c cs ih =>
      simp only [events, List.forall_mem_cons] at h ⊢
      have hcall : s.call .wrapping c = s.call .checked c := call_wrapping h.1
      rw [hcall, ih h.2, eventAt, hcall]
      rfl

/-- **Pairing by setup code follows its rules exactly in the sequences of calls that are fit
throughout**: an approval never names a request past its time to live, and no age is taken
with the clock before the creation. -/
theorem setup_pairing_iff (build : Build) (maxPending : ℕ) (ttlMs : UInt64) (cs : List Call) :
    (∀ e ∈ events build (.new maxPending ttlMs) cs, e.Correct) ↔
      ∀ e ∈ events build (.new maxPending ttlMs) cs, Fit e.before e.call :=
  events_correct_iff build cs (Nat.zero_le _)

/-- A request is approved after its time, and a code is verified with the clock set back. -/
theorem late_approval_succeeds :
    ¬ (∀ e ∈ events .wrapping (.new 3 10) [.createRequest "r" "K7QXM2PA" 100 100,
        .approve "r" 200], e.Correct) ∧
    ¬ (∀ e ∈ events .checked (.new 3 10) [.createRequest "r" "K7QXM2PA" 100 100,
        .verifyCode "K7QXM2PA" 99], e.Correct) := by
  constructor
  · intro h
    cases (h _ (List.mem_cons_of_mem _ List.mem_cons_self)).approves rfl
  · intro h
    exact (h _ (List.mem_cons_of_mem _ List.mem_cons_self)).inRange rfl

end Oclaw.SetupPairing
