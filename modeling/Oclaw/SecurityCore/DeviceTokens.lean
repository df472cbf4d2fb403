import Oclaw.SecurityCore.DevicePairing

/-!
# Tokens, codes and positions

What every interleaving of the methods of the device pairing manager keeps, `load` left
out: a token belongs to one device or to one call that is about to add it, a code to one
place on its way from the pending codes to a device, and between updates the index says
at which position the device of a token is. `touch` gives up the index before it uses
the position, which is right only as long as the position is still the token's.
-/

namespace Oclaw.SecurityCore.DevicePairing

open Oclaw.Lib

variable {persistPath : Bool} {f : ℕ → Option Act} {d d' : Data} {t t' : ℕ} {a a' : Act}
variable {o : Option Act} {token : String} {toks : List String} {idx : ℕ}

/-! ## §1  Tokens -/

def Data.deviceTokens (d : Data) : List String := d.devices.map (·.token)

/-- The token that a call has drawn for a device that is not in the list yet. -/
def Act.drawn : Act → Option String
  | .verifyTake _ _ token => some token
  | .verifyPush _ dev => some dev.token
  | _ => none

/-- Drawn tokens are apart from each other and from those of devices that are or were
paired. -/
structure Draws (f : ℕ → Option Act) (d : Data) : Prop where
  nodup : d.deviceTokens.Nodup
  known : ∀ token ∈ d.deviceTokens, token ∈ d.tokens
  carried : ∀ {t a token}, f t = some a → a.drawn = some token →
    token ∈ d.tokens ∧ token ∉ d.deviceTokens ∧ ∀ dev, .revoked dev ∈ d.log → dev.token ≠ token
  apart : ∀ {t t' a a' token}, f t = some a → f t' = some a' → a.drawn = some token →
    a'.drawn = some token → t' = t
  revoked : ∀ {dev}, .revoked dev ∈ d.log → dev.token ∈ d.tokens ∧ dev.token ∉ d.deviceTokens

/-- Actions that leave the tokens alone. -/
theorem Draws.frame (h : Draws f d) (hdev : d'.deviceTokens = d.deviceTokens)
    (htok : d'.tokens = d.tokens) (hrev : ∀ dev, .revoked dev ∈ d'.log → .revoked dev ∈ d.log)
    (hdrawn : ∀ token, o.bind Act.drawn = some token → (f t).bind Act.drawn = some token) :
    Draws (Function.update f t o) d' := by
  constructor
  · rw [hdev]
    exact h.nodup
  · rw [hdev, htok]
    exact h.known
  · intro t' a' token hf ha
    obtain ⟨a, hf, ha⟩ := carried_of_update (hdrawn token) hf ha
    rw [hdev, htok]
    obtain ⟨h₁, h₂, h₃⟩ := h.carried hf ha
    exact ⟨h₁, h₂, fun dev hdev => h₃ dev (hrev dev hdev)⟩
  · intro t₁ t₂ a₁ a₂ token hf₁ hf₂ ha₁ ha₂
    obtain ⟨b₁, hf₁, ha₁⟩ := carried_of_update (hdrawn token) hf₁ ha₁
    obtain ⟨b₂, hf₂, ha₂⟩ := carried_of_update (hdrawn token) hf₂ ha₂
    exact h.apart hf₁ hf₂ ha₁ ha₂
  · intro dev hmem
    rw [hdev, htok]
    exact h.revoked (hrev dev hmem)

theorem Draws.enter {c : Call} {p : Code} (h : Draws f d) (henter : enter c d = some (d', p)) :
    Draws (Function.update f t p.focus) d' := by
  revert henter
  fun_cases DevicePairing.enter c d
  case case5 code deviceId token hfresh =>
    -- a token is drawn
    rintro ⟨⟩
    obtain ⟨-, hfresh⟩ := not_or.mp hfresh
    constructor
    · exact h.nodup
    · exact fun tok htok => List.mem_cons_of_mem _ (h.known tok htok)
    · intro t' a' tok hf ha
      rcases update_eq_some hf with ⟨-, ⟨⟩⟩ | ⟨-, hf⟩
      · cases ha
        refine ⟨List.mem_cons_self, fun hmem => hfresh (h.known _ hmem), ?_⟩
        rintro dev hdev rfl
        exact hfresh (h.revoked hdev).1
      · obtain ⟨h₁, h₂⟩ := h.carried hf ha
        exact ⟨List.mem_cons_of_mem _ h₁, h₂⟩
    · intro t₁ t₂ a₁ a₂ tok hf₁ hf₂ ha₁ ha₂
      refine apart_of_update h.apart ?_ hf₁ hf₂ ha₁ ha₂
      rintro t' a' - hf ha ⟨⟩
      exact hfresh (h.carried hf ha).1
    · intro dev hdev
      obtain ⟨h₁, h₂⟩ := h.revoked hdev
      exact ⟨List.mem_cons_of_mem _ h₁, h₂⟩
  all_goals rintro ⟨⟩
  all_goals exact h.frame rfl rfl (fun _ hdev => hdev) (by rintro _ ⟨⟩)

/-- The device of a call that has drawn its token enters the list. -/
theorem Draws.push {code : String} {dev : PairedDevice} (h : Draws f d)
    (hf : f t = some (.verifyPush code dev)) :
    Draws (Function.update f t (exec (.verifyPush code dev) d).2.focus)
      (exec (.verifyPush code dev) d).1 := by
  obtain ⟨hdrawn, hnew, hrev⟩ := h.carried hf rfl
  have htokens :
      (exec (.verifyPush code dev) d).1.deviceTokens = d.deviceTokens ++ [dev.token] := by
    simp [exec, Data.deviceTokens]
  have hlog {e : PairedDevice} (he : Event.revoked e ∈ (exec (.verifyPush code dev) d).1.log) :
      .revoked e ∈ d.log := by
    simpa [exec] using he
  -- the other calls carry other tokens
  have hother {t' : ℕ} {a' : Act} {token : String}
      (hf' : Function.update f t (exec (.verifyPush code dev) d).2.focus t' = some a')
      (ha : a'.drawn = some token) : t' ≠ t ∧ f t' = some a' := by
    refine other_of_update ?_ hf' ha
    rintro ⟨⟩
  constructor
  · rw [htokens]
    exact List.Nodup.append h.nodup (List.nodup_singleton _) (by simpa using hnew)
  · rw [htokens]
    rintro token hmem
    rcases List.mem_append.mp hmem with hmem | hmem
    · exact h.known token hmem
    · rw [List.mem_singleton.mp hmem]
      exact hdrawn
  · intro t' a' token hf' ha
    obtain ⟨hne, hf'⟩ := hother hf' ha
    obtain ⟨h₁, h₂, h₃⟩ := h.carried hf' ha
    refine ⟨h₁, ?_, fun e he => h₃ e (hlog he)⟩
    rw [htokens, List.mem_append, List.mem_singleton, not_or]
    refine ⟨h₂, ?_⟩
    rintro rfl
    exact hne (h.apart hf hf' rfl ha)
  · intro t₁ t₂ a₁ a₂ token hf₁ hf₂ ha₁ ha₂
    exact h.apart (hother hf₁ ha₁).2 (hother hf₂ ha₂).2 ha₁ ha₂
  · intro e he
    obtain ⟨h₁, h₂⟩ := h.revoked (hlog he)
    refine ⟨h₁, ?_⟩
    rw [htokens, List.mem_append, List.mem_singleton, not_or]
    exact ⟨h₂, hrev e (hlog he)⟩

/-- `position` and `remove`: the device found goes, the others stay in their order. -/
theorem eraseP_of_find? {deviceId : String} {devices : List PairedDevice} {removed : PairedDevice}
    (hfind : devices.find? (fun dev => dev.deviceId == deviceId) = some removed) :
    ∃ pre post, devices = pre ++ removed :: post ∧
      devices.eraseP (fun dev => dev.deviceId == deviceId) = pre ++ post := by
  obtain ⟨hp, pre, post, heq, hpre⟩ := List.find?_eq_some_iff_append.mp hfind
  refine ⟨pre, post, heq, ?_⟩
  rw [heq, List.eraseP_append_right _ (fun b hb => by simpa using hpre b hb)]
  simp [hp]

/-- The device of a revocation leaves the list. -/
theorem Draws.remove {deviceId : String} {removed : PairedDevice} (h : Draws f d)
    (hfind : d.devices.find? (fun dev => dev.deviceId == deviceId) = some removed) :
    Draws (Function.update f t (some (.revokeIndex removed)))
      { d with
        devices := d.devices.eraseP (fun dev => dev.deviceId == deviceId)
        log := d.log ++ [.revoked removed] } := by
  obtain ⟨pre, post, hdevices, herase⟩ := eraseP_of_find? hfind
  have hbefore : d.deviceTokens =
      pre.map (·.token) ++ removed.token :: post.map (·.token) := by
    simp [Data.deviceTokens, hdevices]
  have hperm : d.deviceTokens.Perm
      (removed.token :: (pre.map (·.token) ++ post.map (·.token))) := by
    rw [hbefore]
    exact List.perm_middle
  obtain ⟨hgone, hnodup⟩ := List.nodup_cons.mp (hperm.nodup_iff.mp h.nodup)
  have hafter : (pre ++ post).map (·.token) = pre.map (·.token) ++ post.map (·.token) :=
    List.map_append
  have hsub {token : String} (hmem : token ∈ (pre ++ post).map (·.token)) :
      token ∈ d.deviceTokens := by
    rw [hperm.mem_iff]
    exact List.mem_cons_of_mem _ (hafter ▸ hmem)
  have hother {t' : ℕ} {a' : Act} {token : String}
      (hf' : Function.update f t (some (.revokeIndex removed)) t' = some a')
      (ha : a'.drawn = some token) : f t' = some a' := by
    refine (other_of_update ?_ hf' ha).2
    rintro ⟨⟩
  simp only [herase]
  constructor
  · dsimp only [Data.deviceTokens]
    rw [hafter]
    exact hnodup
  · exact fun token hmem => h.known token (hsub hmem)
  · intro t' a' token hf' ha
    obtain ⟨h₁, h₂, h₃⟩ := h.carried (hother hf' ha) ha
    refine ⟨h₁, fun hmem => h₂ (hsub hmem), ?_⟩
    intro dev hdev
    rcases List.mem_append.mp hdev with hdev | hdev
    · exact h₃ dev hdev
    · cases List.mem_singleton.mp hdev
      rintro rfl
      exact h₂ (hperm.mem_iff.mpr List.mem_cons_self)
  · intro t₁ t₂ a₁ a₂ token hf₁ hf₂ ha₁ ha₂
    exact h.apart (hother hf₁ ha₁) (hother hf₂ ha₂) ha₁ ha₂
  · intro dev hdev
    rcases List.mem_append.mp hdev with hdev | hdev
    · obtain ⟨h₁, h₂⟩ := h.revoked hdev
      exact ⟨h₁, fun hmem => h₂ (hsub hmem)⟩
    · cases List.mem_singleton.mp hdev
      refine ⟨h.known _ (hperm.mem_iff.mpr List.mem_cons_self), ?_⟩
      dsimp only [Data.deviceTokens]
      rw [hafter]
      exact hgone

/-- `touch` changes no token. -/
theorem map_token_modify (devices : List PairedDevice) (idx : ℕ) (now : Int) :
    (devices.modify idx (fun dev => { dev with lastSeen := some now })).map (·.token) =
      devices.map (·.token) := by
  apply List.ext_getElem?
  intro j
  simp only [List.getElem?_map, List.getElem?_modify]
  split <;> cases devices[j]? <;> rfl

/-- The actions that change which devices there are. -/
def Act.edits : Act → Bool
  | .loadStore _ | .verifyPush _ _ | .revokeRemove _ => true
  | _ => false

theorem deviceTokens_exec (h : a.edits = false) : (exec a d).1.deviceTokens = d.deviceTokens := by
  fun_cases exec a d
  all_goals first
    | rfl
    | exact map_token_modify ..
    | cases h

theorem tokens_exec : (exec a d).1.tokens = d.tokens := by
  fun_cases exec a d
  all_goals rfl

theorem revoked_exec {dev : PairedDevice} (h : a.edits = false)
    (hmem : .revoked dev ∈ (exec a d).1.log) : .revoked dev ∈ d.log := by
  revert hmem
  fun_cases exec a d
  all_goals first
    | exact id
    | (simp; done)
    | cases h

/-- Only `verify_code` carries a token on. -/
theorem drawn_exec (h : (exec a d).2.focus.bind Act.drawn = some token) :
    a.drawn = some token := by
  revert h
  fun_cases exec a d
  all_goals first
    | exact id
    | rintro ⟨⟩

theorem Draws.exec (h : Draws f d) (hf : f t = some a) (hload : ∀ devices, a ≠ .loadStore devices) :
    Draws (Function.update f t (exec a d).2.focus) (exec a d).1 := by
  cases hedits : a.edits with
  | false =>
      refine h.frame (deviceTokens_exec hedits) tokens_exec (fun _ => revoked_exec hedits) ?_
      intro token hdrawn
      rw [hf]
      exact drawn_exec hdrawn
  | true =>
      cases a
      case loadStore devices => exact absurd rfl (hload devices)
      case verifyPush code dev => exact h.push hf
      case revokeRemove deviceId =>
        simp only [DevicePairing.exec]
        split
        · exact h.frame rfl rfl (fun _ => id) (by rintro _ ⟨⟩)
        · rename_i removed hfind
          exact h.remove hfind
      all_goals cases hedits

/-! ## §2  Codes -/

/-- The code that a call is about to make pending, or has taken for a device. -/
def Act.code : Act → Option String
  | .generateClock code _ => some code
  | .generateInsert p => some p.code
  | .verifyPush code _ => some code
  | _ => none

def Act.generates : Act → Option String
  | .generateClock code _ => some code
  | .generateInsert p => some p.code
  | _ => none

def Event.ofCode : Event → Bool
  | .issued _ | .paired _ _ => true
  | _ => false

/-- The code was issued and its device was made before it expired. -/
def InTime (d : Data) (code : String) (dev : PairedDevice) : Prop :=
  ∃ p, .issued p ∈ d.log ∧ p.code = code ∧ dev.pairedAt ≤ p.expiresAt

/-- A code is at one place: with the call that issues it, pending, with the call that
has taken it, or used up. -/
structure Codes (f : ℕ → Option Act) (d : Data) : Prop where
  stored : ∀ {code p}, d.pending.lookup code = some p →
    p.code = code ∧ .issued p ∈ d.log ∧ ∀ dev, .paired code dev ∉ d.log
  carried : ∀ {t a code}, f t = some a → a.code = some code →
    code ∈ d.codes ∧ d.pending.lookup code = none ∧ ∀ dev, .paired code dev ∉ d.log
  apart : ∀ {t t' a a' code}, f t = some a → f t' = some a' → a.code = some code →
    a'.code = some code → t' = t
  known : ∀ {p}, .issued p ∈ d.log → p.code ∈ d.codes
  fresh : ∀ {p t a}, .issued p ∈ d.log → f t = some a → a.generates ≠ some p.code
  issued : ∀ {p p'}, .issued p ∈ d.log → .issued p' ∈ d.log → p'.code = p.code → p' = p
  taken : ∀ {t code dev}, f t = some (.verifyPush code dev) → InTime d code dev
  paired : ∀ {code dev}, .paired code dev ∈ d.log → InTime d code dev
  once : d.log.Pairwise fun e e' => ∀ code dev dev', e = .paired code dev → e' ≠ .paired code dev'

theorem Act.code_of_generates {code : String} (h : a.generates = some code) :
    a.code = some code := by
  cases a <;> first | exact h | cases h

/-- Actions that issue no code and use none up. -/
theorem Codes.frame (h : Codes f d)
    (hpending : ∀ code p, d'.pending.lookup code = some p → d.pending.lookup code = some p)
    (hcodes : d'.codes = d.codes)
    (hlog : ∃ es, d'.log = d.log ++ es ∧ ∀ e ∈ es, Event.ofCode e = false)
    (hcode : ∀ code, o.bind Act.code = some code → (f t).bind Act.code = some code)
    (hgen : ∀ code, o.bind Act.generates = some code → (f t).bind Act.generates = some code)
    (hpush : ∀ code dev, o ≠ some (.verifyPush code dev)) :
    Codes (Function.update f t o) d' := by
  obtain ⟨es, hlog, hes⟩ := hlog
  have hmem {e : Event} (he : e.ofCode = true) : e ∈ d'.log ↔ e ∈ d.log := by
    rw [hlog, List.mem_append, or_iff_left]
    intro hin
    rw [hes e hin] at he
    cases he
  have hin {code : String} {dev : PairedDevice} (hin : InTime d code dev) : InTime d' code dev := by
    obtain ⟨p, hp, hrest⟩ := hin
    exact ⟨p, (hmem rfl).mpr hp, hrest⟩
  constructor
  · intro code p hlookup
    obtain ⟨h₁, h₂, h₃⟩ := h.stored (hpending code p hlookup)
    exact ⟨h₁, (hmem rfl).mpr h₂, fun dev hdev => h₃ dev ((hmem rfl).mp hdev)⟩
  · intro t' a' code hf ha
    obtain ⟨a, hf, ha⟩ := carried_of_update (hcode code) hf ha
    obtain ⟨h₁, h₂, h₃⟩ := h.carried hf ha
    refine ⟨hcodes ▸ h₁, ?_, fun dev hdev => h₃ dev ((hmem rfl).mp hdev)⟩
    cases hlookup : d'.pending.lookup code with
    | none => rfl
    | some p => exact absurd (hpending code p hlookup) (by simp [h₂])
  · intro t₁ t₂ a₁ a₂ code hf₁ hf₂ ha₁ ha₂
    obtain ⟨b₁, hf₁, ha₁⟩ := carried_of_update (hcode code) hf₁ ha₁
    obtain ⟨b₂, hf₂, ha₂⟩ := carried_of_update (hcode code) hf₂ ha₂
    exact h.apart hf₁ hf₂ ha₁ ha₂
  · intro p hp
    exact hcodes ▸ h.known ((hmem rfl).mp hp)
  · intro p t' a' hp hf ha
    obtain ⟨a, hf, ha⟩ := carried_of_update (hgen p.code) hf ha
    exact h.fresh ((hmem rfl).mp hp) hf ha
  · intro p p' hp hp' heq
    exact h.issued ((hmem rfl).mp hp) ((hmem rfl).mp hp') heq
  · intro t' code dev hf
    rcases update_eq_some hf with ⟨-, ho⟩ | ⟨-, hf⟩
    · exact absurd ho (hpush code dev)
    · exact hin (h.taken hf)
  · intro code dev hdev
    exact hin (h.paired ((hmem rfl).mp hdev))
  · rw [hlog, List.pairwise_append]
    have hother {e : Event} (he : e ∈ es) (code : String) (dev : PairedDevice) :
        e ≠ .paired code dev := by
      rintro rfl
      exact absurd (hes _ he) (by simp [Event.ofCode])
    refine ⟨h.once, List.pairwise_of_forall_mem_list ?_, ?_⟩
    · exact fun e _ e' he' code _ dev' _ => hother he' code dev'
    · exact fun e _ e' he' code _ dev' _ => hother he' code dev'

/-- A code becomes pending. -/
theorem Codes.insert {p : PendingCode} (h : Codes f d) (hf : f t = some (.generateInsert p)) :
    Codes (Function.update f t none)
      { d with pending := d.pending.insert p.code p, log := d.log ++ [.issued p] } := by
  obtain ⟨hdrawn, -, hunused⟩ := h.carried hf rfl
  have hmem {code : String} {dev : PairedDevice} :
      .paired code dev ∈ d.log ++ [Event.issued p] ↔ .paired code dev ∈ d.log := by simp
  have hissued {q : PendingCode} :
      .issued q ∈ d.log ++ [Event.issued p] ↔ .issued q ∈ d.log ∨ q = p := by simp
  have hother {t' : ℕ} {a' : Act} (hf' : Function.update f t none t' = some a') :
      t' ≠ t ∧ f t' = some a' := by
    rcases update_eq_some hf' with ⟨-, ⟨⟩⟩ | hother
    exact hother
  have hin {code : String} {dev : PairedDevice} (hin : InTime d code dev) :
      InTime { d with
        pending := d.pending.insert p.code p, log := d.log ++ [.issued p] } code dev := by
    obtain ⟨q, hq, hrest⟩ := hin
    exact ⟨q, hissued.mpr (Or.inl hq), hrest⟩
  constructor
  · intro code q hlookup
    dsimp only at hlookup ⊢
    rw [HashMap.lookup_insert_eq] at hlookup
    split at hlookup
    · rename_i heq
      cases hlookup
      exact ⟨heq.symm, hissued.mpr (Or.inr rfl), fun dev hdev => hunused dev (heq ▸ hmem.mp hdev)⟩
    · obtain ⟨h₁, h₂, h₃⟩ := h.stored hlookup
      exact ⟨h₁, hissued.mpr (Or.inl h₂), fun dev hdev => h₃ dev (hmem.mp hdev)⟩
  · intro t' a' code hf' ha
    obtain ⟨hne, hf'⟩ := hother hf'
    obtain ⟨h₁, h₂, h₃⟩ := h.carried hf' ha
    refine ⟨h₁, ?_, fun dev hdev => h₃ dev (hmem.mp hdev)⟩
    dsimp only
    rw [HashMap.lookup_insert_eq, if_neg, h₂]
    rintro rfl
    exact hne (h.apart hf hf' rfl ha)
  · intro t₁ t₂ a₁ a₂ code hf₁ hf₂ ha₁ ha₂
    exact h.apart (hother hf₁).2 (hother hf₂).2 ha₁ ha₂
  · intro q hq
    rcases hissued.mp hq with hq | rfl
    · exact h.known hq
    · exact hdrawn
  · intro q t' a' hq hf' ha
    obtain ⟨hne, hf'⟩ := hother hf'
    rcases hissued.mp hq with hq | rfl
    · exact h.fresh hq hf' ha
    · exact hne (h.apart hf hf' rfl (Act.code_of_generates ha))
  · intro q q' hq hq' heq
    rcases hissued.mp hq with hold | rfl
    · rcases hissued.mp hq' with hold' | rfl
      · exact h.issued hold hold' heq
      · exact absurd (congrArg some heq) (h.fresh hold hf)
    · rcases hissued.mp hq' with hold' | rfl
      · exact absurd (congrArg some heq.symm) (h.fresh hold' hf)
      · rfl
  · intro t' code dev hf'
    exact hin (h.taken (hother hf').2)
  · intro code dev hdev
    exact hin (h.paired (hmem.mp hdev))
  · rw [List.pairwise_append]
    exact ⟨h.once, List.pairwise_singleton .., by simp⟩

/-- A pending code is taken in time. -/
theorem Codes.take {code : String} {p : PendingCode} {dev : PairedDevice} (h : Codes f d)
    (hlookup : d.pending.lookup code = some p) (hdev : dev.pairedAt ≤ p.expiresAt) :
    Codes (Function.update f t (some (.verifyPush code dev)))
      { d with pending := d.pending.erase code } := by
  obtain ⟨hcode, hissued, hunused⟩ := h.stored hlookup
  -- what the other calls carry is not pending
  have hapart {t' : ℕ} {a' : Act} (hf' : f t' = some a') : a'.code ≠ some code := by
    intro ha
    rw [(h.carried hf' ha).2.1] at hlookup
    cases hlookup
  constructor
  · intro code' q hq
    dsimp only at hq
    rw [HashMap.lookup_erase_eq] at hq
    split at hq
    · cases hq
    · exact h.stored hq
  · intro t' a' code' hf' ha
    dsimp only
    rw [HashMap.lookup_erase_eq]
    rcases update_eq_some hf' with ⟨-, ⟨⟩⟩ | ⟨-, hf'⟩
    · cases ha
      rw [if_pos rfl]
      exact ⟨hcode ▸ h.known hissued, rfl, hunused⟩
    · obtain ⟨h₁, h₂, h₃⟩ := h.carried hf' ha
      refine ⟨h₁, ?_, h₃⟩
      split
      · rfl
      · exact h₂
  · intro t₁ t₂ a₁ a₂ code' hf₁ hf₂ ha₁ ha₂
    refine apart_of_update h.apart ?_ hf₁ hf₂ ha₁ ha₂
    rintro t' a' - hf' ha ⟨⟩
    exact hapart hf' ha
  · exact h.known
  · intro q t' a' hq hf'
    rcases update_eq_some hf' with ⟨-, ⟨⟩⟩ | ⟨-, hf'⟩
    · rintro ⟨⟩
    · exact h.fresh hq hf'
  · exact h.issued
  · intro t' code' dev' hf'
    rcases update_eq_some hf' with ⟨-, ⟨⟩⟩ | ⟨-, hf'⟩
    · exact ⟨p, hissued, hcode, hdev⟩
    · exact h.taken hf'
  · exact h.paired
  · exact h.once

/-- The code that was taken is used up. -/
theorem Codes.use {code : String} {dev : PairedDevice} {ds : List PairedDevice} (h : Codes f d)
    (hf : f t = some (.verifyPush code dev)) (ho : o.bind Act.code = none) :
    Codes (Function.update f t o)
      { d with devices := ds, log := d.log ++ [.paired code dev] } := by
  obtain ⟨hdrawn, hnone, hunused⟩ := h.carried hf rfl
  have hmem {code' : String} {dev' : PairedDevice} :
      .paired code' dev' ∈ d.log ++ [Event.paired code dev] ↔
        .paired code' dev' ∈ d.log ∨ (code' = code ∧ dev' = dev) := by
    simp
  have hissued {q : PendingCode} :
      .issued q ∈ d.log ++ [Event.paired code dev] ↔ .issued q ∈ d.log := by simp
  have hin {code' : String} {dev' : PairedDevice} (hin : InTime d code' dev') :
      InTime { d with devices := ds, log := d.log ++ [.paired code dev] } code' dev' := by
    obtain ⟨q, hq, hrest⟩ := hin
    exact ⟨q, hissued.mpr hq, hrest⟩
  have hother {t' : ℕ} {a' : Act} {code' : String} (hf' : Function.update f t o t' = some a')
      (ha : a'.code = some code') : t' ≠ t ∧ f t' = some a' := by
    refine other_of_update ?_ hf' ha
    rw [ho]
    rintro ⟨⟩
  constructor
  · intro code' q hlookup
    obtain ⟨h₁, h₂, h₃⟩ := h.stored hlookup
    refine ⟨h₁, hissued.mpr h₂, ?_⟩
    intro dev' hdev'
    rcases hmem.mp hdev' with hdev' | ⟨rfl, -⟩
    · exact h₃ dev' hdev'
    · dsimp only at hlookup
      rw [hnone] at hlookup
      cases hlookup
  · intro t' a' code' hf' ha
    obtain ⟨hne, hf'⟩ := hother hf' ha
    obtain ⟨h₁, h₂, h₃⟩ := h.carried hf' ha
    refine ⟨h₁, h₂, ?_⟩
    intro dev' hdev'
    rcases hmem.mp hdev' with hdev' | ⟨rfl, -⟩
    · exact h₃ dev' hdev'
    · exact hne (h.apart hf hf' rfl ha)
  · intro t₁ t₂ a₁ a₂ code' hf₁ hf₂ ha₁ ha₂
    exact h.apart (hother hf₁ ha₁).2 (hother hf₂ ha₂).2 ha₁ ha₂
  · intro q hq
    exact h.known (hissued.mp hq)
  · intro q t' a' hq hf' ha
    exact h.fresh (hissued.mp hq) (hother hf' (Act.code_of_generates ha)).2 ha
  · intro q q' hq hq'
    exact h.issued (hissued.mp hq) (hissued.mp hq')
  · intro t' code' dev' hf'
    exact hin (h.taken (hother hf' rfl).2)
  · intro code' dev' hdev'
    rcases hmem.mp hdev' with hdev' | ⟨rfl, rfl⟩
    · exact hin (h.paired hdev')
    · exact hin (h.taken hf)
  · rw [List.pairwise_append]
    refine ⟨h.once, List.pairwise_singleton .., ?_⟩
    rintro e he e' he' code' dev₁ dev₂ rfl rfl
    cases List.mem_singleton.mp he'
    exact hunused _ he

/-- A code is drawn. -/
theorem Codes.draw {code : String} {deviceName : Option String} (h : Codes f d)
    (hfresh : code ∉ d.codes) :
    Codes (Function.update f t (some (.generateClock code deviceName)))
      { d with codes := code :: d.codes } := by
  have hunissued {p : PendingCode} (hp : .issued p ∈ d.log) : p.code ≠ code := by
    rintro rfl
    exact hfresh (h.known hp)
  constructor
  · exact h.stored
  · intro t' a' code' hf' ha
    rcases update_eq_some hf' with ⟨-, ⟨⟩⟩ | ⟨-, hf'⟩
    · cases ha
      refine ⟨List.mem_cons_self, ?_, ?_⟩
      · cases hlookup : d.pending.lookup code with
        | none => rfl
        | some p =>
            obtain ⟨hcode, hissued, -⟩ := h.stored hlookup
            exact absurd hcode (hunissued hissued)
      · intro dev hdev
        obtain ⟨p, hp, hcode, -⟩ := h.paired hdev
        exact hunissued hp hcode
    · obtain ⟨h₁, h₂⟩ := h.carried hf' ha
      exact ⟨List.mem_cons_of_mem _ h₁, h₂⟩
  · intro t₁ t₂ a₁ a₂ code' hf₁ hf₂ ha₁ ha₂
    refine apart_of_update h.apart ?_ hf₁ hf₂ ha₁ ha₂
    rintro t' a' - hf' ha ⟨⟩
    exact hfresh (h.carried hf' ha).1
  · exact fun hp => List.mem_cons_of_mem _ (h.known hp)
  · intro p t' a' hp hf'
    rcases update_eq_some hf' with ⟨-, ⟨⟩⟩ | ⟨-, hf'⟩
    · rintro ⟨⟩
      exact hunissued hp rfl
    · exact h.fresh hp hf'
  · exact h.issued
  · intro t' code' dev' hf'
    rcases update_eq_some hf' with ⟨-, ⟨⟩⟩ | ⟨-, hf'⟩
    exact h.taken hf'
  · exact h.paired
  · exact h.once

theorem Codes.enter {c : Call} {p : Code} (h : Codes f d) (henter : enter c d = some (d', p)) :
    Codes (Function.update f t p.focus) d' := by
  revert henter
  fun_cases DevicePairing.enter c d
  case case3 code deviceName hfresh =>
    rintro ⟨⟩
    exact h.draw hfresh
  all_goals rintro ⟨⟩
  all_goals
    exact h.frame (fun _ _ => id) rfl ⟨[], (List.append_nil _).symm, by simp⟩
      (by rintro _ ⟨⟩) (by rintro _ ⟨⟩) (by rintro _ _ ⟨⟩)

/-- The actions that move a code. -/
def Act.movesCode : Act → Bool
  | .generateClock _ _ | .generateInsert _ | .verifyTake _ _ _ | .verifyPush _ _ => true
  | _ => false

theorem pending_exec {code : String} {p : PendingCode} (h : a.movesCode = false)
    (hlookup : (exec a d).1.pending.lookup code = some p) : d.pending.lookup code = some p := by
  revert hlookup
  fun_cases exec a d
  all_goals first
    | exact id
    | (rw [HashMap.lookup_retain]; exact fun hp => (Option.filter_eq_some_iff.mp hp).1)
    | cases h

theorem codes_exec : (exec a d).1.codes = d.codes := by
  fun_cases exec a d
  all_goals rfl

theorem log_exec (h : a.movesCode = false) :
    ∃ es, (exec a d).1.log = d.log ++ es ∧ ∀ e ∈ es, Event.ofCode e = false := by
  fun_cases exec a d
  all_goals first
    | (cases h; done)
    | exact ⟨[], (List.append_nil _).symm, by simp⟩
    | exact ⟨_, rfl, by simp [Event.ofCode]⟩

theorem code_exec (h : a.movesCode = false) : (exec a d).2.focus.bind Act.code = none := by
  fun_cases exec a d
  all_goals first
    | rfl
    | cases h

theorem Codes.exec (h : Codes f d) (hf : f t = some a) :
    Codes (Function.update f t (exec a d).2.focus) (exec a d).1 := by
  have hnil : ∃ es, d.log = d.log ++ es ∧ ∀ e ∈ es, Event.ofCode e = false :=
    ⟨[], (List.append_nil _).symm, by simp⟩
  cases hmoves : a.movesCode with
  | false =>
      have hnone := code_exec (d := d) hmoves
      refine h.frame (fun _ _ => pending_exec hmoves) codes_exec (log_exec hmoves) ?_ ?_ ?_
      · simp [hnone]
      · intro code hgen
        obtain ⟨a', hfocus, hgen⟩ := Option.bind_eq_some_iff.mp hgen
        rw [hfocus, Option.bind_some, Act.code_of_generates hgen] at hnone
        cases hnone
      · intro code dev hfocus
        rw [hfocus] at hnone
        cases hnone
  | true =>
      cases a
      case generateClock code deviceName =>
        refine h.frame (fun _ _ => id) rfl hnil ?_ ?_ (by rintro _ _ ⟨⟩)
        · rintro _ ⟨⟩
          simp [hf, Act.code]
        · rintro _ ⟨⟩
          simp [hf, Act.generates]
      case generateInsert p => exact h.insert hf
      case verifyTake code deviceId token =>
        simp only [DevicePairing.exec]
        split
        · exact h.frame (fun _ _ => id) rfl hnil (by rintro _ ⟨⟩) (by rintro _ ⟨⟩)
            (by rintro _ _ ⟨⟩)
        · rename_i p hlookup
          split
          · refine h.frame ?_ rfl hnil (by rintro _ ⟨⟩) (by rintro _ ⟨⟩) (by rintro _ _ ⟨⟩)
            intro code' q hq
            dsimp only at hq
            rw [HashMap.lookup_erase_eq] at hq
            split at hq
            · cases hq
            · exact hq
          · rename_i hlate
            exact h.take hlookup (not_lt.mp hlate)
      case verifyPush code dev => exact h.use hf rfl
      all_goals cases hmoves

/-! ## §3  The index -/

/-- The index says of every token at which position it is. -/
def Synced (index : HashMap String ℕ) (toks : List String) : Prop :=
  ∀ token idx, index.lookup token = some idx ↔ toks[idx]? = some token

theorem Synced.insert {index : HashMap String ℕ} (h : Synced index toks) (hnew : token ∉ toks) :
    Synced (index.insert token toks.length) (toks ++ [token]) := by
  intro token' idx
  rw [HashMap.lookup_insert_eq]
  rcases lt_trichotomy idx toks.length with hlt | rfl | hgt
  · rw [List.getElem?_append_left hlt]
    split
    · rename_i heq
      subst heq
      constructor
      · rintro ⟨⟩
        exact absurd hlt (lt_irrefl _)
      · exact fun hget => absurd (List.mem_of_getElem? hget) hnew
    · exact h token' idx
  · rw [List.getElem?_concat_length]
    split
    · rename_i heq
      simp [heq]
    · rename_i hne
      have hnone : index.lookup token' ≠ some toks.length := by
        rw [ne_eq, h, List.getElem?_eq_none le_rfl]
        simp
      simp [hnone, Ne.symm hne]
  · have hnone (token' : String) : index.lookup token' ≠ some idx := by
      rw [ne_eq, h, List.getElem?_eq_none hgt.le]
      simp
    rw [List.getElem?_eq_none (by simpa using Nat.succ_le_of_lt hgt)]
    split
    · simp [hgt.ne]
    · simp [hnone]

theorem synced_indexOf {devices : List PairedDevice} (h : (devices.map (·.token)).Nodup) :
    Synced (indexOf devices) (devices.map (·.token)) := by
  have hkeys : (devices.zipIdx.map (fun e => (e.1.token, e.2))).map Prod.fst =
      devices.map (·.token) := by
    conv_rhs => rw [← List.zipIdx_map_fst 0 devices, List.map_map]
    rw [List.map_map]
    rfl
  intro token idx
  rw [indexOf, HashMap.lookup_ofEntries (hkeys ▸ h), List.mem_map, List.getElem?_map]
  constructor
  · rintro ⟨⟨dev, j⟩, hmem, heq⟩
    obtain ⟨rfl, rfl⟩ := Prod.mk.inj heq
    rw [List.mem_zipIdx_iff_getElem?] at hmem
    simp [hmem]
  · intro hget
    obtain ⟨dev, hdev, rfl⟩ := Option.map_eq_some_iff.mp hget
    exact ⟨(dev, idx), List.mem_zipIdx_iff_getElem?.mpr hdev, rfl⟩

/-- The devices have changed and the index has not. -/
def Act.updating : Act → Bool
  | .verifyIndex _ _ | .revokeIndex _ => true
  | _ => false

/-- Between updates the index is right; an update knows what is missing; a call that
has looked a position up still finds it in the index. -/
structure Sync (f : ℕ → Option Act) (d : Data) : Prop where
  settled : (∀ t a, f t = some a → a.updating = false) → Synced d.tokenIndex d.deviceTokens
  adding : ∀ {t dev idx}, f t = some (.verifyIndex dev idx) →
    ∃ toks, d.deviceTokens = toks ++ [dev.token] ∧ idx = toks.length ∧ Synced d.tokenIndex toks
  looked : ∀ {t token idx}, f t = some (.validateRead token idx) →
    d.tokenIndex.lookup token = some idx

/-- A guard on the devices keeps updates away. -/
theorem updating_of_alone (halone : Alone (devicePairing persistPath) f t a)
    (hheld : held a .devices ≠ none) (hf : f t' = some a') (hne : t' ≠ t) :
    a'.updating = false := by
  have hpins := (halone (l := .devices) hf hne).2 hheld
  cases a' <;> first | rfl | exact absurd rfl hpins

/-- A guard for writing the index keeps lookups away. -/
theorem looked_of_alone (halone : Alone (devicePairing persistPath) f t a)
    (hheld : held a .tokenIndex = some .write) (hf : f t' = some a') (hne : t' ≠ t) :
    a' ≠ .validateRead token idx := by
  rintro rfl
  have hpins := (halone (l := .tokenIndex) hf hne).1 hheld
  cases hpins

/-- Actions that change neither the tokens of the devices nor the index. -/
theorem Sync.frame (h : Sync f d) (ha : ∀ a, f t = some a → a.updating = false)
    (hdev : d'.deviceTokens = d.deviceTokens) (hindex : d'.tokenIndex = d.tokenIndex)
    (hlooked : ∀ token idx, o = some (.validateRead token idx) →
      d.tokenIndex.lookup token = some idx)
    (hadding : ∀ dev idx, o ≠ some (.verifyIndex dev idx)) :
    Sync (Function.update f t o) d' := by
  constructor
  · intro hall
    rw [hdev, hindex]
    refine h.settled fun t' a' hf' => ?_
    by_cases heq : t' = t
    · exact ha a' (heq ▸ hf')
    · exact hall t' a' (by rw [Function.update_of_ne heq, hf'])
  · intro t' dev idx hf'
    rw [hdev, hindex]
    rcases update_eq_some hf' with ⟨-, ho⟩ | ⟨-, hf'⟩
    · exact absurd ho (hadding dev idx)
    · exact h.adding hf'
  · intro t' token idx hf'
    rw [hindex]
    rcases update_eq_some hf' with ⟨-, ho⟩ | ⟨-, hf'⟩
    · exact hlooked token idx ho
    · exact h.looked hf'

/-- The actions that change the index. -/
def Act.indexes : Act → Bool
  | .loadStore _ | .verifyIndex _ _ | .revokeIndex _ => true
  | _ => false

theorem tokenIndex_exec (h : a.indexes = false) : (exec a d).1.tokenIndex = d.tokenIndex := by
  fun_cases exec a d
  all_goals first
    | rfl
    | cases h

theorem looked_exec (h : (exec a d).2.focus = some (.validateRead token idx)) :
    d.tokenIndex.lookup token = some idx := by
  revert h
  fun_cases exec a d
  all_goals rintro ⟨⟩
  assumption

theorem adding_exec {dev : PairedDevice} (h : a.edits = false) :
    (exec a d).2.focus ≠ some (.verifyIndex dev idx) := by
  fun_cases exec a d
  all_goals first
    | (cases h; done)
    | rintro ⟨⟩

/-- The next state after a change of the devices: the index is behind, nobody else is
updating. -/
theorem Sync.update (h : Sync f d)
    (ho : o.any Act.updating = true) (hindex : d'.tokenIndex = d.tokenIndex)
    (hother : ∀ t' a', f t' = some a' → t' ≠ t → a'.updating = false)
    (hadding : ∀ dev idx, o = some (.verifyIndex dev idx) →
      ∃ toks, d'.deviceTokens = toks ++ [dev.token] ∧ idx = toks.length ∧
        Synced d.tokenIndex toks) :
    Sync (Function.update f t o) d' := by
  obtain ⟨b, hb, hupd⟩ := (Option.any_eq_true _ _).mp ho
  subst hb
  constructor
  · intro hall
    rw [hall t b (by simp)] at hupd
    cases hupd
  · intro t' dev idx hf'
    rw [hindex]
    rcases update_eq_some hf' with ⟨-, ho⟩ | ⟨hne, hf'⟩
    · exact hadding dev idx ho
    · exact absurd (hother t' _ hf' hne) (by simp [Act.updating])
  · intro t' token idx hf'
    rw [hindex]
    rcases update_eq_some hf' with ⟨-, ⟨⟩⟩ | ⟨-, hf'⟩
    · cases hupd
    · exact h.looked hf'

/-- The state after the index was brought up to date, where no call had looked a
position up. -/
theorem Sync.indexed (ho : ∀ a, o = some a → a.updating = false)
    (hlooked : ∀ token idx, o ≠ some (.validateRead token idx))
    (hsynced : Synced d'.tokenIndex d'.deviceTokens)
    (hother : ∀ t' a', f t' = some a' → t' ≠ t → a'.updating = false ∧
      ∀ token idx, a' ≠ .validateRead token idx) :
    Sync (Function.update f t o) d' := by
  constructor
  · exact fun _ => hsynced
  · intro t' dev idx hf'
    rcases update_eq_some hf' with ⟨-, heq⟩ | ⟨hne, hf'⟩
    · exact absurd (ho _ heq) (by simp [Act.updating])
    · exact absurd (hother t' _ hf' hne).1 (by simp [Act.updating])
  · intro t' token idx hf'
    rcases update_eq_some hf' with ⟨-, heq⟩ | ⟨hne, hf'⟩
    · exact absurd heq (hlooked token idx)
    · exact absurd rfl ((hother t' _ hf' hne).2 token idx)

/-- Where no call is updating, the running one included, the index is right. -/
theorem Sync.synced (h : Sync f d) (halone : Alone (devicePairing persistPath) f t a)
    (hheld : held a .devices ≠ none) (hf : f t = some a) (ha : a.updating = false) :
    Synced d.tokenIndex d.deviceTokens := by
  refine h.settled fun t' a' hf' => ?_
  by_cases heq : t' = t
  · subst heq
    rw [hf] at hf'
    cases hf'
    exact ha
  · exact updating_of_alone halone hheld hf' heq

theorem Sync.exec (h : Sync f d) (hdraws : Draws f d)
    (halone : Alone (devicePairing persistPath) f t a) (hf : f t = some a)
    (hload : ∀ devices, a ≠ .loadStore devices) :
    Sync (Function.update f t (exec a d).2.focus) (exec a d).1 := by
  cases hindexes : a.indexes with
  | true =>
      cases a
      case loadStore devices => exact absurd rfl (hload devices)
      case verifyIndex dev idx =>
        obtain ⟨toks, htoks, rfl, hsynced⟩ := h.adding hf
        have hnew : dev.token ∉ toks := by
          have hnodup := hdraws.nodup
          rw [htoks] at hnodup
          exact fun hmem =>
            (List.nodup_append.mp hnodup).2.2 _ hmem _ (List.mem_singleton.mpr rfl) rfl
        refine Sync.indexed (by rintro _ ⟨⟩; rfl) (by rintro _ _ ⟨⟩) ?_ ?_
        · have hsame : (exec (.verifyIndex dev toks.length) d).1.deviceTokens =
              toks ++ [dev.token] := htoks
          rw [hsame]
          exact hsynced.insert hnew
        · exact fun t' a' hf' hne =>
            ⟨updating_of_alone halone (by simp [held]) hf' hne,
              fun _ _ => looked_of_alone halone rfl hf' hne⟩
      case revokeIndex removed =>
        refine Sync.indexed (by rintro _ ⟨⟩; rfl) (by rintro _ _ ⟨⟩)
          (synced_indexOf hdraws.nodup) ?_
        exact fun t' a' hf' hne =>
          ⟨updating_of_alone halone (by simp [held]) hf' hne,
            fun _ _ => looked_of_alone halone rfl hf' hne⟩
      all_goals cases hindexes
  | false =>
      have ha : a.updating = false := by
        cases a <;> first | rfl | cases hindexes
      have hother (b : Act) (hb : f t = some b) : b.updating = false := by
        rw [hf] at hb
        cases hb
        exact ha
      cases hedits : a.edits with
      | false =>
          exact h.frame hother (deviceTokens_exec hedits) (tokenIndex_exec hindexes)
            (fun _ _ => looked_exec) (fun _ _ => adding_exec hedits)
      | true =>
          cases a
          case loadStore devices => exact absurd rfl (hload devices)
          case verifyPush code dev =>
            refine h.update rfl rfl
              (fun t' a' hf' hne => updating_of_alone halone (by simp [held]) hf' hne) ?_
            rintro _ _ ⟨⟩
            exact ⟨d.deviceTokens, by simp [DevicePairing.exec, Data.deviceTokens],
              by simp [Data.deviceTokens], h.synced halone (by simp [held]) hf rfl⟩
          case revokeRemove deviceId =>
            simp only [DevicePairing.exec]
            split
            · exact h.frame hother rfl rfl (by rintro _ _ ⟨⟩) (by rintro _ _ ⟨⟩)
            · exact h.update rfl rfl
                (fun t' a' hf' hne => updating_of_alone halone (by simp [held]) hf' hne)
                (by rintro _ _ ⟨⟩)
          all_goals cases hedits

theorem enter_eq {c : Call} {p : Code} (h : enter c d = some (d', p)) :
    d'.deviceTokens = d.deviceTokens ∧ d'.tokenIndex = d.tokenIndex ∧ d'.log = d.log ∧
      (∀ token idx, p.focus ≠ some (.validateRead token idx)) ∧
      ∀ dev idx, p.focus ≠ some (.verifyIndex dev idx) := by
  revert h
  fun_cases DevicePairing.enter c d
  all_goals rintro ⟨⟩
  all_goals exact ⟨rfl, rfl, rfl, by rintro _ _ ⟨⟩, by rintro _ _ ⟨⟩⟩

theorem Sync.enter {c : Call} {p : Code} (h : Sync f d) (hnone : f t = none)
    (henter : enter c d = some (d', p)) : Sync (Function.update f t p.focus) d' := by
  obtain ⟨hdev, hindex, -, hlooked, hadding⟩ := enter_eq henter
  exact h.frame (by simp [hnone]) hdev hindex
    (fun token idx hfocus => absurd hfocus (hlooked token idx)) hadding

/-! ## §4  Runs -/

def Act.loads : Act → Bool
  | .loadRead | .loadStore _ => true
  | _ => false

/-- No acceptance of a token after the revocation of its device. -/
def NeverAgain (log : List Event) : Prop :=
  log.Pairwise fun e e' => ∀ dev token deviceId,
    e = .revoked dev → e' = .accepted token deviceId → token ≠ dev.token

theorem Draws.neverAgain (hdraws : Draws f d) (h : NeverAgain d.log) (hsync : Sync f d)
    (halone : Alone (devicePairing persistPath) f t a) (hf : f t = some a) :
    NeverAgain (DevicePairing.exec a d).1.log := by
  have hquiet {e : Event} (he : ∀ token deviceId, e ≠ .accepted token deviceId) :
      NeverAgain (d.log ++ [e]) := by
    refine List.pairwise_append.mpr ⟨h, List.pairwise_singleton .., ?_⟩
    intro e₁ _ e₂ he₂ dev token deviceId _ heq
    exact absurd heq (List.mem_singleton.mp he₂ ▸ he token deviceId)
  cases a
  case generateInsert p => exact hquiet (by rintro _ _ ⟨⟩)
  case verifyTake code deviceId token =>
    simp only [DevicePairing.exec]
    split
    · exact h
    · split <;> exact h
  case verifyPush code dev => exact hquiet (by rintro _ _ ⟨⟩)
  case revokeRemove deviceId =>
    simp only [DevicePairing.exec]
    split
    · exact h
    · exact hquiet (by rintro _ _ ⟨⟩)
  case validateRead token idx =>
    -- the token that is accepted belongs to a device of the list
    have hget := (hsync.synced halone (by simp [held]) hf rfl token idx).mp (hsync.looked hf)
    simp only [DevicePairing.exec]
    split
    · exact h
    · refine List.pairwise_append.mpr ⟨h, List.pairwise_singleton .., ?_⟩
      rintro _ hmem e' he' dev token' deviceId rfl rfl
      cases List.mem_singleton.mp he'
      rintro rfl
      exact (hdraws.revoked hmem).2 (List.mem_of_getElem? hget)
  all_goals
    simp only [DevicePairing.exec]
    first
      | exact h
      | (split <;> first | exact h | (split <;> exact h))

structure Inv (f : ℕ → Option Act) (d : Data) : Prop where
  noLoad : ∀ {t a}, f t = some a → a.loads = false
  draws : Draws f d
  codes : Codes f d
  sync : Sync f d
  neverAgain : NeverAgain d.log

theorem loads_exec (h : a.loads = false) (hfocus : (exec a d).2.focus = some a') :
    a'.loads = false := by
  revert hfocus
  fun_cases exec a d
  all_goals first
    | (cases h; done)
    | rintro ⟨⟩ <;> rfl

theorem loads_enter {c : Call} {p : Code} (hc : c ≠ .load) (h : enter c d = some (d', p))
    (hfocus : p.focus = some a') : a'.loads = false := by
  revert h
  fun_cases enter c d
  case case1 => exact absurd rfl hc
  all_goals rintro ⟨⟩
  all_goals
    cases hfocus
    rfl

theorem inv_start :
    Inv (devicePairing persistPath).start.focusAt (devicePairing persistPath).init where
  noLoad h := by cases h
  draws := ⟨List.nodup_nil, by simp [devicePairing, Data.deviceTokens], by rintro _ _ _ ⟨⟩,
    by rintro _ _ _ _ _ ⟨⟩, by simp [devicePairing]⟩
  codes := ⟨by simp [devicePairing], by rintro _ _ _ ⟨⟩, by rintro _ _ _ _ _ ⟨⟩,
    by simp [devicePairing], by rintro _ _ _ _ ⟨⟩, by simp [devicePairing], by rintro _ _ _ ⟨⟩,
    by simp [devicePairing], List.Pairwise.nil⟩
  sync := ⟨fun _ _ _ => by simp [devicePairing, Data.deviceTokens], by rintro _ _ _ ⟨⟩,
    by rintro _ _ _ ⟨⟩⟩
  neverAgain := List.Pairwise.nil

/-- The methods that the devices and codes are about. -/
def Listed (_ : Sys Loc Act Reply Data) (c : Call) : Prop := c ≠ .load

instance Listed.decidable (s : Sys Loc Act Reply Data) (c : Call) : Decidable (Listed s c) :=
  inferInstanceAs (Decidable (c ≠ .load))

/-- `touch` writes at a position that is still the one of its token, or that no device
has. -/
def InPlace (s : Sys Loc Act Reply Data) (_ : ℕ) : Act → Prop
  | .touchWrite token idx =>
      s.data.tokenIndex.lookup token = some idx ∨ s.data.devices.length ≤ idx
  | _ => True

instance InPlace.decidable (s : Sys Loc Act Reply Data) (t : ℕ) :
    ∀ a, Decidable (InPlace s t a)
  | .touchWrite token idx => inferInstanceAs (Decidable
      (s.data.tokenIndex.lookup token = some idx ∨ s.data.devices.length ≤ idx))
  | .loadRead | .loadStore _ | .saveCheck _ | .saveWrite _ | .generateClock _ _
  | .generateInsert _ | .verifyTake _ _ _ | .verifyPush _ _ | .verifyIndex _ _
  | .validateLookup _ | .validateRead _ _ | .touchLookup _ | .list | .revokeRemove _
  | .revokeIndex _ | .cleanupClock | .cleanupRetain _ => inferInstanceAs (Decidable True)

/-- The runs of the listed methods, whatever `touch` does. -/
theorem inv_of_runs {Q : Sys Loc Act Reply Data → ℕ → Act → Prop} {tr : List (Turn Call Env)}
    {s : Sys Loc Act Reply Data}
    (run : Runs (StepWhere (devicePairing persistPath).Step (TurnsWhere Listed Q))
      (devicePairing persistPath).start tr s) :
    Inv s.focusAt s.data := by
  refine Service.focus_invariant agrees_start inv_start ?_ ?_ ?_ run
  · rintro _ u t c d' p - hu hnone hlisted henter
    refine ⟨?_, hu.draws.enter henter, hu.codes.enter henter, hu.sync.enter hnone henter,
      (enter_eq henter).2.2.1.symm ▸ hu.neverAgain⟩
    intro t' a' hf
    rcases update_eq_some hf with ⟨-, heq⟩ | ⟨-, hf⟩
    · exact loads_enter hlisted henter heq
    · exact hu.noLoad hf
  · intro f d e hu
    cases e <;>
      exact ⟨hu.noLoad, { hu.draws with }, { hu.codes with }, { hu.sync with }, hu.neverAgain⟩
  · rintro _ u t a - hagree hu hproc -
    have hf : u.focusAt t = some a := focusAt_act hproc
    have halone := hagree.alone_act hproc
    have hload : ∀ devices, a ≠ .loadStore devices := by
      rintro devices rfl
      cases hu.noLoad hf
    refine ⟨?_, hu.draws.exec hf hload, hu.codes.exec hf,
      hu.sync.exec hu.draws halone hf hload, hu.draws.neverAgain hu.neverAgain hu.sync halone hf⟩
    intro t' a' hf'
    rcases update_eq_some hf' with ⟨-, heq⟩ | ⟨-, hf'⟩
    · exact loads_exec (hu.noLoad hf) heq
    · exact hu.noLoad hf'

/-- What `validate_token` answers when nothing else runs. -/
def validateToken (d : Data) (token : String) : Option String :=
  (d.tokenIndex.lookup token).bind (fun idx => d.devices[idx]?.map (·.deviceId))

/-- No call has changed the devices and not yet the index. -/
def Settled (s : Sys Loc Act Reply Data) : Prop :=
  ∀ t a, s.focusAt t = some a → a.updating = false

theorem Synced.validateToken (h : Synced d.tokenIndex d.deviceTokens) {deviceId : String} :
    validateToken d token = some deviceId ↔
      ∃ dev ∈ d.devices, dev.token = token ∧ dev.deviceId = deviceId := by
  simp only [DevicePairing.validateToken, Option.bind_eq_some_iff, Option.map_eq_some_iff]
  constructor
  · rintro ⟨idx, hidx, dev, hdev, hid⟩
    rw [h, Data.deviceTokens, List.getElem?_map, hdev] at hidx
    exact ⟨dev, List.mem_of_getElem? hdev, Option.some.inj hidx, hid⟩
  · rintro ⟨dev, hmem, htoken, hid⟩
    obtain ⟨idx, hidx⟩ := List.getElem?_of_mem hmem
    refine ⟨idx, (h token idx).mpr ?_, dev, hidx, hid⟩
    rw [Data.deviceTokens, List.getElem?_map, hidx, Option.map_some, htoken]

/-- A write in place changes the device of the token only. -/
theorem touch_in_place (h : Synced d.tokenIndex d.deviceTokens)
    (hplace : d.tokenIndex.lookup token = some idx ∨ d.devices.length ≤ idx) {j : ℕ}
    {dev : PairedDevice} (hdev : d.devices[j]? = some dev) (hne : dev.token ≠ token) :
    (exec (.touchWrite token idx) d).1.devices[j]? = some dev := by
  simp only [exec, List.getElem?_modify, hdev]
  split
  · rename_i heq
    subst heq
    rcases hplace with hplace | hlen
    · rw [h, Data.deviceTokens, List.getElem?_map, hdev] at hplace
      exact absurd (Option.some.inj hplace) hne
    · rw [List.getElem?_eq_none hlen] at hdev
      cases hdev
  · rfl

/-- Device tokens authenticate: over every run of the listed methods in which `touch`
writes in place. -/
theorem device_tokens_authenticate {tr : List (Turn Call Env)} {s : Sys Loc Act Reply Data}
    (run : Runs (StepWhere (devicePairing persistPath).Step (TurnsWhere Listed InPlace))
      (devicePairing persistPath).start tr s) :
    -- between updates, exactly the tokens of the paired devices are valid
    (Settled s → ∀ token deviceId, validateToken s.data token = some deviceId ↔
      ∃ dev ∈ s.data.devices, dev.token = token ∧ dev.deviceId = deviceId) ∧
    -- and a validation that reads the devices does so between updates
    (∀ t token idx, s.procs t = some (.act (.validateRead token idx)) →
      Settled s ∧ s.data.tokenIndex.lookup token = some idx) ∧
    -- a code pairs one device, before it expires
    (s.data.log.Pairwise fun e e' =>
      ∀ code dev dev', e = .paired code dev → e' ≠ .paired code dev') ∧
    (∀ code dev, .paired code dev ∈ s.data.log → ∃ p, .issued p ∈ s.data.log ∧ p.code = code ∧
      dev.pairedAt ≤ p.expiresAt ∧ ∀ p', .issued p' ∈ s.data.log → p'.code = code → p' = p) ∧
    -- the token of a revoked device is not accepted again
    NeverAgain s.data.log ∧
    -- `touch` changes no device but the one of its token
    ∀ i s', StepWhere (devicePairing persistPath).Step (TurnsWhere Listed InPlace) s i s' →
      ∀ t token idx, i = .run t → s.procs t = some (.act (.touchWrite token idx)) →
        ∀ (j : ℕ) dev, s.data.devices[j]? = some dev → dev.token ≠ token →
          s'.data.devices[j]? = some dev := by
  have hinv : Inv s.focusAt s.data := inv_of_runs run
  have hagree : Agrees (devicePairing persistPath) s :=
    agrees_of_runs agrees_start (run.mono fun _ _ _ _ h => h.1)
  refine ⟨?_, ?_, hinv.codes.once, ?_, hinv.neverAgain, ?_⟩
  · exact fun hsettled token deviceId => (hinv.sync.settled hsettled).validateToken
  · intro t token idx hproc
    have hf : s.focusAt t = some (.validateRead token idx) := focusAt_act hproc
    refine ⟨fun t' a' hf' => ?_, hinv.sync.looked hf⟩
    by_cases heq : t' = t
    · subst heq
      rw [hf] at hf'
      cases hf'
      rfl
    · exact updating_of_alone (hagree.alone_act hproc) (by simp [held]) hf' heq
  · intro code dev hdev
    obtain ⟨p, hp, rfl, htime⟩ := hinv.codes.paired hdev
    exact ⟨p, hp, rfl, htime, fun p' hp' => hinv.codes.issued hp hp'⟩
  · rintro i s' ⟨⟨j, hnext⟩, hwhere⟩ t token idx rfl hproc j dev hdev hne
    have hf : s.focusAt t = some (.touchWrite token idx) := focusAt_act hproc
    have hsynced := hinv.sync.synced (hagree.alone_act hproc) (by simp [held]) hf rfl
    have hplace := hwhere (.touchWrite token idx) (by simp [Sys.acting, hproc])
    obtain ⟨rfl, hmove⟩ := moves_of_next hnext
    cases hmove with
    | @act t a hproc' =>
        rw [hproc] at hproc'
        cases hproc'
        exact touch_in_place hsynced hplace hdev hne
    | halt hproc' | request hproc' _ | grant hproc' _ _ | release hproc' =>
        rw [hproc] at hproc'
        cases hproc'

/-- Two devices are paired and the first one is revoked while `touch` is on its way
from the index to the devices. -/
def touchAgainstRevoke : List (Turn Call Env) :=
  Turn.call 0 (Call.generateCode "111111" none) :: List.replicate 6 (Turn.run 0) ++
    Turn.call 1 (Call.verifyCode "111111" "phone" "dev_phone") :: List.replicate 14 (Turn.run 1) ++
    Turn.call 2 (Call.generateCode "222222" none) :: List.replicate 6 (Turn.run 2) ++
    Turn.call 3 (Call.verifyCode "222222" "tablet" "dev_tablet") ::
    List.replicate 14 (Turn.run 3) ++
    Turn.env (.clock 60) :: Turn.call 4 (Call.touch "dev_phone") :: List.replicate 4 (Turn.run 4) ++
    Turn.call 5 (Call.revokeDevice "phone") :: List.replicate 10 (Turn.run 5) ++
    List.replicate 2 (Turn.run 4)

theorem touch_writes_elsewhere :
    ∃ tr s s' dev, Runs (devicePairing false).Step (devicePairing false).start tr s ∧
      (devicePairing false).Step s (.run 4) s' ∧
      s.procs 4 = some (.act (.touchWrite "dev_phone" 0)) ∧
      s.data.devices = [dev] ∧ dev.token = "dev_tablet" ∧ dev ∉ s'.data.devices := by
  have run : Runs (devicePairing false).Step (devicePairing false).start _ _ :=
    runs_of_exec_isSome touchAgainstRevoke (by decide)
  refine ⟨_, _, _, ⟨"tablet", "Unknown Device", "dev_tablet", 0, some 0⟩, run,
    ⟨.run 4, rfl⟩, rfl, by decide, by decide, by decide⟩

/-- `touch` with nothing in between. -/
theorem device_tokens_authenticate_touch :
    ∃ tr s, Runs (StepWhere (devicePairing false).Step (TurnsWhere Listed InPlace))
        (devicePairing false).start tr s ∧
      s.procs 4 = some (.act (.touchWrite "dev_phone" 0)) ∧ s.data.devices.length = 2 ∧
      NeverAgain s.data.log ∧
      (Settled s → ∀ token deviceId, validateToken s.data token = some deviceId ↔
        ∃ dev ∈ s.data.devices, dev.token = token ∧ dev.deviceId = deviceId) := by
  have run : Runs (StepWhere (devicePairing false).Step (TurnsWhere Listed InPlace))
      (devicePairing false).start _ _ :=
    runs_where_of_exec (touchAgainstRevoke.take 50 ++ List.replicate 2 (.run 4))
      (by decide)
  obtain ⟨hvalid, -, -, -, hnever, -⟩ := device_tokens_authenticate run
  exact ⟨_, _, run, rfl, by decide, hnever, hvalid⟩

end Oclaw.SecurityCore.DevicePairing
