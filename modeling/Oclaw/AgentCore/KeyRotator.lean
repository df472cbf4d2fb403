import Mathlib.Data.Int.Notation
import Mathlib.Data.List.Basic
import Mathlib.Data.Nat.Notation

/-!
# API key rotation

`KeyRotator` of `crates/agent-core/src/auth.rs`, called by one caller. `get_key` leaves the
index behind the slot that it returns, and `mark_limited` marks the slot at the index, so
the two agree on which key is meant when there is only one. Clock readings are arguments;
the sum of a reading and a cooldown wraps, as in a release build.
-/

namespace Oclaw.AgentCore

/-- `i64` addition in a release build. -/
def wrappingAdd (a b : ℤ) : ℤ := Int.bmod (a + b) 0x10000000000000000

/-- The values of an `i64`. -/
def InI64 (a : ℤ) : Prop := -0x8000000000000000 ≤ a ∧ a < 0x8000000000000000

theorem wrappingAdd_eq {a b : ℤ} (h : InI64 (a + b)) : wrappingAdd a b = a + b := by
  obtain ⟨hlow, hhigh⟩ := h
  unfold wrappingAdd
  rw [Int.bmod_eq_of_le] <;> omega

structure KeySlot : Type where
  key : String
  cooldownUntil : Option ℤ
deriving DecidableEq

def KeySlot.available (now : ℤ) (slot : KeySlot) : Bool :=
  slot.cooldownUntil.all (fun t => decide (t ≤ now))

structure KeyRotator : Type where
  keys : List KeySlot
  current : ℕ
deriving DecidableEq

/-- A call and the clock that it reads. -/
inductive KeyCall : Type where
  | getKey (now : ℤ)
  | markLimited (now cooldown : ℤ)

def KeyCall.time : KeyCall → ℤ
  | .getKey now => now
  | .markLimited now _ => now

namespace KeyRotator

def new (keys : List String) : KeyRotator := ⟨keys.map (fun k => ⟨k, none⟩), 0⟩

/-- The slots in the order in which `get_key` looks at them. -/
def order (r : KeyRotator) : List ℕ :=
  (List.range r.keys.length).map (fun i => (r.current + i) % r.keys.length)

/-- Get the next available key, skipping those in cooldown. -/
def getKey (r : KeyRotator) (now : ℤ) : Option String × KeyRotator :=
  match r.order.find? (fun idx => r.keys[idx]?.any (KeySlot.available now)) with
  | some idx =>
      (r.keys[idx]?.map KeySlot.key, { r with current := (idx + 1) % r.keys.length })
  | none => (none, r)

/-- Mark the current key as rate-limited; rotate to next. `none` where the remainder by
the number of keys divides by zero. -/
def markLimited (r : KeyRotator) (now cooldown : ℤ) : Option KeyRotator :=
  let keys :=
    if r.current < r.keys.length then
      r.keys.modify r.current
        (fun slot => { slot with cooldownUntil := some (wrappingAdd now cooldown) })
    else r.keys
  if r.keys.length = 0 then none else some ⟨keys, (r.current + 1) % r.keys.length⟩

def call (r : KeyRotator) : KeyCall → Option KeyRotator
  | .getKey now => some (r.getKey now).2
  | .markLimited now cooldown => r.markLimited now cooldown

/-- The rotator after a sequence of calls, `none` if one of them panics. -/
def run (r : KeyRotator) : List KeyCall → Option KeyRotator
  | [] => some r
  | c :: calls => (r.call c).bind (fun r' => run r' calls)

/-! ## What rotation is for -/

/-- `get_key` returned `k` and left the rotator as `before`, and the next call, which was
`mark_limited`, left it as `after`. -/
def Limited (keys : List String) (calls : List KeyCall) (k : String) (now cooldown : ℤ)
    (before after : KeyRotator) (post : List KeyCall) : Prop :=
  ∃ pre t r, calls = pre ++ .getKey t :: .markLimited now cooldown :: post ∧
    run (new keys) pre = some r ∧ r.getKey t = (some k, before) ∧
    before.markLimited now cooldown = some after

structure Honours (keys : List String) (calls : List KeyCall) : Prop where
  /-- No call divides by zero. -/
  total : (run (new keys) calls).isSome = true
  /-- No other key is put into cooldown. -/
  others : ∀ {k now cooldown before after post},
    Limited keys calls k now cooldown before after post → 0 < cooldown →
    ∀ (j : ℕ) (slot : KeySlot), before.keys[j]? = some slot → slot.key ≠ k →
      after.keys[j]? = some slot
  /-- The key is not returned before its cooldown is over. -/
  rests : ∀ {k now cooldown before after post},
    Limited keys calls k now cooldown before after post → 0 < cooldown →
    ∀ mid t rest, post = mid ++ .getKey t :: rest → t < now + cooldown →
      ∀ r, run after mid = some r → (r.getKey t).1 ≠ some k

/-- The clock does not go back, no sum overflows, and no call of `mark_limited` ends a
cooldown that is still in force before its time. -/
structure Disciplined (keys : List String) (calls : List KeyCall) : Prop where
  clock : (calls.map KeyCall.time).Pairwise (· ≤ ·)
  fits : ∀ now cooldown, .markLimited now cooldown ∈ calls → InI64 (now + cooldown)
  keeps : ∀ pre now cooldown post, calls = pre ++ .markLimited now cooldown :: post →
    ∀ r, run (new keys) pre = some r → ∀ slot t, r.keys[r.current]? = some slot →
      slot.cooldownUntil = some t → now < t → t ≤ now + cooldown

/-- No report reaches a rotator without keys, and a report that directly follows a returned
key, for some time, reaches a rotator of one key in a disciplined run. -/
structure SingleReports (keys : List String) (calls : List KeyCall) : Prop where
  keyed : keys = [] → ∀ now cooldown, .markLimited now cooldown ∉ calls
  single : ∀ {k now cooldown before after post},
    Limited keys calls k now cooldown before after post → 0 < cooldown →
    keys.length = 1 ∧ Disciplined keys calls

/-! ## One key -/

theorem run_append (r : KeyRotator) (calls calls' : List KeyCall) :
    run r (calls ++ calls') = (run r calls).bind (fun r' => run r' calls') := by
  induction calls generalizing r with
  | nil => rfl
  | cons c calls ih =>
      rw [List.cons_append, run, run]
      cases r.call c with
      | none => rfl
      | some r' => exact ih r'

variable {k : String} {cd : Option ℤ} {now cooldown t : ℤ} {r : KeyRotator}

/-- A rotator of one key always stands at that key. -/
theorem getKey_single :
    getKey ⟨[⟨k, cd⟩], 0⟩ now =
      (if KeySlot.available now ⟨k, cd⟩ then some k else none, ⟨[⟨k, cd⟩], 0⟩) := by
  unfold getKey order
  by_cases h : KeySlot.available now ⟨k, cd⟩ = true <;> simp [h, List.range_succ]

theorem markLimited_single :
    markLimited ⟨[⟨k, cd⟩], 0⟩ now cooldown =
      some ⟨[⟨k, some (wrappingAdd now cooldown)⟩], 0⟩ := by
  simp [markLimited]

theorem run_single (k : String) (cd : Option ℤ) (calls : List KeyCall) :
    ∃ cd', run ⟨[⟨k, cd⟩], 0⟩ calls = some ⟨[⟨k, cd'⟩], 0⟩ := by
  induction calls generalizing cd with
  | nil => exact ⟨cd, rfl⟩
  | cons c calls ih =>
      rw [run]
      cases c with
      | getKey now =>
          rw [call, getKey_single]
          exact ih _
      | markLimited now cooldown =>
          rw [call, markLimited_single]
          exact ih _

/-- A deadline outlives the calls that are made before it. -/
theorem deadline_single {calls done mid rest : List KeyCall} {deadline u : ℤ}
    (hd : Disciplined [k] calls) (hcalls : calls = done ++ (mid ++ rest))
    (hdone : run (new [k]) done = some ⟨[⟨k, some u⟩], 0⟩) (hu : deadline ≤ u)
    (htime : ∀ c ∈ mid, c.time < deadline) :
    ∃ u', deadline ≤ u' ∧ run ⟨[⟨k, some u⟩], 0⟩ mid = some ⟨[⟨k, some u'⟩], 0⟩ := by
  induction mid generalizing done u with
  | nil => exact ⟨u, hu, rfl⟩
  | cons c mid ih =>
      have hnext : calls = (done ++ [c]) ++ (mid ++ rest) := by
        rw [hcalls, List.append_assoc]
        rfl
      have hrest : ∀ c' ∈ mid, c'.time < deadline :=
        fun c' hc' => htime c' (List.mem_cons_of_mem _ hc')
      cases c with
      | getKey now =>
          have hstep : call ⟨[⟨k, some u⟩], 0⟩ (.getKey now) = some ⟨[⟨k, some u⟩], 0⟩ := by
            rw [call, getKey_single]
          rw [run, hstep]
          refine ih hnext ?_ hu hrest
          rw [run_append, hdone]
          exact congrArg (fun r => r.bind fun r' => run r' []) hstep
      | markLimited now cooldown =>
          have hnow : now < deadline := htime (.markLimited now cooldown) List.mem_cons_self
          -- the cooldown is in force, so the call may only prolong it
          have hlonger : u ≤ now + cooldown :=
            hd.keeps done now cooldown (mid ++ rest) hcalls _ hdone _ u rfl rfl
              (Int.lt_of_lt_of_le hnow hu)
          have hfits : InI64 (now + cooldown) := hd.fits now cooldown (by rw [hcalls]; simp)
          have hstep : call ⟨[⟨k, some u⟩], 0⟩ (.markLimited now cooldown) =
              some ⟨[⟨k, some (now + cooldown)⟩], 0⟩ := by
            rw [call, markLimited_single, wrappingAdd_eq hfits]
          rw [run, hstep]
          refine ih hnext ?_ (Int.le_trans hu hlonger) hrest
          rw [run_append, hdone]
          exact congrArg (fun r => r.bind fun r' => run r' []) hstep

theorem time_le {pre post : List KeyCall} {c c' : KeyCall}
    (h : ((pre ++ c :: post).map KeyCall.time).Pairwise (· ≤ ·)) (hmem : c' ∈ pre) :
    c'.time ≤ c.time := by
  rw [List.map_append, List.pairwise_append] at h
  exact h.2.2 _ (List.mem_map_of_mem hmem) _ (by simp)

theorem honours_single {calls : List KeyCall} (hd : Disciplined [k] calls) :
    Honours [k] calls := by
  have hnew : new [k] = ⟨[⟨k, none⟩], 0⟩ := rfl
  refine ⟨?_, ?_, ?_⟩
  · obtain ⟨cd, hrun⟩ := run_single k none calls
    rw [hnew, hrun]
    rfl
  · rintro k' now cooldown before after post ⟨pre, t, r, -, hpre, hget, -⟩ - j slot hslot hne
    obtain ⟨cd, hrun⟩ := run_single k none pre
    rw [hnew, hrun] at hpre
    cases hpre
    rw [getKey_single] at hget
    obtain ⟨hkey, rfl⟩ := Prod.mk.inj hget
    split at hkey
    · -- the only slot is the slot of the key
      cases hkey
      cases j with
      | zero =>
          cases hslot
          exact absurd rfl hne
      | succ j => cases hslot
    · cases hkey
  · rintro k' now cooldown before after post ⟨pre, t, r, rfl, hpre, hget, hmark⟩ - mid t' rest
      rfl hearly r₃ hmid
    obtain ⟨cd, hrun⟩ := run_single k none pre
    have hr : r = ⟨[⟨k, cd⟩], 0⟩ := by
      rw [hnew, hrun] at hpre
      exact (Option.some.inj hpre).symm
    subst hr
    have hbefore : before = ⟨[⟨k, cd⟩], 0⟩ := by
      rw [getKey_single] at hget
      exact (congrArg Prod.snd hget).symm
    subst hbefore
    have hfits : InI64 (now + cooldown) := hd.fits now cooldown (by simp)
    have hafter : after = ⟨[⟨k, some (now + cooldown)⟩], 0⟩ := by
      rw [markLimited_single, wrappingAdd_eq hfits] at hmark
      exact (Option.some.inj hmark).symm
    subst hafter
    have hcalls : pre ++ .getKey t :: .markLimited now cooldown :: (mid ++ .getKey t' :: rest) =
        (pre ++ [.getKey t, .markLimited now cooldown]) ++ (mid ++ .getKey t' :: rest) := by
      simp
    have hdone : run (new [k]) (pre ++ [.getKey t, .markLimited now cooldown]) =
        some ⟨[⟨k, some (now + cooldown)⟩], 0⟩ := by
      rw [run_append, hpre, Option.bind_some, run, call, getKey_single, Option.bind_some, run,
        call, hmark]
      rfl
    have hclock := hd.clock
    rw [hcalls, ← List.append_assoc] at hclock
    obtain ⟨u, hu, hrun'⟩ := deadline_single hd hcalls hdone (Int.le_refl _) (fun c hc =>
      Int.lt_of_le_of_lt (time_le hclock (List.mem_append_right _ hc)) hearly)
    rw [hrun'] at hmid
    cases hmid
    rw [getKey_single]
    have hbusy : KeySlot.available t' ⟨k, some u⟩ = false := by
      simp only [KeySlot.available, Option.all_some, decide_eq_false_iff_not, Int.not_le]
      omega
    simp [hbusy]

/-! ## Other numbers of keys -/

theorem not_honours_nil : ¬ Honours [] [.markLimited 0 1] := by
  intro h
  exact absurd h.total (by decide)

theorem disciplined_nil : Disciplined [] [.markLimited 0 1] where
  clock := by simp
  fits := by
    intro now cooldown hmem
    cases List.mem_singleton.mp hmem
    exact ⟨by decide, by decide⟩
  keeps := by
    intro pre now cooldown post hcalls r hrun slot t hslot
    cases pre with
    | nil =>
        cases hrun
        cases hslot
    | cons c pre => simp at hcalls

theorem getKey_two (k₁ k₂ : String) (keys : List String) :
    (new (k₁ :: k₂ :: keys)).getKey 0 = (some k₁, ⟨(new (k₁ :: k₂ :: keys)).keys, 1⟩) := by
  have horder : (new (k₁ :: k₂ :: keys)).order =
      0 :: ((List.range (keys.length + 1)).map Nat.succ).map
        (fun i => (0 + i) % (keys.length + 2)) := by
    simp [order, new, List.range_succ_eq_map]
  rw [getKey, horder, List.find?_cons_of_pos (by rfl)]
  simp [new]

/-- With a second key, the index stands at it when the first one is to be marked. -/
theorem not_honours_two {k₁ k₂ : String} (keys : List String) (hne : k₁ ≠ k₂) :
    ¬ Honours (k₁ :: k₂ :: keys) [.getKey 0, .markLimited 0 1] := by
  intro h
  have hmark : (⟨(new (k₁ :: k₂ :: keys)).keys, 1⟩ : KeyRotator).markLimited 0 1 =
      some ⟨(new (k₁ :: k₂ :: keys)).keys.modify 1
        (fun slot => { slot with cooldownUntil := some 1 }), 2 % (keys.length + 2)⟩ := by
    have hone : wrappingAdd 0 1 = 1 := by decide
    simp [markLimited, new, hone]
  have hlimited : Limited (k₁ :: k₂ :: keys) [.getKey 0, .markLimited 0 1] k₁ 0 1 _ _ [] :=
    ⟨[], 0, _, rfl, rfl, getKey_two k₁ k₂ keys, hmark⟩
  have hkept := h.others hlimited (by decide) 1 ⟨k₂, none⟩ rfl (Ne.symm hne)
  simp [new] at hkept

theorem disciplined_two (k₁ k₂ : String) (keys : List String) :
    Disciplined (k₁ :: k₂ :: keys) [.getKey 0, .markLimited 0 1] where
  clock := by simp [KeyCall.time]
  fits := by
    intro now cooldown hmem
    have heq : now = 0 ∧ cooldown = 1 := by simpa using hmem
    rw [heq.1, heq.2]
    exact ⟨by decide, by decide⟩
  keeps := by
    intro pre now cooldown post hcalls r hrun slot t hslot htime
    -- only the first call comes before, and it sets no cooldown
    have hpre : pre = [.getKey 0] := by
      cases pre with
      | nil => simp at hcalls
      | cons c pre =>
          cases pre with
          | nil =>
              simp only [List.cons_append, List.nil_append, List.cons.injEq] at hcalls
              rw [← hcalls.1]
          | cons c' pre => simp at hcalls
    rw [hpre, run, call, getKey_two] at hrun
    cases hrun
    cases hslot
    cases htime

/-- Calls do not change the number of keys. -/
theorem call_length {r' : KeyRotator} {c : KeyCall} (h : r.call c = some r') :
    r'.keys.length = r.keys.length := by
  cases c with
  | getKey now =>
      cases h
      unfold getKey
      split <;> rfl
  | markLimited now cooldown =>
      rw [call, markLimited] at h
      split at h
      · cases h
      · cases h
        show (if _ then _ else _ : List KeySlot).length = _
        split
        · exact List.length_modify _ _ _
        · rfl

/-- A rotator with keys takes all calls, and one without takes those of `get_key`. -/
theorem run_total (calls : List KeyCall)
    (h : r.keys.length ≠ 0 ∨ ∀ now cooldown, .markLimited now cooldown ∉ calls) :
    (run r calls).isSome = true := by
  induction calls generalizing r with
  | nil => rfl
  | cons c calls ih =>
      obtain ⟨r', hcall⟩ : ∃ r', r.call c = some r' := by
        cases c with
        | getKey now => exact ⟨_, rfl⟩
        | markLimited now cooldown =>
            rcases h with hkeys | hno
            · exact ⟨_, if_neg hkeys⟩
            · exact absurd List.mem_cons_self (hno now cooldown)
      rw [run, hcall]
      refine ih (h.imp ?_ ?_)
      · rw [call_length hcall]
        exact id
      · intro hno now cooldown hmem
        exact hno now cooldown (List.mem_cons_of_mem _ hmem)

theorem honours_of_singleReports {keys : List String} {calls : List KeyCall}
    (h : SingleReports keys calls) : Honours keys calls := by
  have hsingle : ∀ {k now cooldown before after post},
      Limited keys calls k now cooldown before after post → 0 < cooldown →
      Honours keys calls := by
    intro k now cooldown before after post hlimited hpos
    obtain ⟨hone, hd⟩ := h.single hlimited hpos
    obtain ⟨key, rfl⟩ := List.length_eq_one_iff.mp hone
    exact honours_single hd
  refine ⟨run_total calls ?_, ?_, ?_⟩
  · cases keys with
    | nil => exact Or.inr (h.keyed rfl)
    | cons k keys => exact Or.inl (by simp [new])
  · intro k now cooldown before after post hlimited hpos
    exact (hsingle hlimited hpos).others hlimited hpos
  · intro k now cooldown before after post hlimited hpos
    exact (hsingle hlimited hpos).rests hlimited hpos

/-- **Rate limits.** A run in which all reports concern a single key honours the rate limits;
and over a list of distinct keys every disciplined run does so exactly when there is one
key. -/
theorem honours_iff (keys : List String) (hdistinct : keys.Nodup) :
    (∀ calls, SingleReports keys calls → Honours keys calls) ∧
    ((∀ calls, Disciplined keys calls → Honours keys calls) ↔ keys.length = 1) := by
  refine ⟨fun calls => honours_of_singleReports, ?_⟩
  constructor
  · intro hall
    cases keys with
    | nil =>
        exact absurd (hall _ disciplined_nil) not_honours_nil
    | cons k₁ keys =>
        cases keys with
        | nil => rfl
        | cons k₂ keys =>
            have hne : k₁ ≠ k₂ := by
              intro heq
              simp [heq] at hdistinct
            exact absurd (hall _ (disciplined_two k₁ k₂ keys)) (not_honours_two keys hne)
  · intro hone calls hd
    obtain ⟨k, rfl⟩ := List.length_eq_one_iff.mp hone
    exact honours_single hd

/-- Two keys. The first one is returned and reported as limited for a minute; the second
one is cooled down, and the first one is returned again at once. Without keys the report
divides by zero, and a second report of a single key cuts its cooldown short. -/
theorem limits_another_key :
    run (new ["A", "B"]) [.getKey 100, .markLimited 100 60] =
      some ⟨[⟨"A", none⟩, ⟨"B", some 160⟩], 0⟩ ∧
    (getKey ⟨[⟨"A", none⟩, ⟨"B", some 160⟩], 0⟩ 101).1 = some "A" ∧
    ¬ Honours ["A", "B"] [.getKey 100, .markLimited 100 60, .getKey 101] ∧
    ¬ Honours [] [.markLimited 100 60] ∧
    ¬ Honours ["A"]
      [.getKey 100, .markLimited 100 60, .markLimited 101 1, .getKey 102] := by
  refine ⟨by decide, by decide, ?_, ?_, ?_⟩
  · intro h
    have hlimited : Limited ["A", "B"] [.getKey 100, .markLimited 100 60, .getKey 101] "A"
        100 60 ⟨[⟨"A", none⟩, ⟨"B", none⟩], 1⟩ ⟨[⟨"A", none⟩, ⟨"B", some 160⟩], 0⟩
        [.getKey 101] :=
      ⟨[], 100, _, rfl, rfl, by decide, by decide⟩
    exact h.rests hlimited (by decide) [] 101 [] rfl (by decide) _ rfl (by decide)
  · intro h
    exact absurd h.total (by decide)
  · intro h
    have hlimited : Limited ["A"]
        [.getKey 100, .markLimited 100 60, .markLimited 101 1, .getKey 102] "A" 100 60
        ⟨[⟨"A", none⟩], 0⟩ ⟨[⟨"A", some 160⟩], 0⟩ [.markLimited 101 1, .getKey 102] :=
      ⟨[], 100, _, rfl, rfl, by decide, by decide⟩
    exact h.rests hlimited (by decide) [.markLimited 101 1] 102 [] rfl (by decide)
      ⟨[⟨"A", some 102⟩], 0⟩ (by decide) (by decide)

/-- A rotator of the key `A` alone honours the limits of every disciplined run. -/
theorem honours_one_key :
    (∀ calls, SingleReports ["A"] calls → Honours ["A"] calls) ∧
    ((∀ calls, Disciplined ["A"] calls → Honours ["A"] calls) ↔ ["A"].length = 1) :=
  honours_iff ["A"] (List.nodup_cons.mpr ⟨by simp, List.nodup_nil⟩)

end KeyRotator

end Oclaw.AgentCore
