import Oclaw.Gateway.SpawnTree

/-!
# How deep spawned sessions are

What the store holds of the fields that spawns write is what the log says was written last,
and a spawn writes down a depth that is one more than the one it has read and at most the
limit. So sessions that are spawned from one another, each while the record of the one
before stands, go no deeper than the limit of the last spawn.
-/

namespace Oclaw.Gateway.Sessions

open Oclaw.Lib Oclaw.Gateway.Announce

/-! ## §1  A depth is read back -/

theorem not_isWhitespace_of_isDigitOf {c : Char} (h : isDigitOf 10 c = true) :
    isWhitespace c = false := by
  have hrange : '0' ≤ c ∧ c ≤ '9' := by
    unfold isDigitOf toDigit at h
    split at h
    · assumption
    · rename_i hno
      split at h
      · rename_i ha
        have hle : 'a'.toNat ≤ c.toNat := ha.1
        simp only [Option.filter_some, Option.isSome_ite] at h
        simp only [decide_eq_true_eq] at h
        omega
      · split at h
        · simp only [Option.filter_some, Option.isSome_ite] at h
          simp only [decide_eq_true_eq] at h
          omega
        · simp at h
  have hlow : 48 ≤ c.toNat := hrange.1
  have hhigh : c.toNat ≤ 57 := hrange.2
  simp only [isWhitespace, Bool.or_eq_false_iff, Bool.and_eq_false_iff, beq_eq_false_iff_ne,
    decide_eq_false_iff_not]
  omega

theorem trimChars_eq_self {cs : List Char} (h : ∀ c ∈ cs, isWhitespace c = false) :
    trimChars cs = cs := by
  have hdrop : ∀ {l : List Char}, (∀ c ∈ l, isWhitespace c = false) →
      l.dropWhile isWhitespace = l := by
    intro l hl
    cases l with
    | nil => rfl
    | cons c l => rw [List.dropWhile_cons_of_neg (by simp [hl c (by simp)])]
  rw [trimChars, hdrop h, hdrop (fun c hc => h c (List.mem_reverse.mp hc)), List.reverse_reverse]

theorem toList_toString (n : ℕ) : (toString n).toList = Nat.toDigits 10 n := by
  show (Nat.repr n).toList = _
  simp [Nat.repr]

theorem trim_toString (n : ℕ) : trim (toString n) = toString n := by
  rw [trim, toList_toString, trimChars_eq_self fun c hc =>
    not_isWhitespace_of_isDigitOf (isDigitOf_toDigits c hc), ← toList_toString, String.ofList_toList]

theorem parseU32_toString {n : ℕ} (h : n ≤ u32Max) : parseU32 (toString n) = some n := by
  have hall : (Nat.toDigits 10 n).all (isDigitOf 10) = true :=
    List.all_eq_true.mpr isDigitOf_toDigits
  have hplus : ∀ ds, Nat.toDigits 10 n ≠ '+' :: ds := by
    intro ds hds
    have hdigit := isDigitOf_toDigits (n := n) '+' (by simp [hds])
    revert hdigit
    decide
  unfold parseU32
  rw [toList_toString]
  split
  · rename_i ds hds
    exact absurd hds (hplus ds)
  · have hne : (Nat.toDigits 10 n).isEmpty = false := by
      simp
    simp [hne, hall, digitsValue_toDigits, h]

theorem parseSpawnDepthMeta_of_lookup {metadata : Metadata} {n : ℕ} (h : n ≤ u32Max)
    (hlookup : metadata.lookup "spawnDepth" = some (toString n)) :
    parseSpawnDepthMeta metadata = some n := by
  unfold parseSpawnDepthMeta
  rw [hlookup, Option.some_or, Option.map_some, trim_toString, Option.filter_some,
    if_pos (by simp)]
  exact parseU32_toString h

/-! ## §2  What a spawn writes -/

section Fields

variable {job : SpawnJob} {d : ℕ} {field value : String}

/-- The fields under their own names, none of which is to be trimmed. -/
theorem trim_fields : ∀ e ∈ job.fields d, trim e.1 = e.1 := by
  unfold SpawnJob.fields
  simp only [List.forall_mem_append, List.forall_mem_cons, List.not_mem_nil, false_implies,
    implies_true, and_true]
  refine ⟨⟨⟨?_, ?_⟩, ?_⟩, ?_⟩
  · cases job.parentSession with
    | none => simp
    | some parent => simp only [List.forall_mem_cons, List.not_mem_nil, false_implies,
        implies_true, and_true]; decide
  · decide
  · split
    · simp
    · simp only [List.forall_mem_cons, List.not_mem_nil, false_implies, implies_true, and_true]
      decide
  · cases job.bindingTarget with
    | none => simp
    | some target =>
        simp only [List.forall_mem_append, List.forall_mem_cons, List.forall_mem_map,
          List.not_mem_nil, false_implies, implies_true, and_true]
        exact ⟨⟨by decide, fun _ _ => by decide⟩, fun _ _ => by decide⟩

/-- What the fields say that other spawns read. -/
theorem spawn_fields : ∀ e ∈ job.fields d,
    (e.1 = "spawnedBy" ∨ e.1 = "parentSessionKey" → job.parentSession = some e.2) ∧
      (e.1 = "spawnDepth" → e.2 = toString d) := by
  unfold SpawnJob.fields
  simp only [List.forall_mem_append, List.forall_mem_cons, List.not_mem_nil, false_implies,
    implies_true, and_true]
  refine ⟨⟨⟨?_, by simp⟩, ?_⟩, ?_⟩
  · cases job.parentSession <;> simp
  · split <;> simp
  · cases job.bindingTarget with
    | none => simp
    | some target =>
        simp only [List.forall_mem_append, List.forall_mem_cons, List.forall_mem_map,
          List.not_mem_nil, false_implies, implies_true, and_true]
        simp

end Fields

/-! ## §3  The log -/

section Log

variable {w : SpawnWorld} {db : Db} {wrote : List SpawnEvent} {key field : String} {i : ℕ}
  {t : SpawnTask}

theorem foldl_note_gone (keys : List String) (last : Option (ℕ × String)) :
    (keys.map SpawnEvent.gone).foldl (SpawnEvent.note key field) last =
      if key ∈ keys then none else last := by
  induction keys generalizing last with
  | nil => rfl
  | cons k keys ih =>
      rw [List.map_cons, List.foldl_cons, ih, SpawnEvent.note]
      by_cases hk : k = key
      · simp [hk]
      · have hk' : ¬ key = k := fun h => hk h.symm
        simp [hk, hk']

theorem record_put : (w.put db wrote).record key field =
    if key ∈ w.db.keys ∧ key ∉ db.keys then none
    else wrote.foldl (SpawnEvent.note key field) (w.record key field) := by
  unfold SpawnWorld.put SpawnWorld.record
  rw [List.foldl_append, List.foldl_append, foldl_note_gone]
  simp [List.mem_filter]

@[simp] theorem record_setTask : (w.setTask i t).record key field = w.record key field := rfl
@[simp] theorem db_setTask : (w.setTask i t).db = w.db := rfl
@[simp] theorem log_setTask : (w.setTask i t).log = w.log := rfl
@[simp] theorem db_put : (w.put db wrote).db = db := rfl
@[simp] theorem tasks_put : (w.put db wrote).tasks = w.tasks := rfl

/-- A step that leaves the tables alone. -/
theorem put_self : w.put w.db [] = w := by
  have hnone : w.db.keys.filter (fun k => k ∉ w.db.keys) = [] := by
    simp [List.filter_eq_nil_iff]
  rw [SpawnWorld.put, hnone, List.map_nil, List.append_nil, List.append_nil]

/-- The value of a record is one that the spawn wrote. -/
theorem wrote_of_foldl_note {log : List SpawnEvent} {value : String} :
    log.foldl (SpawnEvent.note key field) none = some (i, value) →
      .wrote i key field value ∈ log := by
  induction log using List.reverseRecOn with
  | nil => intro h; cases h
  | append_singleton log e ih =>
      intro h
      rw [List.foldl_append, List.foldl_cons, List.foldl_nil] at h
      cases e with
      | gone k =>
          change (if k = key then none else log.foldl (SpawnEvent.note key field) none) = _ at h
          split at h
          · cases h
          · exact List.mem_append_left _ (ih h)
      | wrote j k f v =>
          change (if k = key ∧ f = field then some (j, v)
            else log.foldl (SpawnEvent.note key field) none) = _ at h
          split at h
          · rename_i heq
            obtain ⟨rfl, rfl⟩ := heq
            cases h
            simp
          · exact List.mem_append_left _ (ih h)

end Log

/-! ## §4  What holds of every spawn -/

/-- The spawns only move on. -/
def Moved (ts ts' : List SpawnTask) : Prop :=
  ∀ (i : ℕ) (t : SpawnTask), ts[i]? = some t → ∃ t', ts'[i]? = some t' ∧ t'.job = t.job ∧
    ∀ d, t.childDepth = some d → t'.childDepth = some d

/-- The spawn entered the requester's session, one level higher. -/
def HangsAt (ts : List SpawnTask) (requesterKey : String) (depth j : ℕ) : Prop :=
  ∃ t, ts[j]? = some t ∧ t.job.sessionKey = requesterKey ∧ t.childDepth = some depth

/-- What the stages say of the depth. -/
structure SpawnTask.Sound (t : SpawnTask) (ts : List SpawnTask) : Prop where
  asking : t.stage = .asking → t.above = none ∧ t.childDepth = none
  walking : ∀ depth current visited, t.stage = .walking depth current visited →
    t.above = none ∧ t.childDepth = none
  counting : ∀ depth, t.stage = .counting depth → t.childDepth = none ∧
    ∀ j, t.above = some j → HangsAt ts t.job.requesterKey depth j
  creating : ∀ d, t.stage = .creating d → t.childDepth = some d
  writing : ∀ d left, t.stage = .writing d left →
    t.childDepth = some d ∧ ∀ e ∈ left, e ∈ t.job.fields d
  admitted : ∀ d, t.childDepth = some d → ∃ depth, d = depth + 1 ∧
    d ≤ t.job.limits.maxSpawnDepth ∧ ∀ j, t.above = some j →
      HangsAt ts t.job.requesterKey depth j

structure SpawnInv (w : SpawnWorld) : Prop where
  consistent : w.db.Consistent
  recorded : ∀ key, ∀ field ∈ spawnFields,
    (w.db.getSessionMetadata key).lookup field = (w.record key field).map Prod.snd
  written : ∀ i key field value, .wrote i key field value ∈ w.log →
    ∃ t d, w.tasks[i]? = some t ∧ t.job.sessionKey = key ∧ t.childDepth = some d ∧
      (field, value) ∈ t.job.fields d
  sound : ∀ (i : ℕ) (t : SpawnTask), w.tasks[i]? = some t → t.Sound w.tasks

section Steps

variable {w w' : SpawnWorld} {i : ℕ} {t t' : SpawnTask} {env : SpawnEnv}
  {ts ts' : List SpawnTask}

theorem Moved.refl : Moved ts ts := fun _ t ht => ⟨t, ht, rfl, fun _ h => h⟩

theorem HangsAt.moved {requesterKey : String} {depth j : ℕ} (h : HangsAt ts requesterKey depth j)
    (hmoved : Moved ts ts') : HangsAt ts' requesterKey depth j := by
  obtain ⟨t, ht, hkey, hdepth⟩ := h
  obtain ⟨t', ht', hjob, hkeeps⟩ := hmoved j t ht
  exact ⟨t', ht', hjob ▸ hkey, hkeeps depth hdepth⟩

theorem SpawnTask.Sound.moved (h : t.Sound ts) (hmoved : Moved ts ts') : t.Sound ts' where
  asking := h.asking
  walking := h.walking
  counting depth hstage :=
    ⟨(h.counting depth hstage).1, fun j hj => ((h.counting depth hstage).2 j hj).moved hmoved⟩
  creating := h.creating
  writing := h.writing
  admitted d hd := by
    obtain ⟨depth, hsucc, hle, habove⟩ := h.admitted d hd
    exact ⟨depth, hsucc, hle, fun j hj => (habove j hj).moved hmoved⟩

/-- What a step does to the tables: nothing, a call that no spawn field depends on, or the
next field of a spawn. -/
inductive StoreMove (w : SpawnWorld) (i : ℕ) (t : SpawnTask) : Db → List SpawnEvent → Prop where
  | idle : StoreMove w i t w.db []
  | call (now : ℤ) (c : StoreCall) : (∀ f ∈ spawnFields, f ∉ c.writes) →
      StoreMove w i t (c.run now w.db) []
  | field {d : ℕ} {field value : String} {left : List (String × String)} :
      t.stage = .writing d ((field, value) :: left) →
      StoreMove w i t (w.db.setSessionMetadataField t.job.sessionKey field value).2
        (if (w.db.setSessionMetadataField t.job.sessionKey field value).1 = .ok () then
          [.wrote i t.job.sessionKey field value] else [])

/-- A stage that neither waits for a depth nor writes. -/
def SpawnStage.quiet : SpawnStage → Prop
  | .asking | .walking .. | .counting _ | .creating _ | .writing .. => False
  | _ => True

theorem SpawnTask.Sound.rest (h : t.Sound ts) {stage : SpawnStage} (hquiet : stage.quiet) :
    SpawnTask.Sound { t with stage := stage } ts := by
  constructor
  case admitted => exact h.admitted
  all_goals
    intros
    subst_vars
    exact hquiet.elim

/-- A depth that is read where a record stands is the one of the spawn that made the record. -/
theorem SpawnInv.hangsAt (h : SpawnInv w) {requesterKey : String} {explicit j : ℕ}
    (hread : parseSpawnDepthMeta (w.db.getSessionMetadata requesterKey) = some explicit)
    (hrecord : (w.record requesterKey "spawnDepth").map Prod.fst = some j) :
    HangsAt w.tasks requesterKey explicit j := by
  obtain ⟨⟨_, value⟩, hvalue, rfl⟩ := Option.map_eq_some_iff.mp hrecord
  obtain ⟨t, d, ht, hkey, hdepth, hfield⟩ := h.written _ _ _ _ (wrote_of_foldl_note hvalue)
  obtain ⟨-, -, hle, -⟩ := (h.sound _ t ht).admitted d hdepth
  have hlookup := h.recorded requesterKey "spawnDepth" (by decide)
  rw [hvalue, Option.map_some, (spawn_fields _ hfield).2 rfl] at hlookup
  rw [parseSpawnDepthMeta_of_lookup (hle.trans t.job.limits.fits) hlookup] at hread
  cases hread
  exact ⟨t, ht, hkey, hdepth⟩

/-- A spawn that has read a depth. -/
theorem SpawnTask.Sound.counted {t : SpawnTask} {depth : ℕ} (hnone : t.childDepth = none)
    (habove : ∀ j, t.above = some j → HangsAt ts t.job.requesterKey depth j) :
    SpawnTask.Sound { t with stage := .counting depth } ts := by
  constructor
  case counting =>
    intro _ hstage
    cases hstage
    exact ⟨hnone, habove⟩
  case admitted =>
    intro d hd
    rw [hnone] at hd
    cases hd
  all_goals
    intros
    rename_i hstage
    cases hstage

/-- What one step of a spawn does. -/
theorem advance_cases (hinv : SpawnInv w) (ht : w.tasks[i]? = some t)
    (h : w.advance i env t = some w') :
    ∃ t' db wrote, w' = (w.put db wrote).setTask i t' ∧ StoreMove w i t db wrote ∧
      t'.job = t.job ∧ (∀ d, t.childDepth = some d → t'.childDepth = some d) ∧
      t'.Sound w.tasks := by
  have hsound := hinv.sound i t ht
  -- most steps leave the tables alone
  have still {t' : SpawnTask} (heq : w.setTask i t' = w') (hjob : t'.job = t.job)
      (hkeeps : ∀ d, t.childDepth = some d → t'.childDepth = some d) (hs : t'.Sound w.tasks) :
      ∃ t' db wrote, w' = (w.put db wrote).setTask i t' ∧ StoreMove w i t db wrote ∧
        t'.job = t.job ∧ (∀ d, t.childDepth = some d → t'.childDepth = some d) ∧
        t'.Sound w.tasks :=
    ⟨t', w.db, [], by rw [put_self, heq], .idle, hjob, hkeeps, hs⟩
  cases hstage : t.stage with
  | asking =>
      obtain ⟨habove, hnone⟩ := hsound.asking hstage
      simp only [SpawnWorld.advance, hstage] at h
      split at h
      · rename_i explicit hread
        cases h
        exact still rfl rfl (fun _ hd => hd) (.counted
          (t := { t with above := (w.record t.job.requesterKey "spawnDepth").map Prod.fst }) hnone
          fun j hj => hinv.hangsAt hread hj)
      · cases h
        refine still rfl rfl (fun _ hd => hd) ?_
        constructor
        case walking => exact fun _ _ _ _ => ⟨habove, hnone⟩
        case admitted => exact hsound.admitted
        all_goals
          intros
          rename_i hstage
          cases hstage
  | walking depth current visited =>
      obtain ⟨habove, hnone⟩ := hsound.walking _ _ _ hstage
      have counted (depth : ℕ) : SpawnTask.Sound { t with stage := .counting depth } w.tasks :=
        .counted hnone fun j hj => by rw [habove] at hj; cases hj
      simp only [SpawnWorld.advance, hstage] at h
      split at h
      · cases h
        exact still rfl rfl (fun _ hd => hd) (counted _)
      · split at h
        · cases h
          exact still rfl rfl (fun _ hd => hd) (counted _)
        · split at h
          · cases h
            refine still rfl rfl (fun _ hd => hd) ?_
            constructor
            case walking => exact fun _ _ _ _ => ⟨habove, hnone⟩
            case admitted => exact hsound.admitted
            all_goals
              intros
              rename_i hstage
              cases hstage
          · cases h
            exact still rfl rfl (fun _ hd => hd) (counted _)
  | counting callerDepth =>
      obtain ⟨hnone, habove⟩ := hsound.counting _ hstage
      simp only [SpawnWorld.advance, hstage] at h
      split at h
      · cases h
        exact still rfl rfl (fun _ hd => hd) (hsound.rest trivial)
      · rename_i hdeep
        split at h
        · cases h
          exact still rfl rfl (fun _ hd => hd) (hsound.rest trivial)
        · cases h
          have hfits := t.job.limits.fits
          have hsucc : min (callerDepth + 1) u32Max = callerDepth + 1 := by omega
          refine still rfl rfl (fun _ hd => by rw [hnone] at hd; cases hd) ?_
          constructor
          case creating =>
            intro _ hcreating
            cases hcreating
            rfl
          case admitted =>
            intro d hd
            cases hd
            exact ⟨callerDepth, hsucc, by show _ ≤ t.job.limits.maxSpawnDepth; omega, habove⟩
          all_goals
            intros
            rename_i hstage
            cases hstage
  | creating childDepth =>
      have hdepth := hsound.creating _ hstage
      have hmove : StoreMove w i t
          (w.db.createSession t.job.sessionKey t.job.targetAgentId env.now).2 [] :=
        .call env.now (.createSession _ _) (fun _ _ => List.not_mem_nil)
      simp only [SpawnWorld.advance, hstage] at h
      split at h
      · rename_i row db hrun
        rw [hrun] at hmove
        cases h
        refine ⟨_, db, [], rfl, hmove, rfl, fun _ hd => hd, ?_⟩
        constructor
        case writing =>
          intro _ _ hwriting
          cases hwriting
          exact ⟨hdepth, fun _ he => he⟩
        case admitted => exact hsound.admitted
        all_goals
          intros
          rename_i hstage
          cases hstage
      · rename_i error db hrun
        rw [hrun] at hmove
        cases h
        exact ⟨_, db, [], rfl, hmove, rfl, fun _ hd => hd, hsound.rest trivial⟩
  | writing childDepth left =>
      obtain ⟨hdepth, hfields⟩ := hsound.writing _ _ hstage
      cases left with
      | nil =>
          simp only [SpawnWorld.advance, hstage] at h
          cases h
          refine still rfl rfl (fun _ hd => hd) (hsound.rest ?_)
          split <;> trivial
      | cons entry left =>
          obtain ⟨field, value⟩ := entry
          have hmove := StoreMove.field (w := w) (i := i) hstage
          have hnext : SpawnTask.Sound { t with stage := .writing childDepth left } w.tasks := by
            constructor
            case writing =>
              intro _ _ hwriting
              cases hwriting
              exact ⟨hdepth, fun e he => hfields e (List.mem_cons_of_mem _ he)⟩
            case admitted => exact hsound.admitted
            all_goals
              intros
              rename_i hstage
              cases hstage
          simp only [SpawnWorld.advance, hstage] at h
          split at h
          · rename_i u db hrun
            rw [hrun, if_pos rfl] at hmove
            cases h
            exact ⟨_, db, _, rfl, hmove, rfl, fun _ hd => hd, hnext⟩
          · rename_i error db hrun
            rw [hrun, if_neg (by simp)] at hmove
            cases h
            exact ⟨_, db, _, rfl, hmove, rfl, fun _ hd => hd, hnext⟩
  | prompting =>
      have hmove : StoreMove w i t
          (w.db.addMessage t.job.sessionKey "user" t.job.task env.now).2 [] :=
        .call env.now (.addMessage _ _ _) (fun _ _ => List.not_mem_nil)
      simp only [SpawnWorld.advance, hstage] at h
      split at h
      · rename_i u db hrun
        rw [hrun] at hmove
        cases h
        exact ⟨_, db, [], rfl, hmove, rfl, fun _ hd => hd, hsound.rest trivial⟩
      · rename_i error db hrun
        rw [hrun] at hmove
        cases h
        exact ⟨_, db, [], rfl, hmove, rfl, fun _ hd => hd, hsound.rest trivial⟩
  | starting =>
      simp only [SpawnWorld.advance, hstage] at h
      split at h
      · cases h
        exact still rfl rfl (fun _ hd => hd) (hsound.rest trivial)
      · cases h
        exact still rfl rfl (fun _ hd => hd) (hsound.rest trivial)
  | closing runId =>
      simp only [SpawnWorld.advance, hstage] at h
      cases h
      have hspared : ∀ f ∈ spawnFields, f ∉ [trim "subagentRunId"] := by decide
      exact ⟨_, _, [], rfl, .call env.now (.setMetadataField _ "subagentRunId" runId) hspared, rfl,
        fun _ hd => hd, hsound.rest trivial⟩
  | removing error =>
      simp only [SpawnWorld.advance, hstage] at h
      cases h
      exact ⟨_, _, [], rfl, .call env.now (.removeSession _) (fun _ _ => List.not_mem_nil), rfl,
        fun _ hd => hd, hsound.rest trivial⟩
  | ended outcome => simp only [SpawnWorld.advance, hstage] at h; cases h

/-- A call that writes none of the fields leaves them as the log has them. -/
theorem SpawnInv.recorded_call (h : SpawnInv w) (now : ℤ) (c : StoreCall)
    (hspares : ∀ f ∈ spawnFields, f ∉ c.writes) (key : String) :
    ∀ field ∈ spawnFields, ((c.run now w.db).getSessionMetadata key).lookup field =
      ((w.put (c.run now w.db) []).record key field).map Prod.snd := by
  intro field hfield
  rw [lookup_run h.consistent now c (hspares field hfield), record_put, List.foldl_nil,
    h.recorded key field hfield]
  split <;> rfl

theorem SpawnInv.recorded_move (h : SpawnInv w) (ht : w.tasks[i]? = some t) {db : Db}
    {wrote : List SpawnEvent} (hmove : StoreMove w i t db wrote) (key : String) :
    ∀ field ∈ spawnFields, (db.getSessionMetadata key).lookup field =
      ((w.put db wrote).record key field).map Prod.snd := by
  cases hmove with
  | idle =>
      rw [put_self]
      exact h.recorded key
  | call now c hspares => exact h.recorded_call now c hspares key
  | field hstage =>
      rename_i d f value left
      intro field hfield
      obtain ⟨-, hfields⟩ := (h.sound i t ht).writing _ _ hstage
      have htrim : trim f = f := trim_fields (f, value) (hfields _ List.mem_cons_self)
      have hkept : ¬ (key ∈ w.db.keys ∧ key ∉ w.db.keys) := fun hgone => hgone.2 hgone.1
      rw [Db.lookup_setSessionMetadataField, htrim, record_put,
        Db.keys_setSessionMetadataField, if_neg hkept, h.recorded key field hfield]
      by_cases hrun : (w.db.setSessionMetadataField t.job.sessionKey f value).1 = .ok ()
      · rw [if_pos hrun]
        by_cases hrow : key = t.job.sessionKey ∧ field = f
        · obtain ⟨rfl, rfl⟩ := hrow
          simp [hrun, SpawnEvent.note]
        · have hother : ¬ (t.job.sessionKey = key ∧ f = field) := fun ⟨hk, hf⟩ =>
            hrow ⟨hk.symm, hf.symm⟩
          rw [if_neg (fun hcond => hrow hcond.2)]
          simp only [List.foldl_cons, List.foldl_nil, SpawnEvent.note, if_neg hother]
      · rw [if_neg hrun, if_neg (fun hcond => hrun hcond.1)]
        rfl

theorem SpawnInv.consistent_move (h : SpawnInv w) {db : Db} {wrote : List SpawnEvent}
    (hmove : StoreMove w i t db wrote) : db.Consistent := by
  cases hmove with
  | idle => exact h.consistent
  | call now c _ => exact consistent_call h.consistent now c
  | field _ => exact h.consistent.setSessionMetadataField _ _

theorem moved_set (ht : w.tasks[i]? = some t) (hjob : t'.job = t.job)
    (hkeeps : ∀ d, t.childDepth = some d → t'.childDepth = some d) :
    Moved w.tasks (w.tasks.set i t') := by
  intro j u hu
  by_cases hj : i = j
  · subst hj
    rw [ht] at hu
    cases hu
    obtain ⟨hlt, -⟩ := List.getElem?_eq_some_iff.mp ht
    exact ⟨t', by rw [List.getElem?_set_self hlt], hjob, hkeeps⟩
  · exact ⟨u, by rwa [List.getElem?_set_ne hj], rfl, fun _ h => h⟩

/-- What is written by the next field of a spawn. -/
theorem StoreMove.wrote_mem {db : Db} {wrote : List SpawnEvent} {j : ℕ} {key field value : String}
    (hmove : StoreMove w i t db wrote) (hmem : .wrote j key field value ∈ wrote) :
    j = i ∧ key = t.job.sessionKey ∧
      ∃ d left, t.stage = .writing d ((field, value) :: left) := by
  cases hmove with
  | idle => cases hmem
  | call now c _ => cases hmem
  | field hstage =>
      split at hmem
      · cases List.mem_singleton.mp hmem
        exact ⟨rfl, rfl, _, _, hstage⟩
      · cases hmem

theorem mem_log_put {db : Db} {wrote : List SpawnEvent} {j : ℕ} {key field value : String}
    (h : .wrote j key field value ∈ (w.put db wrote).log) :
    .wrote j key field value ∈ w.log ∨ .wrote j key field value ∈ wrote := by
  unfold SpawnWorld.put at h
  simp only [List.mem_append, List.mem_map] at h
  rcases h with (h | h) | ⟨_, _, h⟩
  · exact Or.inl h
  · exact Or.inr h
  · cases h

theorem SpawnInv.advance (hinv : SpawnInv w) (ht : w.tasks[i]? = some t)
    (h : w.advance i env t = some w') : SpawnInv w' := by
  obtain ⟨t', db, wrote, rfl, hmove, hjob, hkeeps, hsound⟩ := advance_cases hinv ht h
  have hmoved : Moved w.tasks (w.tasks.set i t') := moved_set ht hjob hkeeps
  constructor
  case consistent => exact hinv.consistent_move hmove
  case recorded => exact hinv.recorded_move ht hmove
  case written =>
    intro j key field value hmem
    have hold : ∃ u d, w.tasks[j]? = some u ∧ u.job.sessionKey = key ∧ u.childDepth = some d ∧
        (field, value) ∈ u.job.fields d := by
      rcases mem_log_put hmem with hmem | hmem
      · exact hinv.written _ _ _ _ hmem
      · obtain ⟨rfl, rfl, d, left, hstage⟩ := hmove.wrote_mem hmem
        obtain ⟨hdepth, hfields⟩ := (hinv.sound _ t ht).writing _ _ hstage
        exact ⟨t, d, ht, rfl, hdepth, hfields _ List.mem_cons_self⟩
    obtain ⟨u, d, hu, hkey, hdepth, hfield⟩ := hold
    obtain ⟨u', hu', hujob, hukeeps⟩ := hmoved j u hu
    exact ⟨u', d, hu', hujob ▸ hkey, hukeeps d hdepth, hujob ▸ hfield⟩
  case sound =>
    intro j u hu
    have hcases : u = t' ∨ w.tasks[j]? = some u := by
      by_cases hj : i = j
      · subst hj
        obtain ⟨hlt, -⟩ := List.getElem?_eq_some_iff.mp ht
        rw [SpawnWorld.setTask, tasks_put, List.getElem?_set_self hlt] at hu
        exact Or.inl (Option.some.inj hu).symm
      · rw [SpawnWorld.setTask, tasks_put, List.getElem?_set_ne hj] at hu
        exact Or.inr hu
    rcases hcases with rfl | hu
    · exact hsound.moved hmoved
    · exact (hinv.sound j u hu).moved hmoved

theorem SpawnInv.step {a : SpawnAct} (hinv : SpawnInv w) (h : SpawnStep w a w') : SpawnInv w' := by
  cases a with
  | store now call =>
      change (if call.writes.any (fun f => f ∈ spawnFields) then none
        else some (w.put (call.run now w.db) [])) = some w' at h
      split at h
      · cases h
      · rename_i hspares
        cases h
        have hspares : ∀ f ∈ spawnFields, f ∉ call.writes := by
          intro f hf hwrites
          exact hspares (List.any_eq_true.mpr ⟨f, hwrites, by simpa using hf⟩)
        constructor
        case consistent => exact consistent_call hinv.consistent now call
        case recorded => exact hinv.recorded_call now call hspares
        case written =>
          intro j key field value hmem
          rcases mem_log_put hmem with hmem | hmem
          · exact hinv.written _ _ _ _ hmem
          · cases hmem
        case sound => exact hinv.sound
  | spawn job =>
      cases h
      have hmoved : Moved w.tasks (w.tasks ++ [⟨job, .asking, none, none⟩]) := by
        intro j u hu
        obtain ⟨hlt, -⟩ := List.getElem?_eq_some_iff.mp hu
        exact ⟨u, by rwa [List.getElem?_append_left hlt], rfl, fun _ h => h⟩
      constructor
      case consistent => exact hinv.consistent
      case recorded => exact hinv.recorded
      case written =>
        intro j key field value hmem
        obtain ⟨u, d, hu, hkey, hdepth, hfield⟩ := hinv.written _ _ _ _ hmem
        obtain ⟨u', hu', hujob, hukeeps⟩ := hmoved j u hu
        exact ⟨u', d, hu', hujob ▸ hkey, hukeeps d hdepth, hujob ▸ hfield⟩
      case sound =>
        intro j u hu
        rw [List.getElem?_append] at hu
        split at hu
        · exact (hinv.sound j u hu).moved hmoved
        · rw [List.getElem?_singleton] at hu
          split at hu
          · cases hu
            exact ⟨fun _ => ⟨rfl, rfl⟩, by simp, by simp, by simp, by simp, by simp⟩
          · cases hu
  | advance i env =>
      obtain ⟨t, ht, hadvance⟩ := Option.bind_eq_some_iff.mp h
      exact hinv.advance ht hadvance

end Steps

theorem SpawnInv.init : SpawnInv .init := by
  refine ⟨Db.consistent_empty, fun _ _ _ => rfl, ?_, ?_⟩
  · intro i key field value hmem
    cases hmem
  · intro i t ht
    cases ht

theorem spawnInv_of_run {tr : List SpawnAct} {w : SpawnWorld} (run : Runs SpawnStep .init tr w) :
    SpawnInv w :=
  run.state_invariant .init (fun h hstep => h.step hstep)

/-! ## §5  Chains of spawns -/

/-- The spawn is at the end of a chain of so many: each read the depth that the one before
had written for its session. -/
inductive SpawnWorld.Nested (w : SpawnWorld) : ℕ → ℕ → Prop where
  | first {i : ℕ} {t : SpawnTask} : w.tasks[i]? = some t → Nested w i 1
  | under {i j n : ℕ} {t : SpawnTask} : w.tasks[i]? = some t → t.above = some j → Nested w j n →
      Nested w i (n + 1)

/-- The main session spawns one, which spawns another as soon as its depth is written. -/
def nestedSample : List SpawnAct :=
  let job (requesterKey uuid : String) : SpawnJob :=
    ⟨requesterKey, "a", uuid, some requesterKey, "l", "t", "", "run", "keep", false, 300, none,
      ⟨2, 5, by decide⟩⟩
  let env : SpawnEnv := ⟨0, 0, .ok "r"⟩
  .spawn (job "agent:a:main" "1") :: List.replicate 11 (.advance 0 env) ++
    .spawn (job "agent:a:subagent:1" "2") :: List.replicate 2 (.advance 1 env)

theorem nestedSample_run : (SpawnWorld.init.acts nestedSample).isSome = true := by decide

end Oclaw.Gateway.Sessions
