import Mathlib.Data.Nat.Basic
import Oclaw.Lib.Json

/-!
# Migrating a configuration

`MigrationRunner` of `crates/config/src/migration.rs`: the version of a configuration is read
from `meta.configVersion`, the steps from that version on are applied, and the version that
was reached is stamped into `meta`. There is one step, which renames `llm` to `models`.
-/

namespace Oclaw.Config

open Oclaw.Lib

/-! ## §1  The runner -/

/-- `as_object_mut`: what is no object stays as it is. -/
def mapObject (f : List (String × Json) → List (String × Json)) : Json → Json
  | .obj fields => .obj (f fields)
  | j => j

/-- `Value::as_u64` -/
def asU64 : Json → Option ℕ
  | .num (.int z _) => if 0 ≤ z then some z.toNat else none
  | _ => none

/-- `Value::Number(current.into())` -/
def versionNumber (v : UInt32) : Json :=
  .num (.int v.toNat ⟨by omega, by have := v.toNat_lt; omega⟩)

structure ConfigMigration : Type where
  fromVersion : UInt32
  toVersion : UInt32
  migrate : Json → Json
  keeps : ∀ j : Json, j.InMaps → (migrate j).InMaps

structure MigrationRunner : Type where
  migrations : List ConfigMigration

/-- `as u32` cuts the number off. -/
def extractVersion (config : Json) : UInt32 :=
  UInt32.ofNat ((((config.get "meta").bind (·.get "configVersion")).bind asU64).getD 1)

/-- The entries of an object, stamped with a version. -/
def stamp (current : UInt32) (obj : List (String × Json)) : List (String × Json) :=
  let obj := orInsert "meta" (.obj []) obj
  match obj.lookup "meta" with
  | some (.obj metaObj) =>
      insertEntry "meta" (.obj (insertEntry "configVersion" (versionNumber current) metaObj)) obj
  | _ => obj

/-- Rename `llm` to `models` if present. -/
def renameLlm (obj : List (String × Json)) : List (String × Json) :=
  match obj.lookup "llm" with
  | some llm => orInsert "models" llm (removeEntry "llm" obj)
  | none => obj

/-! ### Objects stay maps -/

section Maps

variable {obj : List (String × Json)} {k : String} {v : Json}

theorem inMaps_obj_iff :
    (Json.obj obj).InMaps ↔ KeysSorted obj ∧ ∀ e ∈ obj, e.2.InMaps := by
  rw [Json.InMaps, Json.inMapsFields_iff]

theorem inMaps_of_lookup (h : (Json.obj obj).InMaps) (hv : obj.lookup k = some v) : v.InMaps := by
  obtain ⟨l₁, l₂, rfl, -⟩ := List.lookup_eq_some_iff.mp hv
  exact (inMaps_obj_iff.mp h).2 (k, v) (by simp)

theorem inMaps_insertEntry (h : (Json.obj obj).InMaps) (hv : v.InMaps) :
    (Json.obj (insertEntry k v obj)).InMaps := by
  obtain ⟨hsorted, hall⟩ := inMaps_obj_iff.mp h
  refine inMaps_obj_iff.mpr ⟨hsorted.insertEntry, fun e he => ?_⟩
  rcases mem_insertEntry he with rfl | he
  · exact hv
  · exact hall e he

theorem inMaps_orInsert (h : (Json.obj obj).InMaps) (hv : v.InMaps) :
    (Json.obj (orInsert k v obj)).InMaps := by
  unfold orInsert
  split
  · exact h
  · exact inMaps_insertEntry h hv

theorem inMaps_removeEntry (h : (Json.obj obj).InMaps) :
    (Json.obj (removeEntry k obj)).InMaps := by
  obtain ⟨hsorted, hall⟩ := inMaps_obj_iff.mp h
  exact inMaps_obj_iff.mpr ⟨hsorted.removeEntry, fun e he => hall e (List.mem_of_mem_filter he)⟩

theorem inMaps_renameLlm (h : (Json.obj obj).InMaps) : (Json.obj (renameLlm obj)).InMaps := by
  unfold renameLlm
  split
  · rename_i llm hllm
    exact inMaps_orInsert (inMaps_removeEntry h) (inMaps_of_lookup h hllm)
  · exact h

theorem inMaps_stamp (current : UInt32) (h : (Json.obj obj).InMaps) :
    (Json.obj (stamp current obj)).InMaps := by
  have hmeta : (Json.obj (orInsert "meta" (.obj []) obj)).InMaps :=
    inMaps_orInsert h ⟨List.Pairwise.nil, trivial⟩
  unfold stamp
  simp only
  split
  · rename_i metaObj hlookup
    exact inMaps_insertEntry hmeta (inMaps_insertEntry (inMaps_of_lookup hmeta hlookup) trivial)
  · exact hmeta

theorem inMaps_mapObject {f : List (String × Json) → List (String × Json)}
    (hf : ∀ obj, (Json.obj obj).InMaps → (Json.obj (f obj)).InMaps) (j : Json) (h : j.InMaps) :
    (mapObject f j).InMaps := by
  cases j with
  | obj fields => exact hf fields h
  | null | bool _ | num _ | str _ | arr _ => exact h

end Maps

namespace MigrationRunner

/-- `register_builtins` -/
def new : MigrationRunner :=
  ⟨[⟨1, 2, mapObject renameLlm, inMaps_mapObject fun _ => inMaps_renameLlm⟩]⟩

variable (r : MigrationRunner)

def currentVersion : UInt32 := ((r.migrations.map (·.toVersion)).max?).getD 1

def needsMigration (config : Value) : Bool := extractVersion config.val < r.currentVersion

/-- The loop over the steps, with the version that was reached. -/
def applySteps (config : Json) (current : UInt32) : List ConfigMigration → Json × UInt32
  | [] => (config, current)
  | m :: ms =>
      if m.fromVersion = current then applySteps (m.migrate config) m.toVersion ms
      else applySteps config current ms

theorem inMaps_applySteps (ms : List ConfigMigration) :
    ∀ (config : Json) (current : UInt32), config.InMaps →
      (applySteps config current ms).1.InMaps := by
  induction ms with
  | nil => exact fun config current h => h
  | cons m ms ih =>
      intro config current h
      rw [applySteps]
      split
      · exact ih _ _ (m.keeps config h)
      · exact ih _ _ h

def migrate (config : Value) (start : UInt32) : Except String Value :=
  .ok ⟨mapObject (stamp (applySteps config.val start r.migrations).2)
      (applySteps config.val start r.migrations).1,
    inMaps_mapObject (fun _ => inMaps_stamp _) _
      (inMaps_applySteps r.migrations _ _ config.property)⟩

end MigrationRunner

/-! ## §2  What a migration should do -/

/-- A JSON object. -/
abbrev JsonObject : Type := {fields : List (String × Json) // (Json.obj fields).InMaps}

def JsonObject.value (c : JsonObject) : Value := ⟨.obj c.val, c.property⟩

/-- A value is kept in another one: it is that one or a part of it, or its entries are merged
into it. -/
inductive KeptIn : Json → Json → Prop where
  | same {x : Json} : KeptIn x x
  | merged {fields fields' : List (String × Json)} (h : ∀ e ∈ fields, e ∈ fields') :
      KeptIn (.obj fields) (.obj fields')
  | entry {x : Json} {e : String × Json} {fields : List (String × Json)} (he : e ∈ fields)
      (h : KeptIn x e.2) : KeptIn x (.obj fields)
  | item {x y : Json} {items : List Json} (hy : y ∈ items) (h : KeptIn x y) :
      KeptIn x (.arr items)

/-- **The law of migration**, for a configuration and what it is migrated to. -/
structure Migrated (r : MigrationRunner) (c c' : Value) : Prop where
  complete : r.needsMigration c' = false
  idempotent : r.migrate c' (extractVersion c'.val) = .ok c'
  others : ∀ key, key ∉ ["llm", "models", "meta"] → c'.val.get key = c.val.get key
  kept : ∀ llm, c.val.get "llm" = some llm →
    ∃ models, c'.val.get "models" = some models ∧ KeptIn llm models

/-- A configuration that is migrated as it should be: `meta` is an object if it is there, the
version is not read as 0, and an `llm` is renamed where no `models` is there, or what
`models` has contains it already. -/
structure Sound (c : JsonObject) : Prop where
  metaObject : ∀ m, c.val.lookup "meta" = some m → ∃ metaObj, m = .obj metaObj
  version : extractVersion (.obj c.val) ≠ 0
  llm : ∀ llm, c.val.lookup "llm" = some llm →
    (extractVersion (.obj c.val) = 1 ∧ c.val.lookup "models" = none) ∨
      ∃ models, c.val.lookup "models" = some models ∧ KeptIn llm models

/-! ## §3  Stamping -/

section Stamping

variable {obj metaObj : List (String × Json)} {v : UInt32} {key : String} {m : Json}

/-- The version of an object that has been stamped. -/
theorem extractVersion_of_stamped (hmeta : obj.lookup "meta" = some (.obj metaObj))
    (hversion : metaObj.lookup "configVersion" = some (versionNumber v)) :
    extractVersion (.obj obj) = v := by
  have hget : ((Json.obj obj).get "meta").bind (·.get "configVersion") =
      some (versionNumber v) := by
    rw [Json.get, hmeta]
    exact hversion
  have hnum : asU64 (versionNumber v) = some v.toNat := by simp [versionNumber, asU64]
  rw [extractVersion, hget, Option.bind_some, hnum, Option.getD_some, UInt32.ofNat_toNat]

theorem extractVersion_of_odd (hmeta : obj.lookup "meta" = some m)
    (hodd : ¬ ∃ metaObj, m = .obj metaObj) : extractVersion (.obj obj) = 1 := by
  have hget : ((Json.obj obj).get "meta").bind (·.get "configVersion") = none := by
    rw [Json.get, hmeta]
    cases m with
    | obj fields => exact absurd ⟨fields, rfl⟩ hodd
    | null | bool _ | num _ | str _ | arr _ => rfl
  rw [extractVersion, hget]
  rfl

theorem lookup_stamp (hne : key ≠ "meta") (v : UInt32) (obj : List (String × Json)) :
    (stamp v obj).lookup key = obj.lookup key := by
  have hrest : (orInsert "meta" (.obj []) obj).lookup key = obj.lookup key := by
    rw [lookup_orInsert, if_neg hne]
  unfold stamp
  simp only
  split
  · rw [lookup_insertEntry, if_neg hne, hrest]
  · exact hrest

/-- Where `meta` is an object or is not there, the version is in it. -/
theorem lookup_stamp_meta (hmeta : ∀ m, obj.lookup "meta" = some m → ∃ metaObj, m = .obj metaObj)
    (v : UInt32) : ∃ metaObj, (stamp v obj).lookup "meta" = some (.obj metaObj) ∧
      metaObj.lookup "configVersion" = some (versionNumber v) := by
  obtain ⟨metaObj, hentered⟩ : ∃ metaObj, (orInsert "meta" (.obj []) obj).lookup "meta" =
      some (.obj metaObj) := by
    rw [lookup_orInsert, if_pos rfl]
    cases h : obj.lookup "meta" with
    | none => exact ⟨[], rfl⟩
    | some m =>
        obtain ⟨metaObj, rfl⟩ := hmeta m h
        exact ⟨metaObj, rfl⟩
  unfold stamp
  simp only [hentered]
  exact ⟨_, by rw [lookup_insertEntry, if_pos rfl], by rw [lookup_insertEntry, if_pos rfl]⟩

/-- Where it is something else, nothing is stamped. -/
theorem stamp_of_odd (hmeta : obj.lookup "meta" = some m) (hodd : ¬ ∃ metaObj, m = .obj metaObj)
    (v : UInt32) : stamp v obj = obj := by
  have hentered : orInsert "meta" (.obj []) obj = obj := by
    rw [orInsert, hmeta]
    rfl
  unfold stamp
  simp only [hentered, hmeta]
  split
  · rename_i metaObj heq
    exact absurd ⟨metaObj, Option.some.inj heq⟩ hodd
  · rfl

theorem stamp_of_stamped (h : (Json.obj obj).InMaps)
    (hmeta : obj.lookup "meta" = some (.obj metaObj))
    (hversion : metaObj.lookup "configVersion" = some (versionNumber v)) : stamp v obj = obj := by
  have hentered : orInsert "meta" (.obj []) obj = obj := by
    rw [orInsert, hmeta]
    rfl
  have hinner : insertEntry "configVersion" (versionNumber v) metaObj = metaObj :=
    insertEntry_of_lookup (inMaps_obj_iff.mp (inMaps_of_lookup h hmeta)).1 hversion
  unfold stamp
  simp only [hentered, hmeta, hinner]
  exact insertEntry_of_lookup (inMaps_obj_iff.mp h).1 hmeta

end Stamping

/-! ## §4  The built-in runner -/

section Builtin

variable {c : JsonObject} {obj : List (String × Json)} {v : UInt32} {key : String} {llm : Json}

/-- The version that is reached from a version. -/
def reached (v : UInt32) : UInt32 := if v = 1 then 2 else v

/-- The configuration that is reached. -/
def stepped (v : UInt32) (obj : List (String × Json)) : List (String × Json) :=
  if v = 1 then renameLlm obj else obj

theorem inMaps_stepped (v : UInt32) (h : (Json.obj obj).InMaps) :
    (Json.obj (stepped v obj)).InMaps := by
  unfold stepped
  split
  · exact inMaps_renameLlm h
  · exact h

def JsonObject.migrated (c : JsonObject) (v : UInt32) : JsonObject :=
  ⟨stamp (reached v) (stepped v c.val), inMaps_stamp _ (inMaps_stepped v c.property)⟩

theorem applySteps_new (v : UInt32) (obj : List (String × Json)) :
    MigrationRunner.applySteps (.obj obj) v MigrationRunner.new.migrations =
      (.obj (stepped v obj), reached v) := by
  show (if (1 : UInt32) = v then _ else _) = _
  unfold reached stepped
  by_cases hv : v = 1
  · rw [if_pos hv.symm, if_pos hv, if_pos hv]
    rfl
  · rw [if_neg (Ne.symm hv), if_neg hv, if_neg hv]
    rfl

/-- **Spec of the runner.** -/
theorem new_migrate (c : JsonObject) (v : UInt32) :
    MigrationRunner.new.migrate c.value v = .ok (c.migrated v).value := by
  refine congrArg Except.ok (Subtype.ext ?_)
  show mapObject (stamp (MigrationRunner.applySteps (.obj c.val) v _).2)
    (MigrationRunner.applySteps (.obj c.val) v _).1 = _
  rw [applySteps_new]
  rfl

theorem lookup_renameLlm_other (hllm : key ≠ "llm") (hmodels : key ≠ "models") :
    (renameLlm obj).lookup key = obj.lookup key := by
  unfold renameLlm
  split
  · rw [lookup_orInsert, if_neg hmodels, lookup_removeEntry, if_neg hllm]
  · rfl

theorem lookup_renameLlm_llm : (renameLlm obj).lookup "llm" = none := by
  unfold renameLlm
  split
  · rw [lookup_orInsert, if_neg (by decide), lookup_removeEntry, if_pos rfl]
  · assumption

theorem lookup_renameLlm_models (h : obj.lookup "llm" = some llm) :
    (renameLlm obj).lookup "models" = some ((obj.lookup "models").getD llm) := by
  unfold renameLlm
  rw [h]
  simp only
  rw [lookup_orInsert, if_pos rfl, lookup_removeEntry, if_neg (by decide)]

theorem lookup_stepped_other (hllm : key ≠ "llm") (hmodels : key ≠ "models") (v : UInt32) :
    (stepped v obj).lookup key = obj.lookup key := by
  unfold stepped
  split
  · exact lookup_renameLlm_other hllm hmodels
  · rfl

/-- Other members stay as they are, whatever the configuration. -/
theorem migrated_others (hkey : key ∉ ["llm", "models", "meta"]) :
    (c.migrated v).val.lookup key = c.val.lookup key := by
  simp only [List.mem_cons, List.not_mem_nil, or_false, not_or] at hkey
  show (stamp _ _).lookup key = _
  rw [lookup_stamp hkey.2.2, lookup_stepped_other hkey.1 hkey.2.1]

theorem stepped_meta (hmeta : ∀ m, obj.lookup "meta" = some m → ∃ metaObj, m = .obj metaObj) :
    ∀ m, (stepped v obj).lookup "meta" = some m → ∃ metaObj, m = .obj metaObj := by
  rw [lookup_stepped_other (by decide) (by decide)]
  exact hmeta

/-- The version that a migrated configuration is read at. -/
theorem extractVersion_migrated
    (hmeta : ∀ m, c.val.lookup "meta" = some m → ∃ metaObj, m = .obj metaObj) :
    extractVersion (.obj (c.migrated v).val) = reached v := by
  obtain ⟨metaObj, hstamped, hversion⟩ := lookup_stamp_meta (stepped_meta hmeta) (reached v)
  exact extractVersion_of_stamped hstamped hversion

theorem reached_reached (v : UInt32) : reached (reached v) = reached v := by
  unfold reached
  split <;> simp_all

theorem stepped_reached (v : UInt32) (obj : List (String × Json)) :
    stepped (reached v) obj = obj := by
  have hne : reached v ≠ 1 := by
    unfold reached
    split
    · decide
    · assumption
  rw [stepped, if_neg hne]

theorem renameLlm_renameLlm (obj : List (String × Json)) :
    renameLlm (renameLlm obj) = renameLlm obj := by
  conv_lhs => rw [renameLlm, lookup_renameLlm_llm]

/-- Where `meta` cannot be stamped, the version is 1 before and after. -/
theorem extractVersion_migrated_odd {m : Json} (hm : c.val.lookup "meta" = some m)
    (hodd : ¬ ∃ metaObj, m = .obj metaObj) :
    extractVersion (.obj (c.migrated v).val) = 1 := by
  refine extractVersion_of_odd ?_ hodd
  show (stamp _ (stepped v c.val)).lookup "meta" = some m
  have hstepped : (stepped v c.val).lookup "meta" = some m := by
    rw [lookup_stepped_other (by decide) (by decide), hm]
  rw [stamp_of_odd hstepped hodd, hstepped]

/-- Migrating again changes nothing, whatever the configuration. -/
theorem migrated_idempotent (hv : v = extractVersion (.obj c.val)) :
    (c.migrated v).migrated (extractVersion (.obj (c.migrated v).val)) = c.migrated v := by
  apply Subtype.ext
  by_cases hmeta : ∀ m, c.val.lookup "meta" = some m → ∃ metaObj, m = .obj metaObj
  · rw [extractVersion_migrated hmeta]
    show stamp (reached (reached v)) (stepped (reached v) (stamp (reached v) (stepped v c.val))) = _
    rw [reached_reached, stepped_reached]
    obtain ⟨metaObj, hstamped, hversion⟩ :=
      lookup_stamp_meta (stepped_meta hmeta) (reached v)
    exact stamp_of_stamped (c.migrated v).property hstamped hversion
  · push Not at hmeta
    obtain ⟨m, hm, hodd⟩ := hmeta
    have hodd' : ¬ ∃ metaObj, m = .obj metaObj := fun ⟨o, ho⟩ => hodd o ho
    have hone : v = 1 := hv.trans (extractVersion_of_odd hm hodd')
    have hrenamed : (renameLlm c.val).lookup "meta" = some m := by
      rw [lookup_renameLlm_other (by decide) (by decide), hm]
    have hfirst : (c.migrated v).val = renameLlm c.val := by
      show stamp _ (stepped v c.val) = _
      rw [stepped, if_pos hone, stamp_of_odd hrenamed hodd']
    show stamp _ (stepped _ (c.migrated v).val) = _
    rw [extractVersion_migrated_odd hm hodd', stepped, if_pos rfl, hfirst,
      renameLlm_renameLlm, stamp_of_odd hrenamed hodd']

theorem reached_lt_iff : reached v < 2 ↔ v = 0 := by
  have hone : (1 : UInt32).toNat = 1 := rfl
  rw [UInt32.lt_iff_toNat_lt, ← UInt32.toNat_inj]
  unfold reached
  split
  · rename_i hv
    rw [hv]
    decide
  · rename_i hv
    rw [← UInt32.toNat_inj, hone] at hv
    show v.toNat < 2 ↔ v.toNat = 0
    omega

/-- No further migration is needed just where `meta` can be stamped and the version is not 0. -/
theorem migrated_complete_iff :
    MigrationRunner.new.needsMigration (c.migrated v).value = false ↔
      (∀ m, c.val.lookup "meta" = some m → ∃ metaObj, m = .obj metaObj) ∧ v ≠ 0 := by
  have hneeds : MigrationRunner.new.needsMigration (c.migrated v).value =
      decide (extractVersion (.obj (c.migrated v).val) < 2) := rfl
  rw [hneeds, decide_eq_false_iff_not]
  by_cases hmeta : ∀ m, c.val.lookup "meta" = some m → ∃ metaObj, m = .obj metaObj
  · rw [extractVersion_migrated hmeta, reached_lt_iff]
    exact (and_iff_right hmeta).symm
  · refine iff_of_false ?_ (fun h => hmeta h.1)
    push Not at hmeta
    obtain ⟨m, hm, hodd⟩ := hmeta
    rw [extractVersion_migrated_odd hm (fun ⟨o, ho⟩ => hodd o ho)]
    decide

theorem migrated_kept_iff (v : UInt32) (llm : Json) (h : c.val.lookup "llm" = some llm) :
    (∃ models, (c.migrated v).val.lookup "models" = some models ∧ KeptIn llm models) ↔
      (v = 1 ∧ c.val.lookup "models" = none) ∨
        ∃ models, c.val.lookup "models" = some models ∧ KeptIn llm models := by
  have hstamp : (c.migrated v).val.lookup "models" = (stepped v c.val).lookup "models" :=
    lookup_stamp (by decide) _ _
  rw [hstamp, stepped]
  split
  · rename_i hv
    rw [lookup_renameLlm_models h]
    cases hmodels : c.val.lookup "models" with
    | none => simp [hv, KeptIn.same]
    | some models => simp
  · rename_i hv
    simp [hv]

end Builtin

/-- **Migration is complete, idempotent and lossless** exactly for sound configurations. -/
theorem migration_law_iff (c : JsonObject) :
    (∃ c', MigrationRunner.new.migrate c.value (extractVersion c.value.val) = .ok c' ∧
      Migrated MigrationRunner.new c.value c') ↔ Sound c := by
  have hmigrate := new_migrate c (extractVersion (.obj c.val))
  constructor
  · rintro ⟨c', hc', h⟩
    obtain rfl := Except.ok.inj (hmigrate.symm.trans hc')
    obtain ⟨hmeta, hversion⟩ := migrated_complete_iff.mp h.complete
    exact ⟨hmeta, hversion, fun llm hllm => (migrated_kept_iff _ llm hllm).mp (h.kept llm hllm)⟩
  · intro h
    refine ⟨_, hmigrate, migrated_complete_iff.mpr ⟨h.metaObject, h.version⟩, ?_,
      fun key hkey => migrated_others hkey,
      fun llm hllm => (migrated_kept_iff _ llm hllm).mpr (h.llm llm hllm)⟩
    refine (new_migrate _ _).trans (congrArg (fun c => Except.ok (JsonObject.value c)) ?_)
    exact migrated_idempotent rfl

/-- An old key beside the new one, and a `meta` that is a text. -/
def bothKeys : JsonObject :=
  ⟨[("llm", .obj [("provider", .str "openai")]), ("models", .obj [])],
    inMaps_obj_iff.mpr ⟨by unfold KeysSorted; decide,
      by simp [Json.InMaps, Json.InMapsFields, KeysSorted]⟩⟩

def metaText : JsonObject :=
  ⟨[("meta", .str "v1")], inMaps_obj_iff.mpr ⟨by unfold KeysSorted; decide, by simp [Json.InMaps]⟩⟩

theorem old_key_is_discarded :
    ¬ (∃ c', MigrationRunner.new.migrate bothKeys.value (extractVersion bothKeys.value.val) =
        .ok c' ∧ Migrated MigrationRunner.new bothKeys.value c') ∧
    ¬ ∃ c', MigrationRunner.new.migrate metaText.value (extractVersion metaText.value.val) =
        .ok c' ∧ Migrated MigrationRunner.new metaText.value c' := by
  constructor
  · rintro ⟨c', hc', h⟩
    obtain rfl := Except.ok.inj ((new_migrate bothKeys _).symm.trans hc')
    rcases (migrated_kept_iff _ _ rfl).mp (h.kept _ rfl) with ⟨-, hnone⟩ | ⟨models, hmodels, hkept⟩
    · cases hnone
    · cases hmodels
      cases hkept with
      | merged hall => simp at hall
      | entry he _ => cases he
  · rintro ⟨c', hc', h⟩
    obtain rfl := Except.ok.inj ((new_migrate metaText _).symm.trans hc')
    obtain ⟨metaObj, hobj⟩ := (migrated_complete_iff.mp h.complete).1 _ rfl
    cases hobj

end Oclaw.Config
