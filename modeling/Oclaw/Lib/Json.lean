import Mathlib.Data.String.Basic
import Oclaw.Lib.Keyed

/-!
# JSON values

The tree that `serde_json` reads from a text and writes to one. The entries of an
object stand in the order of the text. A `Value` keeps its objects in maps, which
makes it a tree whose objects are sorted by their keys; `Json.toValue` enters the
entries of a text into such maps.
-/

namespace Oclaw.Lib

/-- `serde_json::Number` without `arbitrary_precision`: a `u64` or `i64`, or else the
bits of a finite `f64`. -/
inductive Number : Type where
  | int (z : Int) (range : -0x8000000000000000 ≤ z ∧ z < 0x10000000000000000)
  | float (bits : UInt64) (finite : bits.toNat / 0x10000000000000 % 0x800 ≠ 0x7FF)

inductive Json : Type where
  | null
  | bool (b : Bool)
  | num (n : Number)
  | str (s : String)
  | arr (xs : List Json)
  | obj (fields : List (String × Json))

namespace Json

/-- `Value::get` with a string -/
def get (name : String) : Json → Option Json
  | obj fields => fields.lookup name
  | _ => none

/-- `Value::as_str` -/
def asStr : Json → Option String
  | str s => some s
  | _ => none

/-! ## Measures -/

mutual

/-- How deep arrays and objects are nested. -/
def depth : Json → ℕ
  | arr xs => depthItems xs + 1
  | obj fields => depthFields fields + 1
  | _ => 0

def depthItems : List Json → ℕ
  | [] => 0
  | x :: xs => max x.depth (depthItems xs)

def depthFields : List (String × Json) → ℕ
  | [] => 0
  | (_, v) :: fields => max v.depth (depthFields fields)

end

mutual

/-- The floats of a tree, as their bits. -/
def floats : Json → List UInt64
  | num (.float bits _) => [bits]
  | arr xs => floatsItems xs
  | obj fields => floatsFields fields
  | _ => []

def floatsItems : List Json → List UInt64
  | [] => []
  | x :: xs => x.floats ++ floatsItems xs

def floatsFields : List (String × Json) → List UInt64
  | [] => []
  | (_, v) :: fields => v.floats ++ floatsFields fields

end

/-! ## Objects as maps -/

mutual

/-- Enter the entries of all objects into maps. -/
def toMaps : Json → Json
  | arr xs => arr (toMapsItems xs)
  | obj fields => obj (ofEntries (toMapsFields fields))
  | j => j

def toMapsItems : List Json → List Json
  | [] => []
  | x :: xs => x.toMaps :: toMapsItems xs

def toMapsFields : List (String × Json) → List (String × Json)
  | [] => []
  | (name, v) :: fields => (name, v.toMaps) :: toMapsFields fields

end

mutual

/-- All objects are maps. -/
def InMaps : Json → Prop
  | arr xs => InMapsItems xs
  | obj fields => KeysSorted fields ∧ InMapsFields fields
  | _ => True

def InMapsItems : List Json → Prop
  | [] => True
  | x :: xs => x.InMaps ∧ InMapsItems xs

def InMapsFields : List (String × Json) → Prop
  | [] => True
  | (_, v) :: fields => v.InMaps ∧ InMapsFields fields

end

theorem inMapsFields_iff {fields : List (String × Json)} :
    InMapsFields fields ↔ ∀ e ∈ fields, e.2.InMaps := by
  induction fields with
  | nil => simp [InMapsFields]
  | cons e fields ih => simp [InMapsFields, ih]

mutual

theorem inMaps_toMaps : ∀ j : Json, j.toMaps.InMaps
  | null | bool _ | num _ | str _ => trivial
  | arr xs => inMapsItems_toMaps xs
  | obj fields => by
      refine ⟨keysSorted_ofEntries _, inMapsFields_iff.mpr ?_⟩
      intro e he
      exact inMapsFields_iff.mp (inMapsFields_toMaps fields) e (mem_ofEntries he)

theorem inMapsItems_toMaps : ∀ xs : List Json, InMapsItems (toMapsItems xs)
  | [] => trivial
  | x :: xs => ⟨inMaps_toMaps x, inMapsItems_toMaps xs⟩

theorem inMapsFields_toMaps : ∀ fields : List (String × Json), InMapsFields (toMapsFields fields)
  | [] => trivial
  | (_, v) :: fields => ⟨inMaps_toMaps v, inMapsFields_toMaps fields⟩

end

mutual

theorem toMaps_of_inMaps : ∀ j : Json, j.InMaps → j.toMaps = j
  | null, _ | bool _, _ | num _, _ | str _, _ => rfl
  | arr xs, h => by
      rw [toMaps, toMapsItems_of_inMaps xs h]
  | obj fields, h => by
      rw [toMaps, toMapsFields_of_inMaps fields h.2, ofEntries_eq (List.Perm.refl _) h.1]

theorem toMapsItems_of_inMaps : ∀ xs : List Json, InMapsItems xs → toMapsItems xs = xs
  | [], _ => rfl
  | x :: xs, h => by
      rw [toMapsItems, toMaps_of_inMaps x h.1, toMapsItems_of_inMaps xs h.2]

theorem toMapsFields_of_inMaps : ∀ fields : List (String × Json), InMapsFields fields →
    toMapsFields fields = fields
  | [], _ => rfl
  | (_, v) :: fields, h => by
      rw [toMapsFields, toMaps_of_inMaps v h.1, toMapsFields_of_inMaps fields h.2]

end

end Json

/-- `serde_json::Value` -/
abbrev Value := {j : Json // j.InMaps}

/-- What `Value::deserialize` makes of a tree. -/
def Json.toValue (j : Json) : Value := ⟨j.toMaps, j.inMaps_toMaps⟩

@[simp] theorem Json.toValue_val (v : Value) : v.val.toValue = v :=
  Subtype.ext (Json.toMaps_of_inMaps v.val v.property)

end Oclaw.Lib
