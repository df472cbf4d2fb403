import Mathlib.Data.List.DropRight
import Mathlib.Logic.Equiv.List
import Oclaw.Lib.Text

/-!
# Files of records, one a line

A record is written on a line of its own and read back from it. A file to which records
are appended, and which keeps its last lines only, holds the newest records.
-/

namespace Oclaw.Lib

variable {α : Type*}

/-- How records are written on a line and read from one. -/
structure LineCodec (α : Type*) where
  toText : α → List Char
  ofText : List Char → Option α

/-- Records are written without line breaks and are read back as they were. -/
structure LineCodec.Lawful (codec : LineCodec α) : Prop where
  roundTrip : ∀ a, codec.ofText (codec.toText a) = some a
  oneLine : ∀ a, '\n' ∉ codec.toText a ∧ '\r' ∉ codec.toText a

namespace LineCodec

variable {codec : LineCodec α}

/-- The file of some records. -/
def file (codec : LineCodec α) (as : List α) : List Char :=
  as.flatMap (fun a => codec.toText a ++ ['\n'])

theorem file_append (as as' : List α) : codec.file (as ++ as') = codec.file as ++ codec.file as' :=
  List.flatMap_append

theorem lines_file (h : codec.Lawful) (as : List α) :
    lines (codec.file as) = as.map codec.toText := by
  have hfile : codec.file as = (as.map codec.toText).flatMap (· ++ ['\n']) := by
    rw [file, List.flatMap_map]
  rw [hfile]
  apply lines_written
  · intro l hl
    obtain ⟨a, -, rfl⟩ := List.mem_map.mp hl
    exact (h.oneLine a).1
  · intro l hl
    obtain ⟨a, -, rfl⟩ := List.mem_map.mp hl
    exact (h.oneLine a).2

/-- Lines joined by line feeds, with one more at the end. -/
theorem joined_eq_file {as : List α} (h : as ≠ []) :
    ['\n'].intercalate (as.map codec.toText) ++ ['\n'] = codec.file as := by
  induction as with
  | nil => exact absurd rfl h
  | cons a as ih =>
      cases as with
      | nil => simp [file]
      | cons b as =>
          have htail := ih (List.cons_ne_nil b as)
          rw [List.map_cons, List.map_cons, List.intercalate_cons_cons, ← List.map_cons,
            List.append_assoc, htail]
          simp [file]

theorem filterMap_ofText (h : codec.Lawful) (as : List α) :
    (as.map codec.toText).filterMap codec.ofText = as := by
  have hread : codec.ofText ∘ codec.toText = some := funext h.roundTrip
  rw [List.filterMap_map, hread, List.filterMap_some]

end LineCodec

/-! ## The last records -/

theorem reverse_rtake (n : ℕ) (as : List α) : (as.rtake n).reverse = as.reverse.take n := by
  rw [List.rtake_eq_reverse_take_reverse, List.reverse_reverse]

/-- What was dropped before is dropped after. -/
theorem rtake_append_rtake (n : ℕ) (as : List α) (a : α) :
    (as.rtake n ++ [a]).rtake n = (as ++ [a]).rtake n := by
  cases n with
  | zero => rw [List.rtake_zero, List.rtake_zero]
  | succ n =>
      rw [List.rtake_concat_succ, List.rtake_concat_succ]
      simp [List.rtake_eq_reverse_take_reverse, List.take_take]

theorem rtake_of_length_le {n : ℕ} {as : List α} (h : as.length ≤ n) : as.rtake n = as := by
  rw [List.rtake, Nat.sub_eq_zero_of_le h, List.drop_zero]

theorem rtake_ne_nil {n : ℕ} {as : List α} (h : n < as.length) (hn : 0 < n) :
    as.rtake n ≠ [] := by
  intro hnil
  have hlen : (as.rtake n).length = n := by
    rw [List.rtake, List.length_drop]
    omega
  rw [hnil, List.length_nil] at hlen
  omega

/-! ## A codec for known records

It writes the records of a list in a given way, and any other record as a line of its own
kind that is read back, too. -/

/-- Texts as lists of character codes. -/
abbrev encodableString : Encodable String :=
  letI : Encodable ℕ := Nat.encodable
  letI : Encodable (List ℕ) := List.encodable
  .ofLeftInverse (fun s => s.toList.map Char.toNat) (fun l => String.ofList (l.map Char.ofNat))
    (fun s => by simp [Function.comp_def, Char.ofNat_toNat])

namespace LineCodec

variable [DecidableEq α] [Encodable α] {text : α → List Char} {known : List α}

def ofKnown (text : α → List Char) (known : List α) : LineCodec α where
  toText a := if a ∈ known then text a else '#' :: List.replicate (Encodable.encode a) 'x'
  ofText l :=
    match known.find? (fun a => decide (text a = l)) with
    | some a => some a
    | none => Encodable.decode (l.length - 1)

theorem ofKnown_lawful (hhead : ∀ a ∈ known, (text a).head? ≠ some '#')
    (hread : ∀ a ∈ known, known.find? (fun b => decide (text b = text a)) = some a)
    (hline : ∀ a ∈ known, '\n' ∉ text a ∧ '\r' ∉ text a) : (ofKnown text known).Lawful := by
  constructor
  · intro a
    by_cases ha : a ∈ known
    · simp only [ofKnown, ha, if_true, hread a ha]
    · have hnone : known.find? (fun b => decide (text b =
          '#' :: List.replicate (Encodable.encode a) 'x')) = none := by
        rw [List.find?_eq_none]
        intro b hb heq
        apply hhead b hb
        rw [of_decide_eq_true heq]
        rfl
      simp only [ofKnown, ha, if_false, hnone, List.length_cons, List.length_replicate,
        Nat.add_sub_cancel, Encodable.encodek]
  · intro a
    by_cases ha : a ∈ known
    · simpa only [ofKnown, ha, if_true] using hline a ha
    · simp [ofKnown, ha]

end LineCodec

end Oclaw.Lib
