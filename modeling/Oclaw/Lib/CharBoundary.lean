import Oclaw.Lib.Text
import Oclaw.Lib.Utf8

/-!
# Character boundaries

A slice of a text is given by byte positions, and one that is inside a character or past
the end is a panic. A position is a boundary exactly when a start of the text has that many
bytes, and of the starts that are not too long `floorStart` is the longest.
-/

namespace Oclaw.Lib

variable {s p q : List Char} {i n : ℕ} {c : Char}

/-! ## Lengths -/

@[simp] theorem byteLen_nil : byteLen [] = 0 := rfl

@[simp] theorem byteLen_cons : byteLen (c :: s) = c.utf8Size + byteLen s := rfl

@[simp] theorem byteLen_append : byteLen (p ++ q) = byteLen p + byteLen q := by
  induction p with
  | nil => simp
  | cons c p ih => rw [List.cons_append, byteLen_cons, byteLen_cons, ih, Nat.add_assoc]

theorem byteLen_pos_iff : 0 < byteLen s ↔ s ≠ [] := by
  cases s with
  | nil => simp
  | cons c s =>
      have := c.utf8Size_pos
      rw [byteLen_cons]
      exact iff_of_true (by omega) (List.cons_ne_nil c s)

theorem byteLen_le_of_isPrefix (h : p <+: s) : byteLen p ≤ byteLen s := by
  obtain ⟨q, rfl⟩ := h
  rw [byteLen_append]
  exact Nat.le_add_right _ _

theorem byteLen_replicate (n : ℕ) (c : Char) :
    byteLen (List.replicate n c) = n * c.utf8Size := by
  induction n with
  | zero => rw [Nat.zero_mul]; rfl
  | succ n ih => rw [List.replicate_succ, byteLen_cons, ih, Nat.succ_mul, Nat.add_comm]

theorem length_utf8 (s : List Char) : (utf8 s).length = byteLen s := by
  induction s with
  | nil => rfl
  | cons c s ih =>
      rw [byteLen_cons, ← ih, ← String.length_utf8EncodeChar, ← List.length_append]
      rfl

/-- Decimal digits take a byte each. -/
theorem byteLen_toString (n : ℕ) : byteLen (toString n).toList = (Nat.toDigits 10 n).length := by
  have hascii : ∀ cs : List Char, (∀ c ∈ cs, c.isDigit = true) → byteLen cs = cs.length := by
    intro cs hcs
    induction cs with
    | nil => rfl
    | cons c cs ih =>
        have hdigit := hcs c List.mem_cons_self
        have hone : c.utf8Size = 1 := by
          rw [Char.utf8Size_eq_one_iff]
          have hle : 48 ≤ c.val ∧ c.val ≤ 57 := by simpa [Char.isDigit] using hdigit
          exact UInt32.le_trans hle.2 (by decide)
        rw [byteLen_cons, ih (fun c' hc' => hcs c' (List.mem_cons_of_mem _ hc')), hone,
          List.length_cons, Nat.add_comm]
  rw [show (toString n).toList = Nat.toDigits 10 n from Nat.toList_repr]
  exact hascii _ (fun c hc => Nat.isDigit_of_mem_toDigits (by decide) (by decide) hc)

/-! ## Slices -/

/-- `str::is_char_boundary` -/
def isCharBoundary (s : List Char) (i : ℕ) : Bool :=
  i == 0 || match (utf8 s)[i]? with
    | some b => !isTail b
    | none => i == (utf8 s).length

/-- The two sides of a byte position, unless it is inside a character or past the end. -/
def cutAt : List Char → ℕ → Option (List Char × List Char)
  | [], i => if i = 0 then some ([], []) else none
  | c :: s, i =>
      if i = 0 then some ([], c :: s)
      else if c.utf8Size ≤ i then
        (cutAt s (i - c.utf8Size)).map (fun sides => (c :: sides.1, sides.2))
      else none

/-- `&s[..i]` -/
def strTo (s : List Char) (i : ℕ) : Option (List Char) := (cutAt s i).map Prod.fst

/-- `&s[i..]` -/
def strFrom (s : List Char) (i : ℕ) : Option (List Char) := (cutAt s i).map Prod.snd

theorem cutAt_append (p q : List Char) : cutAt (p ++ q) (byteLen p) = some (p, q) := by
  induction p with
  | nil => cases q <;> rfl
  | cons c p ih =>
      have hpos := c.utf8Size_pos
      rw [List.cons_append, byteLen_cons, cutAt, if_neg (by omega), if_pos (Nat.le_add_right _ _),
        Nat.add_sub_cancel_left, ih]
      rfl

theorem cutAt_eq_some_iff : cutAt s i = some (p, q) ↔ s = p ++ q ∧ byteLen p = i := by
  constructor
  · intro h
    induction s generalizing i p with
    | nil =>
        rw [cutAt] at h
        split at h
        · obtain ⟨rfl, rfl⟩ := Prod.mk.inj (Option.some.inj h)
          exact ⟨rfl, by simp_all⟩
        · cases h
    | cons c s ih =>
        rw [cutAt] at h
        split at h
        · rename_i hi
          obtain ⟨rfl, rfl⟩ := Prod.mk.inj (Option.some.inj h)
          exact ⟨rfl, hi.symm⟩
        · split at h
          · obtain ⟨⟨p', q'⟩, hcut, hsides⟩ := Option.map_eq_some_iff.mp h
            obtain ⟨rfl, rfl⟩ := Prod.mk.inj hsides
            obtain ⟨rfl, hlen⟩ := ih hcut
            refine ⟨rfl, ?_⟩
            rw [byteLen_cons, hlen]
            omega
          · cases h
  · rintro ⟨rfl, rfl⟩
    exact cutAt_append p q

theorem strTo_append (p q : List Char) : strTo (p ++ q) (byteLen p) = some p := by
  rw [strTo, cutAt_append]
  rfl

theorem strFrom_append (p q : List Char) : strFrom (p ++ q) (byteLen p) = some q := by
  rw [strFrom, cutAt_append]
  rfl

/-- The boundaries are the positions at which a text can be cut. -/
theorem isCharBoundary_iff : isCharBoundary s i = true ↔ ∃ p q, cutAt s i = some (p, q) := by
  constructor
  · intro h
    rcases Nat.eq_zero_or_pos i with rfl | hpos
    · exact ⟨[], s, cutAt_append [] s⟩
    · have hcut : ((utf8 s).take i ++ (utf8 s).drop i) = utf8 s := List.take_append_drop _ _
      obtain ⟨hle, hb⟩ : i ≤ (utf8 s).length ∧ startsInside ((utf8 s).drop i) = false := by
        simp only [isCharBoundary, Bool.or_eq_true, beq_iff_eq, Nat.ne_of_gt hpos, false_or] at h
        cases hget : (utf8 s)[i]? with
        | none =>
            rw [hget] at h
            have hi : i = (utf8 s).length := by simpa using h
            rw [List.drop_eq_nil_of_le (Nat.le_of_eq hi.symm)]
            exact ⟨Nat.le_of_eq hi, rfl⟩
        | some b =>
            rw [hget] at h
            obtain ⟨hlt, hb⟩ := List.getElem?_eq_some_iff.mp hget
            rw [List.drop_eq_getElem_cons hlt, hb]
            exact ⟨Nat.le_of_lt hlt, by simpa [startsInside] using h⟩
      obtain ⟨p, q, rfl, hp, -⟩ := utf8_cut hcut hb
      refine ⟨p, q, cutAt_eq_some_iff.mpr ⟨rfl, ?_⟩⟩
      rw [← length_utf8, ← hp, List.length_take, Nat.min_eq_left hle]
  · rintro ⟨p, q, hcut⟩
    obtain ⟨rfl, rfl⟩ := cutAt_eq_some_iff.mp hcut
    have hsplit : utf8 (p ++ q) = utf8 p ++ utf8 q := List.flatMap_append ..
    rw [isCharBoundary, hsplit, ← length_utf8, List.getElem?_append_right (Nat.le_refl _),
      Nat.sub_self]
    cases q with
    | nil => simp [utf8]
    | cons c q =>
        obtain ⟨b, bs, henc, hb, -⟩ := utf8EncodeChar_eq c
        simp [utf8, henc, hb]

/-! ## The longest start -/

theorem floorStart_isPrefix (n : ℕ) (s : List Char) : floorStart n s <+: s := by
  induction s generalizing n with
  | nil => exact List.nil_prefix
  | cons c s ih =>
      rw [floorStart]
      split
      · exact List.cons_prefix_cons.mpr ⟨rfl, ih _⟩
      · exact List.nil_prefix

theorem floorStart_append_drop (n : ℕ) (s : List Char) :
    floorStart n s ++ s.drop (floorStart n s).length = s :=
  List.prefix_iff_eq_append.mp (floorStart_isPrefix n s)

theorem byteLen_floorStart_le (n : ℕ) (s : List Char) : byteLen (floorStart n s) ≤ n := by
  induction s generalizing n with
  | nil => exact Nat.zero_le _
  | cons c s ih =>
      rw [floorStart]
      split
      · have := ih (n - c.utf8Size)
        rw [byteLen_cons]
        omega
      · exact Nat.zero_le _

theorem isPrefix_floorStart (h : p <+: s) (hle : byteLen p ≤ n) : p <+: floorStart n s := by
  induction s generalizing n p with
  | nil => exact h
  | cons c s ih =>
      cases p with
      | nil => exact List.nil_prefix
      | cons c' p =>
          obtain ⟨rfl, hp⟩ := List.cons_prefix_cons.mp h
          rw [byteLen_cons] at hle
          rw [floorStart, if_pos (by omega)]
          exact List.cons_prefix_cons.mpr ⟨rfl, ih hp (by omega)⟩

theorem floorStart_of_le (h : byteLen s ≤ n) : floorStart n s = s :=
  (floorStart_isPrefix n s).eq_of_length_le (isPrefix_floorStart (List.prefix_refl s) h).length_le

/-- A character has at most four bytes, so at most three are lost. -/
theorem le_byteLen_floorStart (h : n ≤ byteLen s) : n ≤ byteLen (floorStart n s) + 3 := by
  induction s generalizing n with
  | nil => exact Nat.le_trans h (Nat.zero_le _)
  | cons c s ih =>
      have hsize := c.utf8Size_le_four
      rw [byteLen_cons] at h
      rw [floorStart]
      split
      · have := ih (n := n - c.utf8Size) (by omega)
        rw [byteLen_cons]
        omega
      · rw [byteLen_nil]
        omega

/-- What is before the last separator is followed by it. -/
theorem beforeLast_isPrefix {sep : Char} (h : beforeLast sep s = some p) : p ++ [sep] <+: s := by
  induction s generalizing p with
  | nil => cases h
  | cons c s ih =>
      rw [beforeLast] at h
      cases hrest : beforeLast sep s with
      | some start =>
          rw [hrest] at h
          obtain rfl := Option.some.inj h
          exact List.cons_prefix_cons.mpr ⟨rfl, ih hrest⟩
      | none =>
          simp only [hrest] at h
          split at h
          · rename_i hc
            obtain rfl := Option.some.inj h
            exact List.cons_prefix_cons.mpr ⟨hc.symm, List.nil_prefix⟩
          · cases h

end Oclaw.Lib
