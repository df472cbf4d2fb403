import Oclaw.Lib.Search

/-!
# ASCII letter case

Lower-casing the ASCII letters of a text keeps the bytes of each character, its whitespace
and so every position. That is what lower-casing all of its letters does not.
-/

namespace Oclaw.Lib

variable {s p q pat : List Char} {i : ℕ} {c : Char}

/-- `str::to_ascii_lowercase` -/
def asciiLowercase (s : List Char) : List Char := s.map Char.toLower

@[simp] theorem asciiLowercase_append :
    asciiLowercase (p ++ q) = asciiLowercase p ++ asciiLowercase q :=
  List.map_append

@[simp] theorem length_asciiLowercase : (asciiLowercase s).length = s.length :=
  List.length_map _

/-- Only capital letters are changed, and they become small ones. -/
theorem toLower_cases (c : Char) :
    c.toLower = c ∨ 65 ≤ c.toNat ∧ c.toNat ≤ 90 ∧ c.toLower.toNat = c.toNat + 32 := by
  unfold Char.toLower
  split
  · rename_i h
    refine Or.inr ⟨h.1, h.2, ?_⟩
    have hhigh : c.toNat ≤ 90 := h.2
    change (c.val + ('a'.val - 'A'.val)).toNat = c.toNat + 32
    rw [UInt32.toNat_add]
    change (c.toNat + 32) % 2 ^ 32 = c.toNat + 32
    omega
  · exact Or.inl rfl

theorem isWhitespace_toLower (c : Char) : isWhitespace c.toLower = isWhitespace c := by
  rcases toLower_cases c with h | ⟨hlow, hhigh, h⟩
  · rw [h]
  · simp only [isWhitespace, h]
    grind

theorem utf8Size_of_toNat_lt (h : c.toNat < 128) : c.utf8Size = 1 := by
  rw [Char.utf8Size_eq_one_iff]
  exact Nat.le_of_lt_succ h

theorem utf8Size_toLower (c : Char) : c.toLower.utf8Size = c.utf8Size := by
  rcases toLower_cases c with h | ⟨hlow, hhigh, h⟩
  · rw [h]
  · rw [utf8Size_of_toNat_lt (c := c) (by omega), utf8Size_of_toNat_lt (by omega)]

@[simp] theorem byteLen_asciiLowercase (s : List Char) :
    byteLen (asciiLowercase s) = byteLen s := by
  induction s with
  | nil => rfl
  | cons c s ih =>
      change byteLen (c.toLower :: asciiLowercase s) = byteLen (c :: s)
      rw [byteLen_cons, byteLen_cons, ih, utf8Size_toLower]

theorem trimChars_asciiLowercase (s : List Char) :
    trimChars (asciiLowercase s) = asciiLowercase (trimChars s) := by
  have hspace : isWhitespace ∘ Char.toLower = isWhitespace := funext isWhitespace_toLower
  rw [asciiLowercase, trimChars, trimChars, List.dropWhile_map, hspace, ← List.map_reverse,
    List.dropWhile_map, hspace, ← List.map_reverse, asciiLowercase]

/-- A text in lower case that is cut comes from the text cut at the same place. -/
theorem exists_of_asciiLowercase_eq_append (h : asciiLowercase s = p ++ q) :
    ∃ a b, s = a ++ b ∧ asciiLowercase a = p ∧ asciiLowercase b = q ∧ byteLen a = byteLen p := by
  obtain ⟨a, b, rfl, rfl, rfl⟩ := List.map_eq_append_iff.mp h
  exact ⟨a, b, rfl, rfl, rfl, (byteLen_asciiLowercase a).symm⟩

end Oclaw.Lib
