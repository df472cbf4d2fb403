import Mathlib.Data.List.Infix
import Mathlib.Data.List.TakeWhile
import Oclaw.Lib.CharBoundary

/-!
# Searching texts

Occurrences of a pattern in a text, the last of them, and how the pieces of a split text
follow when texts are put together.
-/

namespace Oclaw.Lib

variable {s p q pat : List Char} {i : ℕ} {c : Char}

/-! ## The last occurrence -/

/-- `str::rfind`: the byte position of the last occurrence. -/
def rfind (pat : List Char) : List Char → Option ℕ
  | [] => if pat = [] then some 0 else none
  | c :: s =>
      match rfind pat s with
      | some i => some (c.utf8Size + i)
      | none => if pat.isPrefixOf (c :: s) then some 0 else none

theorem rfind_eq_some (h : rfind pat s = some i) : ∃ p q, s = p ++ pat ++ q ∧ byteLen p = i := by
  induction s generalizing i with
  | nil =>
      rw [rfind] at h
      split at h
      · rename_i hpat
        cases h
        exact ⟨[], [], by rw [hpat]; rfl, rfl⟩
      · cases h
  | cons c s ih =>
      rw [rfind] at h
      split at h
      · rename_i j hj
        cases h
        obtain ⟨p, q, rfl, hp⟩ := ih hj
        exact ⟨c :: p, q, rfl, by rw [byteLen_cons, hp]⟩
      · split at h
        · rename_i hprefix
          cases h
          obtain ⟨q, hq⟩ := List.isPrefixOf_iff_prefix.mp hprefix
          exact ⟨[], q, hq.symm, rfl⟩
        · cases h

/-- What is found is the last occurrence, and where one is, one is found. -/
theorem le_of_occurs (p q : List Char) :
    ∃ i, rfind pat (p ++ pat ++ q) = some i ∧ byteLen p ≤ i := by
  induction p with
  | nil =>
      rw [List.nil_append]
      cases hs : pat ++ q with
      | nil =>
          obtain ⟨hpat, -⟩ := List.append_eq_nil_iff.mp hs
          exact ⟨0, if_pos hpat, Nat.zero_le _⟩
      | cons c s =>
          rw [rfind]
          split
          · exact ⟨_, rfl, Nat.zero_le _⟩
          · have hprefix : pat.isPrefixOf (c :: s) = true := by
              rw [← hs]
              exact List.isPrefixOf_iff_prefix.mpr (List.prefix_append _ _)
            exact ⟨0, if_pos hprefix, Nat.zero_le _⟩
  | cons c p ih =>
      obtain ⟨i, hi, hle⟩ := ih
      refine ⟨c.utf8Size + i, ?_, ?_⟩
      · rw [List.cons_append, List.cons_append, rfind, hi]
      · rw [byteLen_cons]
        omega

/-! ## The first occurrence -/

theorem containsChars_iff : containsChars pat s = true ↔ pat <:+: s := by
  induction s with
  | nil => simp [containsChars]
  | cons c s ih => simp [containsChars, List.infix_cons_iff, ih]

/-- `str::split_once` for a text that is not empty: what is before its first occurrence and
what is behind. -/
def splitOnceText (pat : List Char) : List Char → Option (List Char × List Char)
  | [] => none
  | c :: s =>
      if pat.isPrefixOf (c :: s) then some ([], (c :: s).drop pat.length)
      else (splitOnceText pat s).map (fun sides => (c :: sides.1, sides.2))

theorem splitOnceText_eq_some {a b : List Char} (h : splitOnceText pat s = some (a, b)) :
    s = a ++ pat ++ b := by
  induction s generalizing a with
  | nil => cases h
  | cons c s ih =>
      rw [splitOnceText] at h
      split at h
      · rename_i hpat
        obtain ⟨rest, hrest⟩ := List.isPrefixOf_iff_prefix.mp hpat
        obtain ⟨rfl, rfl⟩ := Prod.mk.inj (Option.some.inj h)
        rw [← hrest, List.drop_left, List.nil_append]
      · obtain ⟨⟨a', b'⟩, hsides, heq⟩ := Option.map_eq_some_iff.mp h
        obtain ⟨rfl, rfl⟩ := Prod.mk.inj heq
        rw [ih hsides]
        rfl

theorem splitOnceText_ne_none (hpat : pat ≠ []) (p q : List Char) :
    splitOnceText pat (p ++ pat ++ q) ≠ none := by
  induction p with
  | nil =>
      obtain ⟨c, pat', rfl⟩ := List.exists_cons_of_ne_nil hpat
      simp [splitOnceText]
  | cons c p ih =>
      rw [List.cons_append, List.cons_append, splitOnceText]
      split
      · exact Option.some_ne_none _
      · rw [Ne, Option.map_eq_none_iff]
        exact ih

theorem splitOnceText_eq_none_iff (hpat : pat ≠ []) :
    splitOnceText pat s = none ↔ ¬ pat <:+: s := by
  constructor
  · rintro h ⟨p, q, rfl⟩
    exact splitOnceText_ne_none hpat p q h
  · intro h
    cases hsides : splitOnceText pat s with
    | none => rfl
    | some sides => exact absurd ⟨_, _, (splitOnceText_eq_some hsides).symm⟩ h

/-- There is no occurrence before the first one. -/
theorem splitOnceText_free {a b : List Char} (hpat : pat ≠ [])
    (h : splitOnceText pat s = some (a, b)) : ¬ pat <:+: a := by
  induction s generalizing a with
  | nil => cases h
  | cons c s ih =>
      rw [splitOnceText] at h
      split at h
      · obtain ⟨rfl, -⟩ := Prod.mk.inj (Option.some.inj h)
        exact fun hinfix => hpat (List.infix_nil.mp hinfix)
      · rename_i hpre
        obtain ⟨⟨a', b'⟩, hsides, heq⟩ := Option.map_eq_some_iff.mp h
        obtain ⟨rfl, rfl⟩ := Prod.mk.inj heq
        intro hinfix
        rcases List.infix_cons_iff.mp hinfix with hstart | hinfix
        · have hs := splitOnceText_eq_some hsides
          rw [List.append_assoc] at hs
          refine hpre (List.isPrefixOf_iff_prefix.mpr (hstart.trans ?_))
          rw [hs]
          exact List.prefix_append (c :: a') _
        · exact ih hsides hinfix

/-- Occurrences of two patterns that begin with a mark and have no other do not overlap,
unless they begin at the same place. -/
theorem marked_cases {m : Char} {u v x y r t : List Char} (hu : m ∉ u) (hv : m ∉ v)
    (h : x ++ (m :: u ++ r) = y ++ (m :: v ++ t)) :
    x = y ∨ x ++ m :: u <+: y ∨ y ++ m :: v <+: x := by
  have hbehind : ∀ {u x y r rest : List Char}, m ∉ u → x ++ (m :: u ++ r) = y ++ m :: rest →
      ∀ c, y = x ++ c → x = y ∨ x ++ m :: u <+: y := by
    intro u x y r rest hu h c hc
    subst hc
    rw [List.append_assoc, List.append_cancel_left_eq] at h
    rcases List.append_eq_append_iff.mp h with ⟨d, hd, -⟩ | ⟨d, hd, hrest⟩
    · right
      rw [hd]
      exact ⟨d, by simp⟩
    · -- the second mark would be in the first pattern
      rcases c with _ | ⟨a, c⟩
      · left
        rw [List.append_nil]
      · rcases d with _ | ⟨b, d⟩
        · right
          rw [List.append_nil] at hd
          rw [hd]
        · obtain ⟨-, rfl⟩ := List.cons.inj hd
          obtain ⟨rfl, -⟩ := List.cons.inj hrest
          exact absurd (List.mem_append_right c List.mem_cons_self) hu
  rcases List.append_eq_append_iff.mp h with ⟨c, hc, -⟩ | ⟨c, hc, -⟩
  · rcases hbehind hu h c hc with heq | hpre
    · exact Or.inl heq
    · exact Or.inr (Or.inl hpre)
  · rcases hbehind hv h.symm c hc with heq | hpre
    · exact Or.inl heq.symm
    · exact Or.inr (Or.inr hpre)

/-- Occurrences of two different characters do not overlap: one is the first or it is
behind the first. -/
theorem occurrence_cases {x y : Char} (hxy : x ≠ y) {a b : List Char}
    (h : splitOnceText [x, y] (p ++ [x, y] ++ q) = some (a, b)) :
    (p = a ∧ q = b) ∨ ∃ p', b = p' ++ [x, y] ++ q := by
  induction p generalizing a with
  | nil =>
      simp only [List.nil_append, List.cons_append, splitOnceText, List.isPrefixOf_cons_cons_self,
        List.isPrefixOf_nil_left, if_true, Option.some.injEq, Prod.mk.injEq] at h
      exact Or.inl ⟨h.1, h.2⟩
  | cons c p ih =>
      rw [List.cons_append, List.cons_append, splitOnceText] at h
      split at h
      · rename_i hpat
        obtain ⟨rest, hrest⟩ := List.isPrefixOf_iff_prefix.mp hpat
        rw [← hrest, List.drop_left] at h
        obtain ⟨rfl, rfl⟩ := Prod.mk.inj (Option.some.inj h)
        -- the second character of the occurrence at the start is not its first one
        cases p with
        | nil =>
            simp only [List.cons_append, List.nil_append, List.cons.injEq] at hrest
            exact absurd hrest.2.1.symm hxy
        | cons d p =>
            simp only [List.cons_append, List.nil_append, List.cons.injEq] at hrest
            exact Or.inr ⟨p, by simpa using hrest.2.2⟩
      · obtain ⟨⟨a', b'⟩, hsides, heq⟩ := Option.map_eq_some_iff.mp h
        obtain ⟨rfl, rfl⟩ := Prod.mk.inj heq
        rcases ih hsides with ⟨rfl, rfl⟩ | hbehind
        · exact Or.inl ⟨rfl, rfl⟩
        · exact Or.inr hbehind

/-! ## Pieces -/

theorem splitAt_ne_nil (f : Char → Bool) (s : List Char) : splitAt f s ≠ [] := by
  cases s with
  | nil => simp [splitAt]
  | cons c s =>
      rw [splitAt]
      split
      · simp
      · split <;> simp

/-- A separator between two texts keeps their pieces apart. -/
theorem splitAt_append_sep {f : Char → Bool} {sep : Char} (hsep : f sep = true)
    (xs ys : List Char) : splitAt f (xs ++ sep :: ys) = splitAt f xs ++ splitAt f ys := by
  induction xs with
  | nil =>
      show splitAt f (sep :: ys) = [] :: splitAt f ys
      rw [splitAt, if_pos hsep]
  | cons x xs ih =>
      rw [List.cons_append, splitAt, splitAt, ih]
      split
      · rfl
      · cases hxs : splitAt f xs with
        | nil => exact absurd hxs (splitAt_ne_nil f xs)
        | cons w ws => rfl

/-- A text without separators is one piece. -/
theorem splitAt_of_forall {f : Char → Bool} (h : ∀ c ∈ s, f c = false) : splitAt f s = [s] := by
  induction s with
  | nil => rfl
  | cons c s ih =>
      rw [splitAt, ih fun c' hc' => h c' (List.mem_cons_of_mem _ hc'),
        if_neg (by rw [h c List.mem_cons_self]; simp)]

/-! ## Trimming -/

theorem all_takeWhile (f : Char → Bool) (s : List Char) : ∀ c ∈ s.takeWhile f, f c = true := by
  have h := @List.all_takeWhile Char f s
  rwa [List.all_eq_true] at h

/-- Trimming at the end comes after trimming at the start. -/
theorem dropWhile_eq_trimChars (s : List Char) :
    ∃ trail, s.dropWhile isWhitespace = trimChars s ++ trail ∧
      ∀ c ∈ trail, isWhitespace c = true := by
  have htrail := @List.takeWhile_append_dropWhile Char isWhitespace
    (s.dropWhile isWhitespace).reverse
  refine ⟨((s.dropWhile isWhitespace).reverse.takeWhile isWhitespace).reverse, ?_, ?_⟩
  · have hrest := congrArg List.reverse htrail
    rw [List.reverse_append, List.reverse_reverse] at hrest
    rw [trimChars, hrest]
  · intro c hc
    exact all_takeWhile _ _ c (List.mem_reverse.mp hc)

/-- What trimming takes away is whitespace. -/
theorem trimChars_split (s : List Char) :
    ∃ lead trail, s = lead ++ (trimChars s ++ trail) ∧ (∀ c ∈ lead, isWhitespace c = true) ∧
      ∀ c ∈ trail, isWhitespace c = true := by
  obtain ⟨trail, hdrop, htrail⟩ := dropWhile_eq_trimChars s
  refine ⟨s.takeWhile isWhitespace, trail, ?_, all_takeWhile isWhitespace s, htrail⟩
  rw [← hdrop, List.takeWhile_append_dropWhile]

theorem trimChars_eq_nil_iff : trimChars s = [] ↔ ∀ c ∈ s, isWhitespace c = true := by
  constructor
  · intro h
    obtain ⟨lead, trail, hs, hlead, htrail⟩ := trimChars_split s
    rw [h, List.nil_append] at hs
    rw [hs]
    exact List.forall_mem_append.mpr ⟨hlead, htrail⟩
  · intro h
    have hdrop : s.dropWhile isWhitespace = [] := List.dropWhile_eq_nil_iff.mpr h
    rw [trimChars, hdrop]
    rfl

/-- Trimming keeps the characters that are not whitespace. -/
theorem filter_trimChars (s : List Char) :
    (trimChars s).filter (!isWhitespace ·) = s.filter (!isWhitespace ·) := by
  obtain ⟨lead, trail, hs, hlead, htrail⟩ := trimChars_split s
  have hgone : ∀ t : List Char, (∀ c ∈ t, isWhitespace c = true) →
      t.filter (!isWhitespace ·) = [] := by
    intro t ht
    rw [List.filter_eq_nil_iff]
    intro c hc
    simp [ht c hc]
  have hfilter := congrArg (List.filter (!isWhitespace ·)) hs
  rw [List.filter_append, List.filter_append, hgone lead hlead, hgone trail htrail,
    List.nil_append, List.append_nil] at hfilter
  exact hfilter.symm

/-- A text that neither starts nor ends with whitespace. -/
def Trimmed (s : List Char) : Prop :=
  (∀ c ∈ s.head?, isWhitespace c = false) ∧ ∀ c ∈ s.getLast?, isWhitespace c = false

theorem dropWhile_eq_self_of_head (h : ∀ c ∈ s.head?, isWhitespace c = false) :
    s.dropWhile isWhitespace = s := by
  cases s with
  | nil => rfl
  | cons c s => exact List.dropWhile_cons_of_neg (by rw [h c rfl]; simp)

theorem trimChars_of_trimmed (h : Trimmed s) : trimChars s = s := by
  have hreverse : s.reverse.dropWhile isWhitespace = s.reverse := by
    apply dropWhile_eq_self_of_head
    rw [List.head?_reverse]
    exact h.2
  rw [trimChars, dropWhile_eq_self_of_head h.1, hreverse, List.reverse_reverse]

theorem trimmed_trimChars (s : List Char) : Trimmed (trimChars s) := by
  have hhead (t : List Char) : ∀ c ∈ (t.dropWhile isWhitespace).head?, isWhitespace c = false := by
    intro c hc
    have hnot := List.head?_dropWhile_not isWhitespace t
    rw [hc] at hnot
    simpa using hnot
  constructor
  · intro c hc
    obtain ⟨trail, hdrop, -⟩ := dropWhile_eq_trimChars s
    refine hhead s c ?_
    rw [hdrop, List.head?_append, hc]
    rfl
  · rw [trimChars, List.getLast?_reverse]
    exact hhead _

/-- What neither starts nor ends with whitespace is not trimmed away. -/
theorem isInfix_trimChars_iff (hne : pat ≠ []) (hpat : Trimmed pat) :
    pat <:+: trimChars s ↔ pat <:+: s := by
  obtain ⟨lead, trail, hs, hlead, htrail⟩ := trimChars_split s
  constructor
  · intro h
    refine h.trans ⟨lead, trail, ?_⟩
    rw [List.append_assoc]
    exact hs.symm
  · rintro ⟨a, b, hab⟩
    have hsplit : a ++ (pat ++ b) = lead ++ (trimChars s ++ trail) := by
      rw [← List.append_assoc, hab]
      exact hs
    -- the occurrence begins behind the whitespace at the start
    have hbegin : ∃ a', a' ++ (pat ++ b) = trimChars s ++ trail := by
      rcases List.append_eq_append_iff.mp hsplit with ⟨c, hc, hrest⟩ | ⟨c, -, hrest⟩
      · rcases c with _ | ⟨x, c⟩
        · exact ⟨[], hrest⟩
        · obtain ⟨y, pat', rfl⟩ := List.exists_cons_of_ne_nil hne
          obtain ⟨rfl, -⟩ := List.cons.inj hrest
          have hspace := hlead y (by rw [hc]; simp)
          rw [hpat.1 y rfl] at hspace
          cases hspace
      · exact ⟨c, hrest.symm⟩
    obtain ⟨a', hbegin⟩ := hbegin
    rw [← List.append_assoc] at hbegin
    -- and it ends before that at the end
    rcases List.append_eq_append_iff.mp hbegin with ⟨c, hc, -⟩ | ⟨c, hc, hrest⟩
    · rw [hc]
      exact ⟨a', c, rfl⟩
    · rcases List.eq_nil_or_concat' c with rfl | ⟨c', x, rfl⟩
      · rw [List.append_nil] at hc
        rw [← hc]
        exact ⟨a', [], by simp⟩
      · rcases List.eq_nil_or_concat' pat with hnil | ⟨pat', y, rfl⟩
        · exact absurd hnil hne
        · rw [← List.append_assoc, ← List.append_assoc] at hc
          obtain ⟨-, heq⟩ := List.append_inj' hc rfl
          obtain rfl := List.cons.inj heq |>.1
          have hspace := htrail y (by rw [hrest]; simp)
          rw [hpat.2 y (by simp)] at hspace
          cases hspace

theorem isInfix_trimChars (s : List Char) : trimChars s <:+: s := by
  obtain ⟨lead, trail, hs, -, -⟩ := trimChars_split s
  exact ⟨lead, trail, by rw [List.append_assoc]; exact hs.symm⟩

theorem byteLen_trimChars_le (s : List Char) : byteLen (trimChars s) ≤ byteLen s := by
  obtain ⟨lead, trail, hs, -, -⟩ := trimChars_split s
  have hbytes := congrArg byteLen hs
  rw [byteLen_append, byteLen_append] at hbytes
  omega

end Oclaw.Lib
