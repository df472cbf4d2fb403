import Mathlib.Data.List.Chain
import Oclaw.Lib.CharBoundary
import Oclaw.MemoryCore.Chunks

/-!
# What the chunks of a text cover

The chunks of `chunk_by_chars` (`crates/memory-core/src/manager.rs`) in their order. Only
the far end of a chunk is moved to a character boundary. The chunks cover a text exactly
when every other position of the loop happens to be one, and no chunk ends with the
paragraph that already ended the chunk before it.
-/

namespace Oclaw.MemoryCore

open Oclaw.Lib

/-! ## §1  Cuts in their order -/

/-- The cuts of the loop, from this position to the end of the text. -/
inductive Walk (cfg : Chunking) (text : Text) : ℕ → List (ℕ × ℕ) → Prop where
  | last {a e : ℕ} : chunkEnd cfg text a = some e → text.length ≤ e → Walk cfg text a [(a, e)]
  | more {a e : ℕ} {cuts : List (ℕ × ℕ)} : chunkEnd cfg text a = some e → e < text.length →
      Walk cfg text (nextStart cfg a e) cuts → Walk cfg text a ((a, e) :: cuts)

/-- The chunks between these positions, numbered from `k`. -/
def chunksAt (E : Type) (text : Text) (path source : String) (now : ℕ) :
    ℕ → List (ℕ × ℕ) → List (MemoryChunk E)
  | _, [] => []
  | k, c :: cuts =>
      mkChunk E text path source now k c.1 c.2 ((text.take c.2).drop c.1) ::
        chunksAt E text path source now (k + 1) cuts

section Coverage

variable {E : Type} {cfg : Chunking} {text : Text} {path source : String} {now fuel k a e i : ℕ}
variable {cuts cuts' : List (ℕ × ℕ)} {chunks : List (MemoryChunk E)} {chunk : MemoryChunk E}

/-- A slice that does not panic. -/
def Sliceable (text : Text) (c : ℕ × ℕ) : Prop :=
  c.1 ≤ c.2 ∧ isCharBoundary text c.1 = true ∧ isCharBoundary text c.2 = true

theorem slice_eq_some_iff {body : Text} :
    slice text a e = some body ↔ Sliceable text (a, e) ∧ body = (text.take e).drop a := by
  rw [slice, Option.ite_none_right_eq_some, Option.some.injEq]
  exact and_congr Iff.rfl eq_comm

/-- The loop returns exactly when it reaches the end of the text by cuts that can be
sliced. -/
theorem chunkLoop_eq_some_iff (hpos : 0 < cfg.chunkChars) (hstart : a < text.length)
    (hfuel : text.length < fuel + a) :
    chunkLoop E cfg text path source now fuel k a = some chunks ↔
      ∃ cuts, Walk cfg text a cuts ∧ (∀ c ∈ cuts, Sliceable text c) ∧
        chunks = chunksAt E text path source now k cuts := by
  induction fuel generalizing k a chunks with
  | zero => omega
  | succ fuel ih =>
      constructor
      · intro hloop
        obtain ⟨e, body, hend, hslice, hrest⟩ := chunkLoop_succ hstart hloop
        obtain ⟨hcut, rfl⟩ := slice_eq_some_iff.mp hslice
        rcases hrest with ⟨hlast, rfl⟩ | ⟨hinside, rest, hrest, rfl⟩
        · exact ⟨[(a, e)], .last hend hlast, by simpa using hcut, rfl⟩
        · have hlt : a < nextStart cfg a e := lt_nextStart (lt_chunkEnd hpos hstart hend)
          have hnext : nextStart cfg a e < text.length :=
            Nat.lt_of_le_of_lt nextStart_le hinside
          obtain ⟨cuts, hwalk, hcuts, rfl⟩ := (ih hnext (by omega)).mp hrest
          exact ⟨(a, e) :: cuts, .more hend hinside hwalk,
            List.forall_mem_cons.mpr ⟨hcut, hcuts⟩, rfl⟩
      · rintro ⟨cuts, hwalk, hcuts, rfl⟩
        rw [chunkLoop, if_pos hstart]
        cases hwalk with
        | @last _ e hend hlast =>
            have hslice := slice_eq_some_iff.mpr ⟨hcuts _ List.mem_cons_self, rfl⟩
            simp [hend, hslice, hlast, chunksAt]
        | @more _ e cuts hend hinside hwalk =>
            obtain ⟨hcut, hcuts⟩ := List.forall_mem_cons.mp hcuts
            have hslice := slice_eq_some_iff.mpr ⟨hcut, rfl⟩
            have hlt : a < nextStart cfg a e := lt_nextStart (lt_chunkEnd hpos hstart hend)
            have hnext : nextStart cfg a e < text.length :=
              Nat.lt_of_le_of_lt nextStart_le hinside
            have hrest : chunkLoop E cfg text path source now fuel (k + 1) (nextStart cfg a e) =
                some (chunksAt E text path source now (k + 1) cuts) :=
              (ih hnext (by omega)).mpr ⟨cuts, hwalk, hcuts, rfl⟩
            simp [hend, hslice, Nat.not_le.mpr hinside, hrest, chunksAt]

theorem chunkByChars_eq_some_iff (hpos : 0 < cfg.chunkChars) (hne : text ≠ []) :
    chunkByChars E cfg text path source now = some chunks ↔
      ∃ cuts, Walk cfg text 0 cuts ∧ (∀ c ∈ cuts, Sliceable text c) ∧
        chunks = chunksAt E text path source now 0 cuts := by
  rw [chunkByChars, if_neg hne]
  exact chunkLoop_eq_some_iff hpos (List.length_pos_iff.mpr hne) (by omega)

/-! ## §2  The end of a chunk -/

/-- Where the last fifth of a chunk starts. -/
def zoneStart (cfg : Chunking) (a : ℕ) : ℕ := a + cfg.chunkChars * 4 / 5

/-- The end of a chunk that no paragraph ends. -/
def farEnd (cfg : Chunking) (text : Text) (a : ℕ) : ℕ :=
  ceilCharBoundarySafe text (min (a + cfg.chunkChars) text.length)

theorem findParagraph_eq_some {r : ℕ} (h : findParagraph text = some r) :
    text[r]? = some 10 ∧ text[r + 1]? = some 10 := by
  induction text generalizing r with
  | nil => cases h
  | cons b rest ih =>
      rw [findParagraph] at h
      split at h
      · rename_i hpar
        cases h
        rw [← List.head?_eq_getElem?] at *
        exact ⟨congrArg some hpar.1, by simpa [List.head?_eq_getElem?] using hpar.2⟩
      · obtain ⟨r, hr, rfl⟩ := Option.map_eq_some_iff.mp h
        simpa using ih hr

/-- Of two paragraph ends the first is found. -/
theorem findParagraph_le {r : ℕ} (hfirst : text[r]? = some 10) (hsecond : text[r + 1]? = some 10) :
    ∃ r' ≤ r, findParagraph text = some r' := by
  induction text generalizing r with
  | nil => simp at hfirst
  | cons b rest ih =>
      rw [findParagraph]
      split
      · exact ⟨0, Nat.zero_le _, rfl⟩
      · rename_i hpar
        cases r with
        | zero =>
            refine absurd ⟨?_, ?_⟩ hpar
            · simpa using hfirst
            · simpa [List.head?_eq_getElem?] using hsecond
        | succ r =>
            obtain ⟨r', hle, hfind⟩ := ih (by simpa using hfirst) (by simpa using hsecond)
            exact ⟨r' + 1, by omega, by rw [hfind]; rfl⟩

/-- A paragraph ends between these positions, the second of them behind it. -/
def ParagraphEnd (text : Text) (a e : ℕ) : Prop :=
  a + 2 ≤ e ∧ text[e - 2]? = some 10 ∧ text[e - 1]? = some 10

theorem getElem?_window (i : ℕ) :
    ((text.take e).drop a)[i]? = if a + i < e then text[a + i]? else none := by
  rw [List.getElem?_drop, List.getElem?_take]

theorem paragraphEnd_of_find {r : ℕ} (h : findParagraph ((text.take e).drop a) = some r) :
    ParagraphEnd text a (a + r + 2) ∧ a + r + 2 ≤ e := by
  obtain ⟨hfirst, hsecond⟩ := findParagraph_eq_some h
  rw [getElem?_window, Option.ite_none_right_eq_some] at hfirst hsecond
  exact ⟨⟨by omega, by simpa using hfirst.2, by simpa [← Nat.add_assoc] using hsecond.2⟩,
    by omega⟩

theorem find_of_paragraphEnd {p : ℕ} (h : ParagraphEnd text a p) (hp : p ≤ e) :
    ∃ r, findParagraph ((text.take e).drop a) = some r ∧ a + r + 2 ≤ p := by
  obtain ⟨hle, hfirst, hsecond⟩ := h
  have hwindow (i : ℕ) (hi : i < p) (ha : a ≤ i) :
      ((text.take e).drop a)[i - a]? = text[i]? := by
    rw [getElem?_window, if_pos (by omega)]
    congr 1
    omega
  obtain ⟨r, hr, hfind⟩ := @findParagraph_le ((text.take e).drop a) (p - 2 - a)
    ((hwindow (p - 2) (by omega) (by omega)).trans hfirst)
    (by
      rw [show p - 2 - a + 1 = p - 1 - a by omega]
      exact (hwindow (p - 1) (by omega) (by omega)).trans hsecond)
  exact ⟨r, hfind, by omega⟩

/-- The stretch of a range on which a test is true. -/
theorem takeWhile_range'_spec (p : ℕ → Bool) (i n : ℕ) :
    ∃ m, ((List.range' i n).takeWhile p).length = m ∧ m ≤ n ∧ (∀ j < m, p (i + j) = true) ∧
      (m < n → p (i + m) = false) := by
  induction n generalizing i with
  | zero => exact ⟨0, rfl, Nat.le_refl _, by simp, by simp⟩
  | succ n ih =>
      rw [List.range'_succ, List.takeWhile_cons]
      cases hp : p i with
      | false => exact ⟨0, rfl, Nat.zero_le _, by simp, fun _ => hp⟩
      | true =>
          obtain ⟨m, hm, hle, htrue, hfalse⟩ := ih (i + 1)
          refine ⟨m + 1, by simp [hm], by omega, ?_, ?_⟩
          · intro j hj
            cases j with
            | zero => exact hp
            | succ j => exact (by omega : i + (j + 1) = i + 1 + j) ▸ htrue j (by omega)
          · intro hlt
            exact (by omega : i + (m + 1) = i + 1 + m) ▸ hfalse (by omega)

theorem isCharBoundary_length : isCharBoundary text text.length = true := by
  simp [isCharBoundary]

/-- The first boundary from a position on. -/
theorem ceilCharBoundarySafe_spec (hi : i ≤ text.length) :
    i ≤ ceilCharBoundarySafe text i ∧ ceilCharBoundarySafe text i ≤ text.length ∧
      isCharBoundary text (ceilCharBoundarySafe text i) = true ∧
      ∀ j, i ≤ j → isCharBoundary text j = true → ceilCharBoundarySafe text i ≤ j := by
  rw [ceilCharBoundarySafe]
  split
  · rename_i hle
    obtain rfl := Nat.le_antisymm hi hle
    exact ⟨Nat.le_refl _, Nat.le_refl _, isCharBoundary_length, fun j hj _ => hj⟩
  · obtain ⟨m, hm, hle, htrue, hfalse⟩ :=
      takeWhile_range'_spec (fun i => !isCharBoundary text i) i (text.length - i)
    rw [hm]
    refine ⟨Nat.le_add_right .., by omega, ?_, ?_⟩
    · rcases Nat.eq_or_lt_of_le hle with heq | hlt
      · rw [heq, Nat.add_sub_cancel' hi]
        exact isCharBoundary_length
      · simpa using hfalse hlt
    · intro j hj hboundary
      by_contra hlt
      have hno := htrue (j - i) (by omega)
      rw [Nat.add_sub_cancel' hj, hboundary] at hno
      cases hno

theorem farEnd_spec : min (a + cfg.chunkChars) text.length ≤ farEnd cfg text a ∧
    farEnd cfg text a ≤ text.length ∧ isCharBoundary text (farEnd cfg text a) = true := by
  obtain ⟨hle, hlen, hboundary, -⟩ := @ceilCharBoundarySafe_spec text _
    (Nat.min_le_right (a + cfg.chunkChars) text.length)
  exact ⟨hle, hlen, hboundary⟩

/-- A chunk that ends inside the text has a last fifth. -/
theorem zoneStart_lt_farEnd (hpos : 0 < cfg.chunkChars) (h : farEnd cfg text a < text.length) :
    zoneStart cfg a < farEnd cfg text a := by
  obtain ⟨hle, -, -⟩ := @farEnd_spec cfg text a
  rw [zoneStart]
  omega

/-- The end of a chunk, where nothing panics. -/
def endAt (cfg : Chunking) (text : Text) (a : ℕ) : ℕ :=
  if farEnd cfg text a < text.length then
    match findParagraph ((text.take (farEnd cfg text a)).drop (zoneStart cfg a)) with
    | some rel => zoneStart cfg a + rel + 2
    | none => farEnd cfg text a
  else text.length

theorem endAt_bounds (hpos : 0 < cfg.chunkChars) (hstart : a < text.length) :
    a < endAt cfg text a ∧ endAt cfg text a ≤ text.length := by
  obtain ⟨hle, hlen, -⟩ := @farEnd_spec cfg text a
  rw [endAt]
  split
  · have hzone : a ≤ zoneStart cfg a := Nat.le_add_right ..
    cases hfind : findParagraph ((text.take (farEnd cfg text a)).drop (zoneStart cfg a)) with
    | none => exact ⟨show a < farEnd cfg text a by omega, hlen⟩
    | some rel =>
        have hend := (paragraphEnd_of_find hfind).2
        exact ⟨show a < zoneStart cfg a + rel + 2 by omega, Nat.le_trans hend hlen⟩
  · exact ⟨hstart, Nat.le_refl _⟩

/-- The sums do not overflow, and the last fifth starts on a boundary where it is searched. -/
def EndDefined (cfg : Chunking) (text : Text) (a : ℕ) : Prop :=
  a + cfg.chunkChars < 2 ^ 64 ∧ cfg.chunkChars * 4 < 2 ^ 64 ∧
    (farEnd cfg text a < text.length → isCharBoundary text (zoneStart cfg a) = true)

theorem usize_eq_some_iff {m n : ℕ} : usize n = some m ↔ n < 2 ^ 64 ∧ m = n := by
  rw [usize, Option.ite_none_right_eq_some, Option.some.injEq, eq_comm (a := n)]

theorem chunkEnd_eq_some_iff (hpos : 0 < cfg.chunkChars) :
    chunkEnd cfg text a = some e ↔ EndDefined cfg text a ∧ e = endAt cfg text a := by
  have hfold : a + cfg.chunkChars * 4 / 5 ≤ a + cfg.chunkChars := by omega
  obtain ⟨-, hlen, hboundary⟩ := @farEnd_spec cfg text a
  simp only [chunkEnd, Option.bind_eq_bind, Option.bind_eq_some_iff, usize_eq_some_iff]
  have hstop : ceilCharBoundarySafe text (min (a + cfg.chunkChars) text.length) =
      farEnd cfg text a := rfl
  have hzone : a + cfg.chunkChars * 4 / 5 = zoneStart cfg a := rfl
  constructor
  · rintro ⟨far, ⟨hfar, rfl⟩, fourFold, ⟨hfourFold, rfl⟩, zone, ⟨-, rfl⟩, h⟩
    rw [hstop, hzone] at h
    split at h
    · rename_i hinside
      obtain ⟨body, hslice, h⟩ := Option.bind_eq_some_iff.mp h
      obtain ⟨⟨-, hb, -⟩, rfl⟩ := slice_eq_some_iff.mp hslice
      refine ⟨⟨hfar, hfourFold, fun _ => hb⟩, ?_⟩
      rw [endAt, if_pos hinside.1]
      cases hfind : findParagraph ((text.take (farEnd cfg text a)).drop (zoneStart cfg a)) with
      | none =>
          rw [hfind] at h
          obtain rfl := Option.some.inj h
          exact Nat.min_eq_left hlen
      | some rel =>
          rw [hfind] at h
          obtain rfl := Option.some.inj h
          have hle := (paragraphEnd_of_find hfind).2
          exact Nat.min_eq_left (by omega)
    · rename_i hinside
      cases h
      have hend : ¬ farEnd cfg text a < text.length :=
        fun h => hinside ⟨h, zoneStart_lt_farEnd hpos h⟩
      refine ⟨⟨hfar, hfourFold, fun h => absurd h hend⟩, ?_⟩
      rw [endAt, if_neg hend]
      omega
  · rintro ⟨⟨hfar, hfourFold, hb⟩, rfl⟩
    refine ⟨_, ⟨hfar, rfl⟩, _, ⟨hfourFold, rfl⟩, _, ⟨by omega, rfl⟩, ?_⟩
    rw [hstop, hzone, endAt]
    by_cases hinside : farEnd cfg text a < text.length
    · have hzoneLt := zoneStart_lt_farEnd hpos hinside
      have hslice : slice text (zoneStart cfg a) (farEnd cfg text a) =
          some ((text.take (farEnd cfg text a)).drop (zoneStart cfg a)) :=
        slice_eq_some_iff.mpr ⟨⟨Nat.le_of_lt hzoneLt, hb hinside, hboundary⟩, rfl⟩
      rw [if_pos ⟨hinside, hzoneLt⟩, if_pos hinside, hslice, Option.bind_some]
      cases hfind : findParagraph ((text.take (farEnd cfg text a)).drop (zoneStart cfg a)) with
      | none =>
          show some (min _ _) = some _
          rw [Nat.min_eq_left hlen]
      | some rel =>
          have := (paragraphEnd_of_find hfind).2
          show some (min _ _) = some _
          rw [Nat.min_eq_left (by omega)]
    · rw [if_neg (fun h => hinside h.1), if_neg hinside]
      show some (min _ _) = some _
      rw [Nat.min_eq_right (by omega)]

/-! ## §3  Boundaries of a text -/

section Utf8

variable {l : List Char}

theorem isCharBoundary_utf8 (l : List Char) (i : ℕ) :
    isCharBoundary (Lib.utf8 l) i = Lib.isCharBoundary l i := by
  have hbyte (b : UInt8) : (decide (b < 0x80) || decide (0xC0 ≤ b)) = !isTail b := by
    rw [Bool.eq_iff_iff]
    simp only [Bool.or_eq_true, decide_eq_true_eq, isTail, Bool.not_eq_true', Bool.and_eq_false_iff,
      decide_eq_false_iff_not, UInt8.lt_iff_toNat_lt, UInt8.le_iff_toNat_le]
    have hlow : (0x80 : UInt8).toNat = 0x80 := rfl
    have hhigh : (0xC0 : UInt8).toNat = 0xC0 := rfl
    omega
  rw [isCharBoundary, Lib.isCharBoundary]
  cases (Lib.utf8 l)[i]? with
  | none => rfl
  | some b => exact congrArg _ (hbyte b)

theorem isCharBoundary_utf8_iff :
    isCharBoundary (Lib.utf8 l) i = true ↔ ∃ p q, l = p ++ q ∧ byteLen p = i := by
  simp only [isCharBoundary_utf8, isCharBoundary_iff, cutAt_eq_some_iff]

/-- A character has four bytes at most. -/
theorem exists_boundary (hi : i ≤ byteLen l) :
    ∃ p q, l = p ++ q ∧ i ≤ byteLen p ∧ byteLen p ≤ i + 3 := by
  induction l generalizing i with
  | nil => exact ⟨[], [], rfl, hi, Nat.zero_le _⟩
  | cons c l ih =>
      rcases Nat.eq_zero_or_pos i with rfl | hpos
      · exact ⟨[], c :: l, rfl, Nat.le_refl _, Nat.zero_le _⟩
      · rw [byteLen_cons] at hi
        have hsize := c.utf8Size_le_four
        obtain ⟨p, q, rfl, hle, hle'⟩ := ih (i := i - c.utf8Size) (by omega)
        rcases Nat.lt_or_ge i c.utf8Size with hlt | hge
        · exact ⟨[c], p ++ q, rfl, by simp; omega, by simp; omega⟩
        · exact ⟨c :: p, q, rfl, by rw [byteLen_cons]; omega, by rw [byteLen_cons]; omega⟩

theorem farEnd_le : farEnd cfg (Lib.utf8 l) a ≤ a + cfg.chunkChars + 3 := by
  obtain ⟨-, -, -, hleast⟩ := @ceilCharBoundarySafe_spec (Lib.utf8 l) _
    (Nat.min_le_right (a + cfg.chunkChars) (Lib.utf8 l).length)
  obtain ⟨p, q, hl, hle, hle'⟩ := exists_boundary (l := l)
    (i := min (a + cfg.chunkChars) (Lib.utf8 l).length)
    (by rw [← length_utf8]; exact Nat.min_le_right ..)
  have := hleast _ hle (isCharBoundary_utf8_iff.mpr ⟨p, q, hl, rfl⟩)
  rw [farEnd]
  omega

/-- An ASCII byte is a character. -/
theorem utf8EncodeChar_of_ascii (c : Char) :
    ∀ b ∈ String.utf8EncodeChar c, b.toNat < 0x80 → String.utf8EncodeChar c = [b] := by
  have hvalid := scalar_range c
  have hhigh {n : ℕ} (hn : 0x80 ≤ n) (hlt : n < 256) : ¬ (UInt8.ofNat n).toNat < 0x80 := by
    rw [toNat_ofNat_of_lt hlt]
    omega
  fun_cases String.utf8EncodeChar c with
  | case1 v h => simp
  | case2 v h₁ h₂ =>
      simp only [List.forall_mem_cons, List.not_mem_nil, false_implies, implies_true, and_true]
      exact ⟨fun h => absurd h (hhigh (by omega) (by omega)),
        fun h => absurd h (hhigh (by omega) (by omega))⟩
  | case3 v h₁ h₂ h₃ =>
      simp only [List.forall_mem_cons, List.not_mem_nil, false_implies, implies_true, and_true]
      exact ⟨fun h => absurd h (hhigh (by omega) (by omega)),
        fun h => absurd h (hhigh (by omega) (by omega)),
        fun h => absurd h (hhigh (by omega) (by omega))⟩
  | case4 v h₁ h₂ h₃ =>
      simp only [List.forall_mem_cons, List.not_mem_nil, false_implies, implies_true, and_true]
      exact ⟨fun h => absurd h (hhigh (by omega) (by omega)),
        fun h => absurd h (hhigh (by omega) (by omega)),
        fun h => absurd h (hhigh (by omega) (by omega)),
        fun h => absurd h (hhigh (by omega) (by omega))⟩

/-- Behind an ASCII byte is a boundary. -/
theorem isCharBoundary_succ {b : UInt8} (hb : (Lib.utf8 l)[i]? = some b) (hascii : b.toNat < 0x80) :
    isCharBoundary (Lib.utf8 l) (i + 1) = true := by
  rw [isCharBoundary_utf8_iff]
  induction l generalizing i with
  | nil => simp [Lib.utf8] at hb
  | cons c l ih =>
      have hsplit : Lib.utf8 (c :: l) = String.utf8EncodeChar c ++ Lib.utf8 l := rfl
      rw [hsplit] at hb
      rcases Nat.lt_or_ge i (String.utf8EncodeChar c).length with hlt | hge
      · rw [List.getElem?_append_left hlt] at hb
        have hone := utf8EncodeChar_of_ascii c b (List.mem_of_getElem? hb) hascii
        have hlen := congrArg List.length hone
        rw [List.length_singleton] at hlen
        refine ⟨[c], l, rfl, ?_⟩
        rw [byteLen_cons, ← String.length_utf8EncodeChar, hlen]
        simp
        omega
      · rw [List.getElem?_append_right hge] at hb
        obtain ⟨p, q, rfl, hp⟩ := ih hb
        refine ⟨c :: p, q, rfl, ?_⟩
        rw [byteLen_cons, hp, ← String.length_utf8EncodeChar]
        omega

/-- The end of a chunk of a text. -/
theorem endAt_spec :
    endAt cfg (Lib.utf8 l) a ≤ a + cfg.chunkChars + 3 ∧
      isCharBoundary (Lib.utf8 l) (endAt cfg (Lib.utf8 l) a) = true := by
  obtain ⟨hle, hlen, hboundary⟩ := @farEnd_spec cfg (Lib.utf8 l) a
  have hfar := @farEnd_le cfg a l
  rw [endAt]
  split
  · cases hfind : findParagraph
      (((Lib.utf8 l).take (farEnd cfg (Lib.utf8 l) a)).drop (zoneStart cfg a)) with
    | none => exact ⟨hfar, hboundary⟩
    | some rel =>
        obtain ⟨⟨-, -, hfeed⟩, hend⟩ := paragraphEnd_of_find hfind
        exact ⟨Nat.le_trans hend hfar, isCharBoundary_succ hfeed (by decide)⟩
  · exact ⟨by omega, isCharBoundary_length⟩

end Utf8

/-! ## §4  The next chunk goes on -/

/-- The next chunk ends inside the text and sees the paragraph at the end of this one in
its own last fifth. -/
def SeenAgain (cfg : Chunking) (text : Text) (a : ℕ) : Prop :=
  let next := nextStart cfg a (endAt cfg text a)
  ParagraphEnd text (zoneStart cfg next) (endAt cfg text a) ∧ farEnd cfg text next < text.length

/-- A chunk ends with the first paragraph that ends in its last fifth. -/
theorem endAt_le_of_paragraphEnd {p : ℕ} (hinside : farEnd cfg text a < text.length)
    (h : ParagraphEnd text (zoneStart cfg a) p) (hp : p ≤ farEnd cfg text a) :
    endAt cfg text a ≤ p := by
  obtain ⟨r, hfind, hle⟩ := find_of_paragraphEnd h hp
  rw [endAt, if_pos hinside]
  simp only [hfind]
  exact hle

theorem farEnd_lt_of_endAt (h : endAt cfg text a < text.length) :
    farEnd cfg text a < text.length := by
  by_contra hnot
  rw [endAt, if_neg hnot] at h
  exact Nat.lt_irrefl _ h

theorem endAt_le_farEnd (hinside : farEnd cfg text a < text.length) :
    endAt cfg text a ≤ farEnd cfg text a := by
  rw [endAt, if_pos hinside]
  split
  · rename_i rel hfind
    exact (paragraphEnd_of_find hfind).2
  · exact Nat.le_refl _

theorem nextStart_overlap : e - nextStart cfg a e ≤ min cfg.overlapChars (cfg.chunkChars - 1) := by
  simp only [nextStart]
  split <;> omega

theorem lt_endAt_next_iff (hpos : 0 < cfg.chunkChars) (hgo : a < endAt cfg text a)
    (hmore : endAt cfg text a < text.length) :
    endAt cfg text a < endAt cfg text (nextStart cfg a (endAt cfg text a)) ↔
      ¬ SeenAgain cfg text a := by
  have hfar := farEnd_lt_of_endAt hmore
  have hend := endAt_le_farEnd hfar
  have hlt : a < nextStart cfg a (endAt cfg text a) := lt_nextStart hgo
  have hover := @nextStart_overlap cfg a (endAt cfg text a)
  obtain ⟨hfarNext, -, -⟩ := @farEnd_spec cfg text (nextStart cfg a (endAt cfg text a))
  constructor
  · rintro hnext ⟨hpar, hinside⟩
    have hwindow : endAt cfg text a ≤ farEnd cfg text (nextStart cfg a (endAt cfg text a)) := by
      omega
    exact absurd (endAt_le_of_paragraphEnd hinside hpar hwindow) (Nat.not_le.mpr hnext)
  · intro hnot
    by_cases hinside : farEnd cfg text (nextStart cfg a (endAt cfg text a)) < text.length
    · rw [endAt.eq_def cfg text (nextStart cfg a (endAt cfg text a)), if_pos hinside]
      split
      · rename_i rel hfind
        obtain ⟨hpar, -⟩ := paragraphEnd_of_find hfind
        by_contra hback
        -- a paragraph that ends before this end of a chunk is the one at the end
        have hwide : ParagraphEnd text (zoneStart cfg a)
            (zoneStart cfg (nextStart cfg a (endAt cfg text a)) + rel + 2) := by
          refine ⟨?_, hpar.2⟩
          simp only [zoneStart]
          omega
        have hfirst := endAt_le_of_paragraphEnd hfar hwide (by omega)
        have heq : zoneStart cfg (nextStart cfg a (endAt cfg text a)) + rel + 2 =
            endAt cfg text a := by omega
        rw [heq] at hpar
        exact hnot ⟨hpar, hinside⟩
      · omega
    · rw [endAt.eq_def cfg text (nextStart cfg a (endAt cfg text a)), if_neg hinside]
      exact hmore

/-! ## §5  Coverage -/

/-- Chunks between these positions cover a text from `a` on. -/
structure Covers (cfg : Chunking) (text : Text) (a : ℕ) (cuts : List (ℕ × ℕ)) : Prop where
  first : cuts.head?.map Prod.fst = some a
  last : cuts.getLast?.map Prod.snd = some text.length
  chunk : ∀ c ∈ cuts, c.1 < c.2 ∧ c.2 ≤ text.length ∧ c.2 - c.1 ≤ cfg.chunkChars + 3 ∧
    isCharBoundary text c.1 = true ∧ isCharBoundary text c.2 = true
  next : cuts.IsChain fun c d => c.1 < d.1 ∧ d.1 ≤ c.2 ∧ c.2 < d.2 ∧
    c.2 - d.1 ≤ min cfg.overlapChars (cfg.chunkChars - 1)

/-- The text is chunked without a panic, and the chunks cover it. -/
def Covered (E : Type) (cfg : Chunking) (text : Text) (path source : String) (now : ℕ) : Prop :=
  ∃ cuts, chunkByChars E cfg text path source now =
      some (chunksAt E text path source now 0 cuts) ∧
    (text = [] ∧ cuts = [] ∨ Covers cfg text 0 cuts)

/-- Every byte is in a chunk. -/
theorem Covers.mem (h : Covers cfg text a cuts) (hi : a ≤ i) (hlen : i < text.length) :
    ∃ c ∈ cuts, c.1 ≤ i ∧ i < c.2 := by
  obtain ⟨hfirst, hlast, -, hnext⟩ := h
  induction cuts generalizing a with
  | nil => cases hfirst
  | cons c cuts ih =>
      obtain rfl : c.1 = a := by simpa using hfirst
      rcases Nat.lt_or_ge i c.2 with hin | hout
      · exact ⟨c, List.mem_cons_self, hi, hin⟩
      · cases cuts with
        | nil =>
            have : c.2 = text.length := by simpa using hlast
            omega
        | cons d cuts =>
            obtain ⟨⟨-, hle, -⟩, hnext⟩ := List.isChain_cons_cons.mp hnext
            obtain ⟨c', hmem, hc'⟩ := ih (a := d.1) (by omega) rfl (by simpa using hlast) hnext
            exact ⟨c', List.mem_cons_of_mem _ hmem, hc'⟩

/-- What the round that starts here needs: its positions are boundaries and its sums do not
overflow, and the next round does not end where this one does. -/
structure RoundOk (cfg : Chunking) (text : Text) (a : ℕ) : Prop where
  ends : EndDefined cfg text a
  start : isCharBoundary text a = true
  ahead : endAt cfg text a < text.length → ¬ SeenAgain cfg text a

theorem covers_of_roundOk {l : List Char} (hpos : 0 < cfg.chunkChars)
    (hok : ∀ k a, Starts cfg (Lib.utf8 l) k a → RoundOk cfg (Lib.utf8 l) a)
    (h : Starts cfg (Lib.utf8 l) k a) :
    ∃ cuts, Walk cfg (Lib.utf8 l) a cuts ∧ Covers cfg (Lib.utf8 l) a cuts ∧
      cuts.head? = some (a, endAt cfg (Lib.utf8 l) a) := by
  generalize hn : (Lib.utf8 l).length - a = n
  induction n using Nat.strongRecOn generalizing k a with
  | ind n ih =>
      obtain ⟨hdefined, hstart, hahead⟩ := hok k a h
      obtain ⟨hgo, hlen⟩ := endAt_bounds hpos h.lt
      obtain ⟨hsize, hboundary⟩ := @endAt_spec cfg a l
      have hend : chunkEnd cfg (Lib.utf8 l) a = some (endAt cfg (Lib.utf8 l) a) :=
        (chunkEnd_eq_some_iff hpos).mpr ⟨hdefined, rfl⟩
      have hchunk : a < endAt cfg (Lib.utf8 l) a ∧ endAt cfg (Lib.utf8 l) a ≤ (Lib.utf8 l).length ∧
          endAt cfg (Lib.utf8 l) a - a ≤ cfg.chunkChars + 3 ∧
          isCharBoundary (Lib.utf8 l) a = true ∧
          isCharBoundary (Lib.utf8 l) (endAt cfg (Lib.utf8 l) a) = true :=
        ⟨hgo, hlen, by omega, hstart, hboundary⟩
      rcases Nat.eq_or_lt_of_le hlen with hlast | hmore
      · refine ⟨[(a, endAt cfg (Lib.utf8 l) a)], .last hend (Nat.le_of_eq hlast.symm), ?_, rfl⟩
        exact ⟨rfl, congrArg some hlast, by simpa using hchunk, List.isChain_singleton _⟩
      · have hlt : a < nextStart cfg a (endAt cfg (Lib.utf8 l) a) := lt_nextStart hgo
        have hnext := h.next hend hmore
        have hinside := hnext.lt
        obtain ⟨cuts, hwalk, hcovers, hhead⟩ := ih _ (by omega) hnext rfl
        refine ⟨_ :: cuts, .more hend hmore hwalk, ⟨rfl, ?_, ?_, ?_⟩, rfl⟩
        · have hlast := hcovers.last
          cases cuts with
          | nil => cases hhead
          | cons d cuts => simpa using hlast
        · exact List.forall_mem_cons.mpr ⟨hchunk, hcovers.chunk⟩
        · refine List.isChain_cons.mpr ⟨fun d hd => ?_, hcovers.next⟩
          rw [hhead, Option.mem_some_iff] at hd
          subst hd
          exact ⟨hlt, nextStart_le, (lt_endAt_next_iff hpos hgo hmore).mpr (hahead hmore),
            nextStart_overlap⟩

/-- The cuts from a later start are the rest of the cuts. -/
theorem Starts.suffix (h : Starts cfg text k a) (hwalk : Walk cfg text 0 cuts) :
    ∃ rest, rest <:+ cuts ∧ Walk cfg text a rest := by
  induction h with
  | first _ => exact ⟨cuts, List.suffix_refl _, hwalk⟩
  | next _ hend hinside ih =>
      obtain ⟨rest, hrest, hwalk⟩ := ih
      cases hwalk with
      | last hend' hlast =>
          rw [hend] at hend'
          cases hend'
          omega
      | more hend' _ hwalk =>
          rw [hend] at hend'
          cases hend'
          exact ⟨_, (List.suffix_cons _ _).trans hrest, hwalk⟩

/-- The end of a cut is in the id of its chunk and its size in the content. -/
theorem chunksAt_inj (h : chunksAt E text path source now k cuts =
      chunksAt E text path source now k cuts')
    (hcuts : ∀ c ∈ cuts, c.1 ≤ c.2 ∧ c.2 ≤ text.length)
    (hcuts' : ∀ c ∈ cuts', c.1 ≤ c.2 ∧ c.2 ≤ text.length) : cuts = cuts' := by
  induction cuts generalizing k cuts' with
  | nil =>
      cases cuts' with
      | nil => rfl
      | cons c' cuts' => cases h
  | cons c cuts ih =>
      cases cuts' with
      | nil => cases h
      | cons c' cuts' =>
          obtain ⟨hc, hcuts⟩ := List.forall_mem_cons.mp hcuts
          obtain ⟨hc', hcuts'⟩ := List.forall_mem_cons.mp hcuts'
          obtain ⟨hhead, htail⟩ := List.cons.inj h
          obtain ⟨-, -, hend⟩ := chunkId_inj (congrArg MemoryChunk.id hhead)
          have hbody := congrArg (fun c => c.content.length) hhead
          simp only [mkChunk, List.length_drop, List.length_take] at hbody
          rw [ih htail hcuts hcuts', Prod.ext (show c.1 = c'.1 by omega) hend]

theorem Walk.bounds (hpos : 0 < cfg.chunkChars) (hstart : a < text.length)
    (h : Walk cfg text a cuts) : ∀ c ∈ cuts, c.1 < c.2 ∧ c.2 ≤ text.length := by
  induction h with
  | last hend _ =>
      obtain ⟨-, rfl⟩ := (chunkEnd_eq_some_iff hpos).mp hend
      simpa using endAt_bounds hpos hstart
  | more hend hinside _ ih =>
      obtain ⟨-, rfl⟩ := (chunkEnd_eq_some_iff hpos).mp hend
      exact List.forall_mem_cons.mpr
        ⟨endAt_bounds hpos hstart, ih (Nat.lt_of_le_of_lt nextStart_le hinside)⟩

theorem roundOk_of_walk (hpos : 0 < cfg.chunkChars) (hstart : a < text.length)
    (hwalk : Walk cfg text a cuts) (hslice : ∀ c ∈ cuts, Sliceable text c)
    (hnext : cuts.IsChain fun c d => c.2 < d.2) : RoundOk cfg text a := by
  cases hwalk with
  | last hend hlast =>
      obtain ⟨hdefined, rfl⟩ := (chunkEnd_eq_some_iff hpos).mp hend
      obtain ⟨-, hb, -⟩ := hslice _ List.mem_cons_self
      exact ⟨hdefined, hb, fun hmore => absurd hmore (Nat.not_lt.mpr hlast)⟩
  | more hend hinside hwalk =>
      have hgo := lt_chunkEnd hpos hstart hend
      obtain ⟨hdefined, rfl⟩ := (chunkEnd_eq_some_iff hpos).mp hend
      obtain ⟨-, hb, -⟩ := hslice _ List.mem_cons_self
      refine ⟨hdefined, hb, fun hmore => ?_⟩
      apply (lt_endAt_next_iff hpos hgo hmore).mp
      -- the next cut starts at the next start
      cases hwalk with
      | last hend' _ =>
          obtain ⟨-, rfl⟩ := (chunkEnd_eq_some_iff hpos).mp hend'
          exact (List.isChain_cons_cons.mp hnext).1
      | more hend' _ _ =>
          obtain ⟨-, rfl⟩ := (chunkEnd_eq_some_iff hpos).mp hend'
          exact (List.isChain_cons_cons.mp hnext).1

theorem covered_of_roundOk {l : List Char} (hpos : 0 < cfg.chunkChars)
    (hok : ∀ k a, Starts cfg (Lib.utf8 l) k a → RoundOk cfg (Lib.utf8 l) a) :
    Covered E cfg (Lib.utf8 l) path source now := by
  by_cases hempty : Lib.utf8 l = []
  · exact ⟨[], by rw [chunkByChars, if_pos hempty]; rfl, Or.inl ⟨hempty, rfl⟩⟩
  · have hlen := List.length_pos_iff.mpr hempty
    obtain ⟨cuts, hwalk, hcovers, -⟩ := covers_of_roundOk hpos hok (.first hlen)
    refine ⟨cuts, (chunkByChars_eq_some_iff hpos hempty).mpr ⟨cuts, hwalk, ?_, rfl⟩,
      Or.inr hcovers⟩
    intro c hc
    obtain ⟨hlt, -, -, hb, hb'⟩ := hcovers.chunk c hc
    exact ⟨Nat.le_of_lt hlt, hb, hb'⟩

theorem isCharBoundary_ascii {l : List Char} (hascii : ∀ c ∈ l, c.toNat < 0x80)
    (hi : i ≤ (Lib.utf8 l).length) : isCharBoundary (Lib.utf8 l) i = true := by
  have hone (p : List Char) (hp : p <+: l) : byteLen p = p.length := by
    induction p using List.reverseRecOn with
    | nil => rfl
    | append_singleton p c ih =>
        have hc := hascii c (hp.subset (by simp))
        have hsize : c.utf8Size = 1 := by
          rw [Char.utf8Size_eq_one_iff]
          exact Nat.le_of_lt_succ hc
        simp [ih ((List.prefix_append p [c]).trans hp), hsize]
  rw [length_utf8, hone l (List.prefix_refl l)] at hi
  refine isCharBoundary_utf8_iff.mpr ⟨l.take i, l.drop i, (List.take_append_drop i l).symm, ?_⟩
  rw [hone _ (List.take_prefix i l), List.length_take, Nat.min_eq_left hi]

/-- ASCII texts are covered by chunks that overlap in four fifths of their size at most. -/
theorem covered_of_ascii {l : List Char} (hpos : 0 < cfg.chunkChars)
    (hascii : ∀ c ∈ l, c.toNat < 0x80) (hover : cfg.overlapChars ≤ cfg.chunkChars * 4 / 5 + 1)
    (hsize : cfg.chunkChars * 4 < 2 ^ 64) (hlen : (Lib.utf8 l).length + cfg.chunkChars < 2 ^ 64) :
    Covered E cfg (Lib.utf8 l) path source now := by
  apply covered_of_roundOk hpos
  intro k a hstarts
  have hlt := hstarts.lt
  refine ⟨⟨by omega, hsize, fun hinside => ?_⟩, isCharBoundary_ascii hascii (Nat.le_of_lt hlt), ?_⟩
  · have := zoneStart_lt_farEnd hpos hinside
    exact isCharBoundary_ascii hascii (by omega)
  · rintro - ⟨⟨hpar, -⟩, -⟩
    have := @nextStart_overlap cfg a (endAt cfg (Lib.utf8 l) a)
    rw [zoneStart] at hpar
    omega

/-- **Coverage.** The chunks of a text cover it just when every round finds what it needs. -/
theorem covered_iff (l : List Char) (hpos : 0 < cfg.chunkChars) :
    Covered E cfg (Lib.utf8 l) path source now ↔
      ∀ k a, Starts cfg (Lib.utf8 l) k a → RoundOk cfg (Lib.utf8 l) a := by
  constructor
  · rintro ⟨cuts, hchunks, hcovers⟩ k a hstarts
    have hne : Lib.utf8 l ≠ [] := List.length_pos_iff.mp (Nat.zero_lt_of_lt hstarts.lt)
    obtain ⟨hempty, -⟩ | hcovers := hcovers
    · exact absurd hempty hne
    obtain ⟨cuts', hwalk, hslice, heq⟩ := (chunkByChars_eq_some_iff hpos hne).mp hchunks
    have hbounds := hwalk.bounds hpos (List.length_pos_iff.mpr hne)
    obtain rfl : cuts = cuts' := chunksAt_inj heq
      (fun c hc => ⟨Nat.le_of_lt (hcovers.chunk c hc).1, (hcovers.chunk c hc).2.1⟩)
      (fun c hc => ⟨Nat.le_of_lt (hbounds c hc).1, (hbounds c hc).2⟩)
    obtain ⟨rest, hrest, hwalk⟩ := hstarts.suffix hwalk
    apply roundOk_of_walk hpos hstarts.lt hwalk
    · exact fun c hc => hslice c (hrest.mem hc)
    · exact (hcovers.next.imp fun _ _ h => h.2.2.1).suffix hrest
  · exact covered_of_roundOk hpos

/-- Four characters a chunk, and an overlap of one. -/
theorem covered_iff_letters :
    (Covered Unit ⟨4, 1⟩ (Lib.utf8 ['a', 'b', 'c', 'd', 'e', 'f']) "notes" "file" 0) ∧
      ∀ k a, Starts ⟨4, 1⟩ (Lib.utf8 ['a', 'b', 'c', 'd', 'e', 'f']) k a →
        RoundOk ⟨4, 1⟩ (Lib.utf8 ['a', 'b', 'c', 'd', 'e', 'f']) a := by
  have hcovered :
      Covered Unit ⟨4, 1⟩ (Lib.utf8 ['a', 'b', 'c', 'd', 'e', 'f']) "notes" "file" 0 := by
    refine ⟨[(0, 4), (3, 6)], by decide, Or.inr ⟨rfl, by decide, by decide, ?_⟩⟩
    exact .cons_cons (by decide) (.singleton _)
  exact ⟨hcovered, (covered_iff ['a', 'b', 'c', 'd', 'e', 'f'] (by decide)).mp hcovered⟩

/-- Four characters of two bytes, in chunks of four bytes: the last fifth of the first chunk
starts inside a character. -/
theorem not_covered_accents :
    ¬ ∀ (cfg : Chunking) (l : List Char), 0 < cfg.chunkChars →
      Covered Unit cfg (Lib.utf8 l) "notes" "file" 0 := by
  intro h
  obtain ⟨cuts, hchunks, -⟩ := h ⟨4, 0⟩ ['é', 'é', 'é', 'é'] (by decide)
  have hpanic : chunkByChars Unit ⟨4, 0⟩ (Lib.utf8 ['é', 'é', 'é', 'é']) "notes" "file" 0 =
      none := by decide
  rw [hpanic] at hchunks
  cases hchunks

/-! ## §6  Line numbers -/

/-- The number of the line of a byte, from one. -/
def lineOf (text : Text) (i : ℕ) : ℕ := 1 + (text.take i).count 10

/-- The chunk of these bytes has the numbers of the lines of its first and its last. -/
def LineNumbersRight (text : Text) (chunk : MemoryChunk E) (s e : ℕ) : Prop :=
  chunk.startLine = lineOf text s ∧ chunk.endLine = lineOf text (e - 1)

/-- A text that ends in the middle of a line has one line more than line feeds. -/
theorem lineCount_eq_count_iff : lineCount text = text.count 10 ↔
    text = [] ∨ text[text.length - 1]? = some 10 := by
  rw [← List.getLast?_eq_getElem?]
  rcases text.eq_nil_or_concat with rfl | ⟨init, b, rfl⟩
  · simp [lineCount]
  · simp [lineCount]

theorem lineCount_pred {b : UInt8} (init : Text) :
    lineCount (init ++ [b]) - 1 = init.count 10 := by
  by_cases hb : b = 10
  · simp [lineCount, hb]
  · simp [lineCount, hb]

theorem mkChunk_lines (hlt : a < e) (hlen : e ≤ text.length) :
    LineNumbersRight text (mkChunk E text path source now k a e ((text.take e).drop a)) a e ↔
      a = 0 ∨ text[a - 1]? = some 10 := by
  have hlines : lineCount (text.take a) = (text.take a).count 10 ↔
      a = 0 ∨ text[a - 1]? = some 10 := by
    rw [lineCount_eq_count_iff, List.length_take, Nat.min_eq_left (by omega)]
    cases a with
    | zero => simp
    | succ a =>
        have htext : text ≠ [] := by
          rintro rfl
          simp at hlen
          omega
        simp [htext]
  -- the body without its last byte has the line feeds between the two lines
  have hbody : (text.take e).drop a = (text.take (e - 1)).drop a ++ [text[e - 1]] := by
    have htake : text.take e = text.take (e - 1) ++ [text[e - 1]] := by
      rw [List.take_append_getElem]
      congr 1
      omega
    rw [htake, List.drop_append_of_le_length (by simp; omega)]
  have hcount : (text.take (e - 1)).count 10 =
      (text.take a).count 10 + ((text.take (e - 1)).drop a).count 10 := by
    rw [← List.count_append]
    congr 1
    conv_lhs => rw [← List.take_append_drop a (text.take (e - 1))]
    rw [List.take_take, Nat.min_eq_left (by omega)]
  rw [← hlines, LineNumbersRight, mkChunk, lineOf, lineOf, hbody, lineCount_pred, hcount]
  dsimp only
  omega

theorem chunksAt_getElem? :
    (chunksAt E text path source now k cuts)[i]? =
      cuts[i]?.map fun c =>
        mkChunk E text path source now (k + i) c.1 c.2 ((text.take c.2).drop c.1) := by
  induction cuts generalizing k i with
  | nil => simp [chunksAt]
  | cons c cuts ih =>
      cases i with
      | zero => rfl
      | succ i =>
          rw [chunksAt, List.getElem?_cons_succ, List.getElem?_cons_succ, ih,
            Nat.add_right_comm, Nat.add_assoc]

/-- Chunks of no characters: the loop stays at the start. -/
theorem chunkLoop_of_zero (hzero : cfg.chunkChars = 0) (hne : text ≠ []) :
    chunkLoop E cfg text path source now fuel k 0 = none := by
  have hlen := List.length_pos_iff.mpr hne
  have hend : chunkEnd cfg text 0 = some 0 := by
    obtain ⟨-, -, -, hleast⟩ := @ceilCharBoundarySafe_spec text 0 (Nat.zero_le _)
    have hceil := Nat.le_zero.mp (hleast 0 (Nat.le_refl _) rfl)
    simp [chunkEnd, usize, hzero, hceil]
  induction fuel generalizing k with
  | zero => rfl
  | succ fuel ih =>
      have hslice : slice text 0 0 = some [] := by simp [slice, isCharBoundary]
      have hnext : nextStart cfg 0 0 = 0 := by simp [nextStart]
      simp [chunkLoop, hlen, hend, hslice, hnext, hne, ih]

/-- This chunk is number `k`, with the bytes from `s` to `e`. -/
structure IsChunk (text : Text) (path : String) (k s e : ℕ) (chunk : MemoryChunk E) : Prop where
  lt : s < e
  le : e ≤ text.length
  id : chunk.id = chunkId path k e
  content : chunk.content = (text.take e).drop s

theorem isChunk_of_mem (h : chunkByChars E cfg text path source now = some chunks)
    (hk : chunks[k]? = some chunk) :
    ∃ s e, IsChunk text path k s e chunk ∧
      chunk = mkChunk E text path source now k s e ((text.take e).drop s) := by
  by_cases hne : text = []
  · rw [chunkByChars, if_pos hne] at h
    cases h
    simp at hk
  · rcases Nat.eq_zero_or_pos cfg.chunkChars with hzero | hpos
    · rw [chunkByChars, if_neg hne, chunkLoop_of_zero hzero hne] at h
      cases h
    · obtain ⟨cuts, hwalk, -, rfl⟩ := (chunkByChars_eq_some_iff hpos hne).mp h
      rw [chunksAt_getElem?] at hk
      obtain ⟨⟨s, e⟩, hget, rfl⟩ := Option.map_eq_some_iff.mp hk
      obtain ⟨hlt, hle⟩ :=
        hwalk.bounds hpos (List.length_pos_iff.mpr hne) _ (List.mem_of_getElem? hget)
      rw [Nat.zero_add]
      exact ⟨s, e, ⟨hlt, hle, rfl, rfl⟩, rfl⟩

theorem IsChunk.unique {s s' e' : ℕ} (h : IsChunk text path k s e chunk)
    (h' : IsChunk text path k s' e' chunk) : s = s' ∧ e = e' := by
  obtain ⟨-, -, rfl⟩ := chunkId_inj (h.id.symm.trans h'.id)
  have hlen := congrArg List.length (h.content.symm.trans h'.content)
  have := h.lt
  have := h.le
  have := h'.lt
  simp only [List.length_drop, List.length_take] at hlen
  exact ⟨by omega, rfl⟩

/-- **Line numbers.** The numbers of a chunk are right just when it starts with a line. -/
theorem lineNumbers_right_iff (h : chunkByChars E cfg text path source now = some chunks)
    (hk : chunks[k]? = some chunk) :
    (∃ s e, IsChunk text path k s e chunk) ∧
      ∀ s e, IsChunk text path k s e chunk →
        (LineNumbersRight text chunk s e ↔ s = 0 ∨ text[s - 1]? = some 10) := by
  obtain ⟨s, e, hchunk, hmade⟩ := isChunk_of_mem h hk
  refine ⟨⟨s, e, hchunk⟩, fun s' e' hchunk' => ?_⟩
  obtain ⟨rfl, rfl⟩ := hchunk.unique hchunk'
  rw [hmade]
  exact mkChunk_lines hchunk.lt hchunk.le

/-- A note of two lines, cut behind the first. -/
theorem lineNumbers_right_iff_lines :
    LineNumbersRight (Lib.utf8 ['a', 'b', '\n', 'c', 'd', 'e'])
      (mkChunk Unit (Lib.utf8 ['a', 'b', '\n', 'c', 'd', 'e']) "notes" "file" 0 1 3 6
        (Lib.utf8 ['c', 'd', 'e'])) 3 6 := by
  have hchunks :
      chunkByChars Unit ⟨3, 0⟩ (Lib.utf8 ['a', 'b', '\n', 'c', 'd', 'e']) "notes" "file" 0 =
        some (chunksAt Unit (Lib.utf8 ['a', 'b', '\n', 'c', 'd', 'e']) "notes" "file" 0 0
          [(0, 3), (3, 6)]) := by decide
  refine ((@lineNumbers_right_iff _ _ _ _ _ _ 1 _ _ hchunks rfl).2 3 6 ?_).mpr (Or.inr ?_)
  · exact ⟨by decide, by decide, rfl, by decide⟩
  · decide

/-- One line in two chunks: the second is said to start on the second line. -/
theorem not_lineNumbers_right :
    ¬ ∀ (cfg : Chunking) (text : Text) (chunks : List (MemoryChunk Unit)) (k s e : ℕ)
      (chunk : MemoryChunk Unit), (∀ b ∈ text, b < 0x80) →
      chunkByChars Unit cfg text "notes" "file" 0 = some chunks → chunks[k]? = some chunk →
      IsChunk text "notes" k s e chunk → LineNumbersRight text chunk s e := by
  intro h
  have hwrong := (h ⟨4, 1⟩ (Lib.utf8 ['a', 'b', 'c', 'd', 'e', 'f'])
    (chunksAt Unit (Lib.utf8 ['a', 'b', 'c', 'd', 'e', 'f']) "notes" "file" 0 0 [(0, 4), (3, 6)])
    1 3 6 _ (by decide +kernel) (by decide) rfl
    ⟨by decide, by decide, rfl, by decide⟩).1
  exact absurd hwrong (by decide)

end Coverage

end Oclaw.MemoryCore
