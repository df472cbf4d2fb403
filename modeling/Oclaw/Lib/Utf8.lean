import Mathlib.Data.List.Basic

/-!
# Lossy UTF-8 decoding

`fromUtf8Lossy` is `String::from_utf8_lossy`: every maximal start of a character
that is not continued, and every byte that cannot start one, is replaced by U+FFFD.
The decoder reads one byte at a time and keeps the unfinished character. Encoded
text decodes to itself, and a text that is cut before decoding decodes to itself
exactly when no piece starts inside a character.
-/

namespace Oclaw.Lib

/-! ## Decoding -/

/-- An unfinished character: the bytes it needs behind the next one, the range of
the next one, which is a continuation byte, and the value read so far. -/
structure Pending : Type where
  more : ℕ
  low : ℕ
  high : ℕ
  value : ℕ
  low_tail : 0x80 ≤ low
  high_tail : high ≤ 0xBF

/-- Behind the first byte of a character of two bytes. -/
def Pending.two (n : ℕ) : Pending := ⟨0, 0x80, 0xBF, n - 0xC0, by decide, by decide⟩

/-- Behind the first byte of a character of three bytes. Overlong forms and
surrogates are ruled out by the second one. -/
def Pending.three (n : ℕ) : Pending where
  more := 1
  low := if n = 0xE0 then 0xA0 else 0x80
  high := if n = 0xED then 0x9F else 0xBF
  value := n - 0xE0
  low_tail := by split <;> decide
  high_tail := by split <;> decide

/-- Behind the first byte of a character of four bytes. Overlong forms and values
above U+10FFFF are ruled out by the second one. -/
def Pending.four (n : ℕ) : Pending where
  more := 2
  low := if n = 0xF0 then 0x90 else 0x80
  high := if n = 0xF4 then 0x8F else 0xBF
  value := n - 0xF0
  low_tail := by split <;> decide
  high_tail := by split <;> decide

inductive Scan : Type where
  | char (c : Char)
  | more (p : Pending)
  | bad

/-- A byte at the start of a character. -/
@[grind =]
def lead (b : UInt8) : Scan :=
  let n := b.toNat
  if n < 0x80 then .char (Char.ofNat n)
  else if 0xC2 ≤ n ∧ n ≤ 0xDF then .more (.two n)
  else if 0xE0 ≤ n ∧ n ≤ 0xEF then .more (.three n)
  else if 0xF0 ≤ n ∧ n ≤ 0xF4 then .more (.four n)
  else .bad

@[grind =]
def Pending.next (p : Pending) (b : UInt8) : Scan :=
  let n := b.toNat
  if p.low ≤ n ∧ n ≤ p.high then
    let value := p.value * 64 + (n - 0x80)
    match p.more with
    | 0 => .char (Char.ofNat value)
    | k + 1 => .more ⟨k, 0x80, 0xBF, value, by decide, by decide⟩
  else .bad

def replacement : Char := Char.ofNat 0xFFFD

/-- What a scanned byte adds to the decoded text; `rest` decodes the bytes behind it. -/
@[grind =]
def Scan.emit (rest : Option Pending → List Char) : Scan → List Char
  | .char c => c :: rest none
  | .more p => rest (some p)
  | .bad => replacement :: rest none

@[grind =]
def lossyFrom : Option Pending → List UInt8 → List Char
  | none, [] => []
  | some _, [] => [replacement]
  | none, b :: bs => (lead b).emit (fun p => lossyFrom p bs)
  | some p, b :: bs =>
      match p.next b with
      | .char c => c :: lossyFrom none bs
      | .more q => lossyFrom (some q) bs
      -- the byte is not part of the unfinished character and may start another one
      | .bad => replacement :: (lead b).emit (fun p => lossyFrom p bs)

/-- `String::from_utf8_lossy` -/
def fromUtf8Lossy (bs : List UInt8) : List Char := lossyFrom none bs

/-- `str::as_bytes` -/
def utf8 (cs : List Char) : List UInt8 := cs.flatMap String.utf8EncodeChar

/-! ## Encoded text decodes to itself -/

theorem toNat_ofNat_of_lt {n : ℕ} (h : n < 256) : (UInt8.ofNat n).toNat = n := by
  simp [Nat.mod_eq_of_lt h]

/-- A character is a Unicode scalar value. -/
theorem scalar_range (c : Char) :
    c.val.toNat < 0xD800 ∨ 0xDFFF < c.val.toNat ∧ c.val.toNat < 0x110000 := c.valid

theorem lossyFrom_ascii {b : UInt8} (h : b.toNat < 0x80) (bs : List UInt8) :
    lossyFrom none (b :: bs) = Char.ofNat b.toNat :: lossyFrom none bs := by
  simp only [lossyFrom, lead, if_pos h, Scan.emit]

theorem lossyFrom_lead {b : UInt8} {p : Pending} (h : lead b = .more p) (bs : List UInt8) :
    lossyFrom none (b :: bs) = lossyFrom (some p) bs := by
  simp only [lossyFrom, h, Scan.emit]

theorem lossyFrom_two {b : UInt8} (h : 0xC2 ≤ b.toNat ∧ b.toNat ≤ 0xDF) (bs : List UInt8) :
    lossyFrom none (b :: bs) = lossyFrom (some (.two b.toNat)) bs := by
  have hlead : lead b = .more (.two b.toNat) := by
    unfold lead
    rw [if_neg (by omega), if_pos h]
  exact lossyFrom_lead hlead bs

theorem lossyFrom_three {b : UInt8} (h : 0xE0 ≤ b.toNat ∧ b.toNat ≤ 0xEF) (bs : List UInt8) :
    lossyFrom none (b :: bs) = lossyFrom (some (.three b.toNat)) bs := by
  have hlead : lead b = .more (.three b.toNat) := by
    unfold lead
    rw [if_neg (by omega), if_neg (by omega), if_pos h]
  exact lossyFrom_lead hlead bs

theorem lossyFrom_four {b : UInt8} (h : 0xF0 ≤ b.toNat ∧ b.toNat ≤ 0xF4) (bs : List UInt8) :
    lossyFrom none (b :: bs) = lossyFrom (some (.four b.toNat)) bs := by
  have hlead : lead b = .more (.four b.toNat) := by
    unfold lead
    rw [if_neg (by omega), if_neg (by omega), if_neg (by omega), if_pos h]
  exact lossyFrom_lead hlead bs

/-- A continuation byte in range takes an unfinished character one byte further. -/
theorem lossyFrom_tail {p : Pending} {b : UInt8} {k : ℕ} (hmore : p.more = k + 1)
    (h : p.low ≤ b.toNat ∧ b.toNat ≤ p.high) (bs : List UInt8) :
    lossyFrom (some p) (b :: bs) =
      lossyFrom (some ⟨k, 0x80, 0xBF, p.value * 64 + (b.toNat - 0x80), by decide, by decide⟩)
        bs := by
  simp only [lossyFrom, Pending.next, if_pos h, hmore]

theorem lossyFrom_last {p : Pending} {b : UInt8} (hmore : p.more = 0)
    (h : p.low ≤ b.toNat ∧ b.toNat ≤ p.high) (bs : List UInt8) :
    lossyFrom (some p) (b :: bs) =
      Char.ofNat (p.value * 64 + (b.toNat - 0x80)) :: lossyFrom none bs := by
  simp only [lossyFrom, Pending.next, if_pos h, hmore]

theorem lossyFrom_encoded (c : Char) (bs : List UInt8) :
    lossyFrom none (String.utf8EncodeChar c ++ bs) = c :: lossyFrom none bs := by
  have hvalid := scalar_range c
  have hchar : ∀ n, n = c.val.toNat → Char.ofNat n = c := by
    rintro n rfl
    exact Char.ofNat_toNat c
  have htail : ∀ n, (UInt8.ofNat (n % 0x40 + 0x80)).toNat = n % 0x40 + 0x80 :=
    fun n => toNat_ofNat_of_lt (by omega)
  -- by the number of bytes
  fun_cases String.utf8EncodeChar c with
  | case1 v h =>
      have hlead : (UInt8.ofNat v).toNat = v := toNat_ofNat_of_lt (by omega)
      simp only [List.cons_append, List.nil_append]
      rw [lossyFrom_ascii (by omega), hlead, hchar v rfl]
  | case2 v h₁ h₂ =>
      have hlead : (UInt8.ofNat (v / 64 % 0x20 + 0xc0)).toNat = v / 64 % 0x20 + 0xc0 :=
        toNat_ofNat_of_lt (by omega)
      simp only [List.cons_append, List.nil_append]
      rw [lossyFrom_two (by omega), lossyFrom_last rfl (by simp only [Pending.two, htail]; omega)]
      rw [hchar]
      simp only [Pending.two, hlead, htail]
      omega
  | case3 v h₁ h₂ h₃ =>
      have hlead : (UInt8.ofNat (v / 4096 % 0x10 + 0xe0)).toNat = v / 4096 % 0x10 + 0xe0 :=
        toNat_ofNat_of_lt (by omega)
      simp only [List.cons_append, List.nil_append]
      rw [lossyFrom_three (by omega), lossyFrom_tail rfl,
        lossyFrom_last rfl (by simp only [htail]; omega)]
      · rw [hchar]
        simp only [Pending.three, hlead, htail]
        omega
      · simp only [Pending.three, hlead, htail]
        split <;> split <;> omega
  | case4 v h₁ h₂ h₃ =>
      have hlead : (UInt8.ofNat (v / 262144 % 0x08 + 0xf0)).toNat = v / 262144 % 0x08 + 0xf0 :=
        toNat_ofNat_of_lt (by omega)
      simp only [List.cons_append, List.nil_append]
      rw [lossyFrom_four (by omega), lossyFrom_tail rfl,
        lossyFrom_tail rfl (by simp only [htail]; omega),
        lossyFrom_last rfl (by simp only [htail]; omega)]
      · rw [hchar]
        simp only [Pending.four, hlead, htail]
        omega
      · simp only [Pending.four, hlead, htail]
        split <;> split <;> omega

theorem fromUtf8Lossy_utf8 (cs : List Char) : fromUtf8Lossy (utf8 cs) = cs := by
  induction cs with
  | nil => rfl
  | cons c cs ih =>
      change lossyFrom none (String.utf8EncodeChar c ++ utf8 cs) = c :: cs
      rw [lossyFrom_encoded]
      exact congrArg _ ih

/-! ## Text that is cut before decoding -/

/-- A continuation byte. -/
def isTail (b : UInt8) : Bool := 0x80 ≤ b.toNat && b.toNat ≤ 0xBF

/-- The piece starts behind the first byte of a character. -/
def startsInside : List UInt8 → Bool
  | [] => false
  | b :: _ => isTail b

/-- The number of characters that start in a sequence of bytes. -/
def starts (bs : List UInt8) : ℕ := bs.countP (fun b => !isTail b)

theorem lead_of_isTail {b : UInt8} (h : isTail b = true) : lead b = .bad := by
  obtain ⟨hlow, hhigh⟩ : 0x80 ≤ b.toNat ∧ b.toNat ≤ 0xBF := by simpa [isTail] using h
  unfold lead
  rw [if_neg (by omega), if_neg (by omega), if_neg (by omega), if_neg (by omega)]

theorem Pending.next_of_not_isTail {p : Pending} {b : UInt8} (h : isTail b = false) :
    p.next b = .bad := by
  have hout : ¬ (0x80 ≤ b.toNat ∧ b.toNat ≤ 0xBF) := by simpa [isTail] using h
  have := p.low_tail
  have := p.high_tail
  unfold Pending.next
  rw [if_neg (by omega)]

/-- Every start of a character, finished or not, leaves a character behind. -/
theorem starts_le_length_lossyFrom (p : Option Pending) (bs : List UInt8) :
    starts bs + (if p.isSome then 1 else 0) ≤ (lossyFrom p bs).length := by
  induction bs generalizing p with
  | nil => cases p <;> simp [lossyFrom, starts]
  | cons b bs ih =>
      have hnone := ih none
      have hsome : ∀ q, starts bs + 1 ≤ (lossyFrom (some q) bs).length := fun q => ih (some q)
      have hemit : starts bs + (if isTail b then 0 else 1) ≤
          ((lead b).emit (fun p => lossyFrom p bs)).length := by
        cases hlead : lead b with
        | char c | bad =>
            simp only [Scan.emit, List.length_cons]
            simp only [Option.isSome_none, Bool.false_eq_true, if_false] at hnone
            split <;> omega
        | more q =>
            have := hsome q
            simp only [Scan.emit]
            split <;> omega
      have hstarts : starts (b :: bs) = starts bs + (if isTail b then 0 else 1) := by
        cases h : isTail b <;> simp [starts, h]
      rw [hstarts]
      cases p with
      | none => exact hemit
      | some q =>
          cases htail : isTail b with
          | false =>
              simp only [lossyFrom, Pending.next_of_not_isTail htail, List.length_cons]
              simp only [htail, Bool.false_eq_true, if_false] at hemit
              simp only [Bool.false_eq_true, if_false, Option.isSome_some, if_true]
              omega
          | true =>
              simp only [lossyFrom, htail, if_true, Option.isSome_some] at hemit ⊢
              simp only [Option.isSome_none, Bool.false_eq_true, if_false] at hnone
              cases q.next b with
              | char c => simp only [List.length_cons]; omega
              | more r => exact hsome r
              | bad => simp only [List.length_cons]; omega

/-- A piece that starts inside a character leaves a character more behind. -/
theorem starts_le_length_fromUtf8Lossy (bs : List UInt8) :
    starts bs + (if startsInside bs then 1 else 0) ≤ (fromUtf8Lossy bs).length := by
  cases bs with
  | nil => simp [starts, startsInside]
  | cons b bs =>
      cases h : isTail b with
      | false => simpa [startsInside, h] using! starts_le_length_lossyFrom none (b :: bs)
      | true =>
          have := starts_le_length_lossyFrom none bs
          simpa [startsInside, h, starts, fromUtf8Lossy, lossyFrom, lead_of_isTail h, Scan.emit]
            using this

theorem utf8EncodeChar_eq (c : Char) :
    ∃ b bs, String.utf8EncodeChar c = b :: bs ∧ isTail b = false ∧ ∀ x ∈ bs, isTail x = true := by
  have hvalid := scalar_range c
  have htail : ∀ n, isTail (UInt8.ofNat (n % 0x40 + 0x80)) = true := by
    intro n
    rw [isTail, toNat_ofNat_of_lt (by omega)]
    simp
    omega
  have hlead : ∀ n, n < 0x80 ∨ 0xC0 ≤ n ∧ n < 256 → isTail (UInt8.ofNat n) = false := by
    intro n h
    rw [isTail, toNat_ofNat_of_lt (by omega)]
    simp
    omega
  fun_cases String.utf8EncodeChar c with
  | case1 v h => exact ⟨_, _, rfl, hlead _ (by omega), by simp⟩
  | case2 v h₁ h₂ =>
      refine ⟨_, _, rfl, hlead _ (by omega), ?_⟩
      simp only [List.forall_mem_cons, htail, List.not_mem_nil, false_implies, implies_true,
        and_self]
  | case3 v h₁ h₂ h₃ =>
      refine ⟨_, _, rfl, hlead _ (by omega), ?_⟩
      simp only [List.forall_mem_cons, htail, List.not_mem_nil, false_implies, implies_true,
        and_self]
  | case4 v h₁ h₂ h₃ =>
      refine ⟨_, _, rfl, hlead _ (by omega), ?_⟩
      simp only [List.forall_mem_cons, htail, List.not_mem_nil, false_implies, implies_true,
        and_self]

theorem starts_append (bs cs : List UInt8) : starts (bs ++ cs) = starts bs + starts cs :=
  List.countP_append ..

theorem starts_utf8 (cs : List Char) : starts (utf8 cs) = cs.length := by
  induction cs with
  | nil => rfl
  | cons c cs ih =>
      obtain ⟨b, bs, henc, hb, hbs⟩ := utf8EncodeChar_eq c
      change starts (String.utf8EncodeChar c ++ utf8 cs) = cs.length + 1
      have hone : starts (String.utf8EncodeChar c) = 1 := by
        rw [henc]
        simpa [starts, hb] using hbs
      rw [starts_append, hone, ih, Nat.add_comm]

/-- Encoded text that is cut outside of characters is cut into encoded texts. -/
theorem utf8_cut {a b : List UInt8} {cs : List Char} (h : a ++ b = utf8 cs)
    (hb : startsInside b = false) : ∃ ds es, cs = ds ++ es ∧ a = utf8 ds ∧ b = utf8 es := by
  induction cs generalizing a with
  | nil =>
      obtain ⟨rfl, rfl⟩ := List.append_eq_nil_iff.mp h
      exact ⟨[], [], rfl, rfl, rfl⟩
  | cons c cs ih =>
      change a ++ b = String.utf8EncodeChar c ++ utf8 cs at h
      obtain ⟨x, xs, henc, -, hxs⟩ := utf8EncodeChar_eq c
      rcases List.append_eq_append_iff.mp h with ⟨rest, hc, hrest⟩ | ⟨rest, ha, hrest⟩
      · -- the cut is in the bytes of the first character
        rcases a with _ | ⟨y, ys⟩
        · exact ⟨[], c :: cs, rfl, rfl, h⟩
        · rcases rest with _ | ⟨z, zs⟩
          · refine ⟨[c], cs, rfl, ?_, hrest⟩
            simpa [utf8] using hc.symm
          · rw [henc] at hc
            obtain ⟨-, rfl⟩ := List.cons.inj hc
            have hz := hxs z (by simp)
            rw [hrest] at hb
            exact absurd (hz.symm.trans hb) (by simp)
      · obtain ⟨ds, es, rfl, rfl, rfl⟩ := ih hrest.symm
        exact ⟨c :: ds, es, rfl, ha, rfl⟩

theorem startsInside_flatten {pieces : List (List UInt8)}
    (h : ∀ p ∈ pieces, startsInside p = false) : startsInside pieces.flatten = false := by
  induction pieces with
  | nil => rfl
  | cons p ps ih =>
      cases p with
      | nil => exact ih (fun q hq => h q (List.mem_cons_of_mem _ hq))
      | cons b bs => exact h (b :: bs) (by simp)

theorem starts_le_length_flatMap (pieces : List (List UInt8)) :
    starts pieces.flatten + pieces.countP startsInside ≤
      (pieces.flatMap fromUtf8Lossy).length := by
  induction pieces with
  | nil => simp [starts]
  | cons p ps ih =>
      have hp := starts_le_length_fromUtf8Lossy p
      rw [List.flatten_cons, starts_append, List.countP_cons, List.flatMap_cons, List.length_append]
      omega

/-- Decoding the pieces of an encoded text one by one gives the text exactly when no
piece starts inside a character. -/
theorem flatMap_fromUtf8Lossy_iff {pieces : List (List UInt8)} {cs : List Char}
    (h : pieces.flatten = utf8 cs) :
    pieces.flatMap fromUtf8Lossy = cs ↔ ∀ p ∈ pieces, startsInside p = false := by
  constructor
  · intro heq
    have hle := starts_le_length_flatMap pieces
    rw [heq, h, starts_utf8] at hle
    have hzero : pieces.countP startsInside = 0 := by omega
    simpa using hzero
  · intro hout
    induction pieces generalizing cs with
    | nil =>
        have := fromUtf8Lossy_utf8 cs
        rw [← h] at this
        exact this
    | cons p ps ih =>
        have hps : ∀ q ∈ ps, startsInside q = false :=
          fun q hq => hout q (List.mem_cons_of_mem _ hq)
        obtain ⟨ds, es, rfl, rfl, hrest⟩ := utf8_cut h (startsInside_flatten hps)
        rw [List.flatMap_cons, fromUtf8Lossy_utf8, ih hrest hps]

/-! ## Bytes as characters -/

/-- Bytes written behind an `x`, and one of them as another text that does not begin with it,
are told apart. -/
theorem injective_of_ne_x {special : List UInt8} {text : String} {c : Char}
    (htext : text.toList.head? = some c) (hc : c ≠ 'x') :
    Function.Injective fun bytes : List UInt8 =>
      if bytes = special then text else String.ofList ('x' :: bytes.map Char.ofUInt8) := by
  have hchar : Function.Injective Char.ofUInt8 := by
    intro b b' h
    have hval : b.toUInt32 = b'.toUInt32 := congrArg Char.val h
    exact UInt8.toUInt32_inj.mp hval
  have hfirst : ∀ cs : List Char, String.ofList ('x' :: cs) ≠ text := by
    rintro cs rfl
    rw [String.toList_ofList, List.head?_cons] at htext
    exact hc (Option.some.inj htext).symm
  intro bytes bytes' h
  dsimp only at h
  split at h
  · split at h
    · simp [*]
    · exact absurd h.symm (hfirst _)
  · split at h
    · exact absurd h (hfirst _)
    · have hlist := String.ofList_injective h
      rw [List.cons.injEq] at hlist
      exact hchar.list_map hlist.2

end Oclaw.Lib
