import Mathlib.Algebra.Group.Nat.Defs
import Mathlib.Data.List.Basic

/-!
# Internet addresses and their text

Addresses as Rust's `std::net` has them, with its parser: four decimal octets without
leading zeros, or up to eight groups of hexadecimal digits with at most one `::` and
perhaps an IPv4 address at the end. The text of an IPv4 address is read back.
-/

namespace Oclaw.Lib

/-! ## §1  Addresses -/

structure Ipv4Addr : Type where
  a : BitVec 8
  b : BitVec 8
  c : BitVec 8
  d : BitVec 8
deriving DecidableEq

namespace Ipv4Addr

variable (v : Ipv4Addr)

def isLoopback : Bool := v.a = 127

def isPrivate : Bool :=
  v.a = 10 || (v.a = 172 && 16 ≤ v.b && v.b ≤ 31) || (v.a = 192 && v.b = 168)

def isLinkLocal : Bool := v.a = 169 && v.b = 254

def isUnspecified : Bool := v = ⟨0, 0, 0, 0⟩

def isBroadcast : Bool := v = ⟨255, 255, 255, 255⟩

end Ipv4Addr

structure Ipv6Addr : Type where
  segments : Vector (BitVec 16) 8
deriving DecidableEq

namespace Ipv6Addr

def localhost : Ipv6Addr := ⟨#v[0, 0, 0, 0, 0, 0, 0, 1]⟩

def unspecified : Ipv6Addr := ⟨#v[0, 0, 0, 0, 0, 0, 0, 0]⟩

/-- The groups in order; those that are missing at the end are zero. -/
def ofGroups (gs : List (BitVec 16)) : Ipv6Addr := ⟨Vector.ofFn (fun i => gs.getD i 0)⟩

variable (v : Ipv6Addr)

def isLoopback : Bool := v = localhost

def isUnspecified : Bool := v = unspecified

def toIpv4Mapped : Option Ipv4Addr :=
  let s := v.segments
  if s[0] = 0 ∧ s[1] = 0 ∧ s[2] = 0 ∧ s[3] = 0 ∧ s[4] = 0 ∧ s[5] = 0xffff then
    some ⟨s[6].extractLsb' 8 8, s[6].extractLsb' 0 8, s[7].extractLsb' 8 8, s[7].extractLsb' 0 8⟩
  else none

end Ipv6Addr

inductive IpAddr : Type where
  | v4 (v : Ipv4Addr)
  | v6 (v : Ipv6Addr)
deriving DecidableEq

/-! ## §2  The parser -/

/-- `char::to_digit` -/
def toDigit (radix : ℕ) (c : Char) : Option ℕ :=
  let n :=
    if '0' ≤ c ∧ c ≤ '9' then some (c.toNat - '0'.toNat)
    else if 'a' ≤ c ∧ c ≤ 'z' then some (c.toNat - 'a'.toNat + 10)
    else if 'A' ≤ c ∧ c ≤ 'Z' then some (c.toNat - 'A'.toNat + 10)
    else none
  n.filter (· < radix)

def isDigitOf (radix : ℕ) (c : Char) : Bool := (toDigit radix c).isSome

def digitsValue (radix : ℕ) (ds : List Char) : ℕ :=
  ds.foldl (fun n c => n * radix + (toDigit radix c).getD 0) 0

/-- All digits that follow are read, and there must not be too many. -/
def readNumber (radix maxDigits w : ℕ) (allowZeroPrefix : Bool) (cs : List Char) :
    Option (BitVec w × List Char) :=
  let ds := cs.takeWhile (isDigitOf radix)
  if ds.length = 0 ∨ maxDigits < ds.length then none
  else if allowZeroPrefix = false ∧ ds.head? = some '0' ∧ 1 < ds.length then none
  else if digitsValue radix ds < 2 ^ w then
    some (BitVec.ofNat w (digitsValue radix ds), cs.dropWhile (isDigitOf radix))
  else none

/-- What stands at a position: a separator before all but the first. -/
def readSeparated {β : Type} (sep : Char) (first : Bool) (inner : List Char → Option β)
    (cs : List Char) : Option β :=
  if first then inner cs
  else
    match cs with
    | c :: rest => if c = sep then inner rest else none
    | [] => none

def readOctet (cs : List Char) : Option (BitVec 8 × List Char) := readNumber 10 3 8 false cs

def readIpv4Addr (cs : List Char) : Option (Ipv4Addr × List Char) := do
  let (a, cs) ← readSeparated '.' true readOctet cs
  let (b, cs) ← readSeparated '.' false readOctet cs
  let (c, cs) ← readSeparated '.' false readOctet cs
  let (d, cs) ← readSeparated '.' false readOctet cs
  return (⟨a, b, c, d⟩, cs)

/-- At most `limit` groups, and whether they ended with an IPv4 address. -/
def readGroups : ℕ → Bool → List Char → List (BitVec 16) × Bool × List Char
  | 0, _, cs => ([], false, cs)
  | limit + 1, first, cs =>
      -- an IPv4 address takes the place of two groups
      match (if 1 ≤ limit then readSeparated ':' first readIpv4Addr cs else none) with
      | some (v, rest) => ([v.a ++ v.b, v.c ++ v.d], true, rest)
      | none =>
          match readSeparated ':' first (readNumber 16 4 16 true) cs with
          | none => ([], false, cs)
          | some (g, rest) =>
              let (gs, ipv4, rest) := readGroups limit false rest
              (g :: gs, ipv4, rest)

def readIpv6Addr (cs : List Char) : Option (Ipv6Addr × List Char) :=
  let (head, headIpv4, rest) := readGroups 8 true cs
  if head.length = 8 then some (.ofGroups head, rest)
  else if headIpv4 then none
  else
    match rest with
    | ':' :: ':' :: rest =>
        let (tail, _, rest) := readGroups (7 - head.length) true rest
        some (.ofGroups
          (head ++ List.replicate (8 - head.length - tail.length) 0 ++ tail), rest)
    | _ => none

/-- `str::parse::<IpAddr>`: the whole text is read. -/
def parseIpAddr (s : String) : Option IpAddr :=
  let cs := s.toList
  match ((readIpv4Addr cs).map (fun r => (IpAddr.v4 r.1, r.2))).orElse
      (fun _ => (readIpv6Addr cs).map (fun r => (IpAddr.v6 r.1, r.2))) with
  | some (ip, []) => some ip
  | _ => none

/-! ## §3  Reading an address back -/

/-- An IPv4 address as `Display` writes it. -/
def Ipv4Addr.text (v : Ipv4Addr) : String :=
  s!"{v.a.toNat}.{v.b.toNat}.{v.c.toNat}.{v.d.toNat}"

theorem readNumber_append {radix maxDigits w : ℕ} {ds rest : List Char} {allowZeroPrefix : Bool}
    (hds : ∀ c ∈ ds, isDigitOf radix c = true)
    (hrest : ∀ c ∈ rest.head?, isDigitOf radix c = false)
    (hlen : 0 < ds.length ∧ ds.length ≤ maxDigits)
    (hzero : allowZeroPrefix = true ∨ ds.head? ≠ some '0' ∨ ds.length = 1)
    (hvalue : digitsValue radix ds < 2 ^ w) :
    readNumber radix maxDigits w allowZeroPrefix (ds ++ rest) =
      some (BitVec.ofNat w (digitsValue radix ds), rest) := by
  have hstop : rest.takeWhile (isDigitOf radix) = [] ∧ rest.dropWhile (isDigitOf radix) = rest := by
    cases rest with
    | nil => exact ⟨rfl, rfl⟩
    | cons c rest => simp [hrest c rfl]
  have htake : (ds ++ rest).takeWhile (isDigitOf radix) = ds := by
    rw [List.takeWhile_append_of_pos hds, hstop.1, List.append_nil]
  have hdrop : (ds ++ rest).dropWhile (isDigitOf radix) = rest := by
    rw [List.dropWhile_append_of_pos hds, hstop.2]
  simp only [readNumber, htake, hdrop]
  rw [if_neg (by omega), if_neg, if_pos hvalue]
  rintro ⟨hallow, hhead, hlong⟩
  rcases hzero with hzero | hzero | hzero
  · rw [hallow] at hzero
    cases hzero
  · exact hzero hhead
  · omega

theorem toDigit_digitChar : ∀ d < 10, toDigit 10 d.digitChar = some d := by
  decide

theorem digitsValue_concat (radix : ℕ) (ds : List Char) (c : Char) :
    digitsValue radix (ds ++ [c]) =
      digitsValue radix ds * radix + (toDigit radix c).getD 0 := by
  simp [digitsValue]

theorem isDigitOf_toDigits {n : ℕ} : ∀ c ∈ Nat.toDigits 10 n, isDigitOf 10 c = true := by
  induction n using Nat.strongRecOn with
  | ind n ih =>
      rw [Nat.toDigits_eq_if (by decide)]
      split
      · rename_i hlt
        simp [isDigitOf, toDigit_digitChar n hlt]
      · intro c hc
        rcases List.mem_append.mp hc with hc | hc
        · exact ih (n / 10) (by omega) c hc
        · rw [List.mem_singleton.mp hc, isDigitOf, toDigit_digitChar _ (Nat.mod_lt _ (by decide))]
          rfl

theorem digitsValue_toDigits (n : ℕ) : digitsValue 10 (Nat.toDigits 10 n) = n := by
  induction n using Nat.strongRecOn with
  | ind n ih =>
      rw [Nat.toDigits_eq_if (by decide)]
      split
      · rename_i hlt
        simp [digitsValue, toDigit_digitChar n hlt]
      · rw [digitsValue_concat, ih (n / 10) (by omega),
          toDigit_digitChar _ (Nat.mod_lt _ (by decide)), Option.getD_some]
        omega

/-- Only zero begins with a zero. -/
theorem head_toDigits {n : ℕ} (hn : 0 < n) : (Nat.toDigits 10 n).head? ≠ some '0' := by
  induction n using Nat.strongRecOn with
  | ind n ih =>
      rw [Nat.toDigits_eq_if (by decide)]
      split
      · rename_i hlt
        intro hzero
        have hdigit := toDigit_digitChar n hlt
        rw [Option.some.inj hzero] at hdigit
        cases hdigit
        cases hn
      · rw [List.head?_append_of_ne_nil _ Nat.toDigits_ne_nil]
        exact ih (n / 10) (by omega) (by omega)

theorem readOctet_append (n : BitVec 8) {rest : List Char}
    (hrest : ∀ c ∈ rest.head?, isDigitOf 10 c = false) :
    readOctet (n.toNat.repr.toList ++ rest) = some (n, rest) := by
  have hlen : 0 < (Nat.toDigits 10 n.toNat).length ∧ (Nat.toDigits 10 n.toNat).length ≤ 3 := by
    refine ⟨Nat.length_toDigits_pos, (Nat.length_toDigits_le_iff (by decide) (by decide)).mpr ?_⟩
    exact Nat.lt_trans n.isLt (by decide)
  -- an octet has no leading zero, but zero has one digit
  have hzero : (Nat.toDigits 10 n.toNat).head? ≠ some '0' ∨
      (Nat.toDigits 10 n.toNat).length = 1 := by
    rcases Nat.eq_zero_or_pos n.toNat with hn | hn
    · exact Or.inr (by rw [hn, Nat.toDigits_zero, List.length_singleton])
    · exact Or.inl (head_toDigits hn)
  rw [Nat.toList_repr, readOctet, readNumber_append isDigitOf_toDigits hrest hlen (Or.inr hzero)
    (by rw [digitsValue_toDigits]; exact n.isLt), digitsValue_toDigits]
  simp

theorem readIpv4Addr_text (v : Ipv4Addr) : readIpv4Addr v.text.toList = some (v, []) := by
  have htext : v.text.toList = v.a.toNat.repr.toList ++ ('.' :: (v.b.toNat.repr.toList ++ ('.' ::
      (v.c.toNat.repr.toList ++ ('.' :: (v.d.toNat.repr.toList ++ [])))))) := by
    simp [Ipv4Addr.text, toString]
  have hdot (rest : List Char) : ∀ c ∈ ('.' :: rest).head?, isDigitOf 10 c = false := by
    rintro c ⟨⟩
    decide
  have hend : ∀ c ∈ ([] : List Char).head?, isDigitOf 10 c = false := by rintro c ⟨⟩
  rw [htext, readIpv4Addr]
  simp only [readSeparated, ↓reduceIte, Bool.false_eq_true, readOctet_append _ (hdot _),
    readOctet_append _ hend, Option.bind_eq_bind, Option.bind_some]
  rfl

/-- The text of an IPv4 address is that address. -/
theorem parseIpAddr_text (v : Ipv4Addr) : parseIpAddr v.text = some (.v4 v) := by
  simp [parseIpAddr, readIpv4Addr_text]

/-- No address begins with a bracket. -/
theorem parseIpAddr_bracket (s : String) : parseIpAddr ("[" ++ s) = none := by
  have hcons : ("[" ++ s).toList = '[' :: s.toList := by simp
  have hdigit : isDigitOf 10 '[' = false ∧ isDigitOf 16 '[' = false := by decide
  have hipv4 : readIpv4Addr ('[' :: s.toList) = none := by
    simp [readIpv4Addr, readSeparated, readOctet, readNumber, hdigit.1]
  have hgroups : readGroups 8 true ('[' :: s.toList) = ([], false, '[' :: s.toList) := by
    simp [readGroups, readSeparated, hipv4, readNumber, hdigit.2]
  simp [parseIpAddr, hcons, hipv4, readIpv6Addr, hgroups]

example : parseIpAddr "::ffff:10.0.0.1" = some (.v6 ⟨#v[0, 0, 0, 0, 0, 0xffff, 0xa00, 1]⟩) := by
  decide

end Oclaw.Lib
