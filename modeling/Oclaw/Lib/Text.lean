import Mathlib.Data.List.Basic

/-!
# Text as Rust's standard library computes with it

`String` values are sequences of Unicode scalar values, as in Rust. The
functions here follow the documented behaviour of the `str` methods of the same
name. They are written on `List Char`, with a `String` wrapper where callers
have strings, so that they compute and admit structural induction.
-/

namespace Oclaw.Lib

/-- Largest `usize` and `u64` of a 64-bit target. -/
def usizeMax : ℕ := 0xFFFFFFFFFFFFFFFF

/-- `usize::saturating_add` (and `u64::saturating_add`). -/
def satAdd (a b : ℕ) : ℕ := min (a + b) usizeMax

/-- `char::is_whitespace`: the Unicode property `White_Space`. -/
def isWhitespace (c : Char) : Bool :=
  let n := c.toNat
  (0x09 ≤ n && n ≤ 0x0D) || n == 0x20 || n == 0x85 || n == 0xA0 || n == 0x1680 ||
    (0x2000 ≤ n && n ≤ 0x200A) || n == 0x2028 || n == 0x2029 || n == 0x202F ||
    n == 0x205F || n == 0x3000

/-- `str::trim` -/
def trimChars (cs : List Char) : List Char :=
  ((cs.dropWhile isWhitespace).reverse.dropWhile isWhitespace).reverse

def trim (s : String) : String := String.ofList (trimChars s.toList)

/-- Split at every character satisfying `p`; always at least one piece. -/
def splitAt (p : Char → Bool) : List Char → List (List Char)
  | [] => [[]]
  | c :: cs =>
      if p c then [] :: splitAt p cs
      else
        match splitAt p cs with
        | [] => [[c]]
        | w :: ws => (c :: w) :: ws

/-- `str::split_whitespace` -/
def splitWhitespace (cs : List Char) : List (List Char) :=
  (splitAt isWhitespace cs).filter (fun w => !w.isEmpty)

/-- `str::split(',')` and the like, on strings. -/
def splitOnChar (sep : Char) (s : String) : List String :=
  (splitAt (· == sep) s.toList).map String.ofList

/-- `str::replace` for a nonempty pattern: occurrences are found from the left
and do not overlap. The counter skips the rest of a matched occurrence. -/
def replaceAux (pat new : List Char) : ℕ → List Char → List Char
  | _, [] => []
  | k + 1, _ :: cs => replaceAux pat new k cs
  | 0, c :: cs =>
      if pat.isPrefixOf (c :: cs) then
        new ++ replaceAux pat new (pat.length - 1) cs
      else c :: replaceAux pat new 0 cs

def replace (s pat new : String) : String :=
  String.ofList (replaceAux pat.toList new.toList 0 s.toList)

/-- `str::contains` for a string pattern. -/
def containsChars (pat : List Char) : List Char → Bool
  | [] => pat.isEmpty
  | c :: cs => pat.isPrefixOf (c :: cs) || containsChars pat cs

def contains (s pat : String) : Bool := containsChars pat.toList s.toList

/-! ## Byte positions

Rust slices strings at byte positions of the UTF-8 encoding. -/

/-- `str::len` -/
def byteLen (cs : List Char) : ℕ := cs.foldr (fun c n => c.utf8Size + n) 0

/-- `&s[..floor_char_boundary(s, n)]`: the longest start of at most `n` bytes. -/
def floorStart : ℕ → List Char → List Char
  | _, [] => []
  | n, c :: cs => if c.utf8Size ≤ n then c :: floorStart (n - c.utf8Size) cs else []

/-- `&s[..i]` for `s.rfind(sep) = Some(i)`. -/
def beforeLast (sep : Char) : List Char → Option (List Char)
  | [] => none
  | c :: cs =>
      match beforeLast sep cs with
      | some start => some (c :: start)
      | none => if c = sep then some [] else none

/-- `str::to_lowercase`, on the characters whose lowercase form has ASCII letters:
`A` to `Z`, the Kelvin sign and the dotted capital I. The rest is left alone, so
the result is exact for a search of ASCII text. -/
def toLowercase (s : String) : String :=
  String.ofList (s.toList.flatMap (fun c =>
    if c.toNat = 0x212A then ['k']
    else if c.toNat = 0x130 then ['i', Char.ofNat 0x307]
    else [c.toLower]))

/-- `str::to_ascii_lowercase` -/
def toAsciiLowercase (s : String) : String := String.ofList (s.toList.map Char.toLower)

/-- `str::starts_with` for a string pattern. -/
def startsWith (s pat : String) : Bool := pat.toList.isPrefixOf s.toList

/-- `char::to_uppercase`. Outside of ASCII it depends on the version of Unicode. -/
structure Uppercase : Type where
  char : Char → List Char
  ascii : ∀ c, c.toNat < 128 → char c = [c.toUpper]

/-- `str::to_uppercase` -/
def Uppercase.text (up : Uppercase) (s : String) : String :=
  String.ofList (s.toList.flatMap up.char)

/-- The characters outside of ASCII whose uppercase form has ASCII letters. -/
def uppercaseAscii : List (ℕ × List Char) :=
  [(0xDF, ['S', 'S']), (0x131, ['I']), (0x149, [Char.ofNat 0x2BC, 'N']), (0x17F, ['S']),
    (0x1F0, ['J', Char.ofNat 0x30C]), (0x1E96, ['H', Char.ofNat 0x331]),
    (0x1E97, ['T', Char.ofNat 0x308]), (0x1E98, ['W', Char.ofNat 0x30A]),
    (0x1E99, ['Y', Char.ofNat 0x30A]), (0x1E9A, ['A', Char.ofNat 0x2BE]), (0xFB00, ['F', 'F']),
    (0xFB01, ['F', 'I']), (0xFB02, ['F', 'L']), (0xFB03, ['F', 'F', 'I']),
    (0xFB04, ['F', 'F', 'L']), (0xFB05, ['S', 'T']), (0xFB06, ['S', 'T'])]

/-- Uppercase that is exact for a search of ASCII text; the rest is left alone. -/
def Uppercase.exactAscii : Uppercase where
  char c := (uppercaseAscii.lookup c.toNat).getD [c.toUpper]
  ascii c hc := by
    have hlarge : ∀ p ∈ uppercaseAscii, 128 ≤ p.1 := by decide
    have hnone : uppercaseAscii.lookup c.toNat = none := by
      rw [List.lookup_eq_none_iff]
      intro p hp
      rw [bne_iff_ne]
      exact Nat.ne_of_lt (Nat.lt_of_lt_of_le hc (hlarge p hp))
    rw [hnone]
    rfl

/-- ASCII text without lowercase letters. -/
def isAsciiUppercase (s : String) : Bool := s.toList.all (fun c => c.toNat < 128 && c.toUpper == c)

/-- Such text is its own uppercase form. -/
theorem Uppercase.text_eq_self (up : Uppercase) {s : String} (h : isAsciiUppercase s = true) :
    up.text s = s := by
  have hchars : ∀ cs : List Char, (∀ c ∈ cs, c.toNat < 128 ∧ c.toUpper = c) →
      cs.flatMap up.char = cs := by
    intro cs hcs
    induction cs with
    | nil => rfl
    | cons c cs ih =>
        obtain ⟨hc, hcs⟩ := List.forall_mem_cons.mp hcs
        rw [List.flatMap_cons, up.ascii c hc.1, hc.2, ih hcs]
        rfl
  have hletters : ∀ c ∈ s.toList, c.toNat < 128 ∧ c.toUpper = c := by
    simpa [isAsciiUppercase] using h
  rw [Uppercase.text, hchars _ hletters, String.ofList_toList]

/-- `str::lines`: a line ends at a line feed, and a carriage return right before
it belongs to the line end. What follows the last line feed is a line unless it
is empty. -/
def lines (cs : List Char) : List (List Char) :=
  let pieces := splitAt (· == '\n') cs
  let ended := pieces.dropLast.map (fun l => if l.getLast? = some '\r' then l.dropLast else l)
  match pieces.getLast? with
  | some [] => ended
  | some l => ended ++ [l]
  | none => ended

theorem splitAt_terminated {p : Char → Bool} {sep : Char} (hsep : p sep = true)
    {l : List Char} (hl : ∀ c ∈ l, p c = false) (rest : List Char) :
    splitAt p (l ++ sep :: rest) = l :: splitAt p rest := by
  induction l with
  | nil => simp [splitAt, hsep]
  | cons c l ih =>
      have hc : p c = false := hl c List.mem_cons_self
      rw [List.cons_append, splitAt, ih (fun c' hc' => hl c' (List.mem_cons_of_mem _ hc'))]
      simp [hc]

/-- Lines that were written with a line feed after each are read back. -/
theorem lines_written {ls : List (List Char)} (hfeed : ∀ l ∈ ls, '\n' ∉ l)
    (hreturn : ∀ l ∈ ls, '\r' ∉ l) : lines (ls.flatMap (· ++ ['\n'])) = ls := by
  have hpieces : splitAt (· == '\n') (ls.flatMap (· ++ ['\n'])) = ls ++ [[]] := by
    clear hreturn
    induction ls with
    | nil => rfl
    | cons l ls ih =>
        have hl : ∀ c ∈ l, (c == '\n') = false := by
          intro c hc
          rw [beq_eq_false_iff_ne]
          rintro rfl
          exact hfeed l List.mem_cons_self hc
        rw [List.flatMap_cons, List.append_assoc, List.singleton_append,
          splitAt_terminated rfl hl, ih (fun l' hl' => hfeed l' (List.mem_cons_of_mem _ hl'))]
        rfl
  -- no line ends in a carriage return, so none is shortened
  have hended : ls.map (fun l => if l.getLast? = some '\r' then l.dropLast else l) = ls := by
    conv_rhs => rw [← List.map_id ls]
    apply List.map_congr_left
    intro l hl
    rw [if_neg]
    · rfl
    · exact fun hlast => hreturn l hl (List.mem_of_getLast? hlast)
  unfold lines
  simp only [hpieces, List.dropLast_concat, List.getLast?_concat, hended]

end Oclaw.Lib
