import Mathlib.Data.List.Infix
import Oclaw.Lib.Search

/-!
# The heartbeat token

`strip_heartbeat_token` of `crates/workspace-core/src/heartbeat.rs`: the acknowledgement
`HEARTBEAT_OK`, bare or in a wrapper, is cut off the start or the end of a reply. The
candidates at the start are the first 12 and the first 16 bytes.
-/

namespace Oclaw.WorkspaceCore

open Oclaw.Lib

/-! ## §1  Stripping -/

def heartbeatOkToken : List Char := "HEARTBEAT_OK".toList

/-- `strip_prefix`, `strip_suffix`, or else the text itself; then `trim`. -/
def unwrapOne (opening closing : String) (s : List Char) : List Char :=
  trimChars (((s.dropPrefix? opening.toList).bind (·.dropSuffix? closing.toList)).getD s)

def unwrapAndCheck (s : List Char) : Bool :=
  let s := trimChars s
  let s := unwrapOne "**" "**" s
  let s := unwrapOne "__" "__" s
  let s := unwrapOne "<b>" "</b>" s
  let s := unwrapOne "_" "_" s
  s == heartbeatOkToken

/-- The loop over the lengths of a candidate: what is behind the token, `some none` when no
candidate is the token. A slice inside a character is a panic, here as below `none`. -/
def stripFromStart (trimmed : List Char) : List ℕ → Option (Option (List Char))
  | [] => some none
  | prefixLen :: lens =>
      if prefixLen ≤ byteLen trimmed then
        match cutAt trimmed (min prefixLen (byteLen trimmed)) with
        | none => none
        | some (candidate, rest) =>
            if unwrapAndCheck candidate then some (some (trimChars rest))
            else stripFromStart trimmed lens
      else stripFromStart trimmed lens

def stripFromEnd (trimmed : List Char) : Option (Option (List Char)) :=
  match trimmed.dropSuffix? heartbeatOkToken with
  | some rest => some (some (trimChars rest))
  | none =>
      if ("**".toList ++ heartbeatOkToken ++ "**".toList).isSuffixOf trimmed then
        (strTo trimmed (byteLen trimmed - (byteLen heartbeatOkToken + 4))).map
          (fun rest => some (trimChars rest))
      else some none

def stripTrimmed (trimmed : List Char) : Option (List Char × Bool) :=
  if unwrapAndCheck trimmed then some ([], true)
  else
    match stripFromStart trimmed [byteLen heartbeatOkToken, byteLen heartbeatOkToken + 4] with
    | none => none
    | some (some rest) => some (rest, true)
    | some none =>
        match stripFromEnd trimmed with
        | none => none
        | some (some rest) => some (rest, true)
        | some none => some (trimmed, false)

/-- The cleaned text, and whether the token was found. -/
def stripHeartbeatToken (text : String) : Option (String × Bool) :=
  (stripTrimmed (trimChars text.toList)).map (fun r => (String.ofList r.1, r.2))

def shouldDropHeartbeatReply (text : String) (ackMaxChars : ℕ) : Option Bool :=
  (stripHeartbeatToken text).map (fun r => r.2 && decide (byteLen r.1.toList ≤ ackMaxChars))

/-! ## §2  What stripping should do -/

/-- What counts as a part of a word: of ASCII the letters, the digits and the underscore,
of the other characters whichever are not whitespace. -/
structure WordChars : Type where
  isWord : Char → Bool
  ascii : ∀ c, c.toNat < 128 → isWord c = (c.isAlphanum || c == '_')
  space : ∀ c, isWhitespace c = true → isWord c = false

/-- A text goes on with a word, and a text ends in one. -/
def WordChars.Starts (wc : WordChars) (s : List Char) : Prop := ∃ c ∈ s.head?, wc.isWord c = true

def WordChars.Ends (wc : WordChars) (s : List Char) : Prop := ∃ c ∈ s.getLast?, wc.isWord c = true

def wrapped (opening closing : String) : List Char :=
  opening.toList ++ heartbeatOkToken ++ closing.toList

/-- The token as the documentation has it. -/
def documented : List (List Char) :=
  [heartbeatOkToken, wrapped "**" "**", wrapped "__" "__", wrapped "<b>" "</b>"]

section Spec

variable (wc : WordChars)

/-- `out` is the text without the token `w`, which is a whole word at its start or its end. -/
def Without (w s out : List Char) : Prop :=
  (∃ r, s = w ++ r ∧ ¬ wc.Starts r ∧ out = trimChars r) ∨
    ∃ r, s = r ++ w ∧ ¬ wc.Ends r ∧ out = trimChars r

/-- A trimmed text carries the token and is `out` without it. -/
def Carries (s out : List Char) : Prop := ∃ w ∈ documented, Without wc w s out

/-- What stripping should do with a trimmed text. -/
inductive ExactOn (s : List Char) : Option (List Char × Bool) → Prop where
  | found {out : List Char} : Carries wc s out → ExactOn s (some (out, true))
  | notFound : ExactOn s (some (s, false))

/-- **Exactness.** Stripping and dropping do not panic, the token is found only where it is,
and a reply is dropped only for it. -/
structure Exact (text : String) : Prop where
  strips : ExactOn wc (trim text).toList
    ((stripHeartbeatToken text).map (fun r => (r.1.toList, r.2)))
  drops : ∀ ackMaxChars, ∃ drop, shouldDropHeartbeatReply text ackMaxChars = some drop ∧
    (drop = true → ∃ out, Carries wc (trim text).toList out)

/-! ## §3  What can go wrong -/

/-- A character goes across the end of a candidate. -/
def SplitsChar (s : List Char) : Prop :=
  ¬ heartbeatOkToken <+: s ∧ ∃ n ∈ [12, 16], n ≤ byteLen s ∧ isCharBoundary s n = false

/-- The first 16 bytes are the token in other wrappers. -/
def OddStart (s : List Char) : Prop :=
  ¬ heartbeatOkToken <+: s ∧ ∃ c ∈ strTo s 16, unwrapAndCheck c = true ∧ c ∉ documented

def OddlyWrapped (s : List Char) : Prop :=
  (unwrapAndCheck s = true ∧ s ∉ documented) ∨ OddStart s

/-- The tokens that are found at the start, and those that are found at the end. -/
def leading : List (List Char) := [heartbeatOkToken, wrapped "**" "**", wrapped "__" "__"]

def trailing : List (List Char) := [heartbeatOkToken, wrapped "**" "**"]

/-- A word goes on behind the token at the start, or, where none is at the start, a word
ends in the token at the end. -/
def Extended (s : List Char) : Prop :=
  (∃ w ∈ leading, ∃ r, s = w ++ r ∧ wc.Starts r) ∨
    ((∀ w ∈ leading, ¬ w <+: s) ∧ ∃ w ∈ trailing, ∃ r, s = r ++ w ∧ wc.Ends r)

end Spec

/-! ## §4  Wrappers -/

section Wrappers

variable {s c r w out : List Char} {opening closing : String}

/-- What of a text is no whitespace. -/
def solid (s : List Char) : List Char := s.filter (!isWhitespace ·)

@[simp] theorem solid_append (s t : List Char) : solid (s ++ t) = solid s ++ solid t :=
  List.filter_append ..

@[simp] theorem solid_trimChars (s : List Char) : solid (trimChars s) = solid s :=
  filter_trimChars s

theorem solid_eq_nil_iff : solid s = [] ↔ ∀ c ∈ s, isWhitespace c = true := by
  simp [solid, List.filter_eq_nil_iff]

theorem byteLen_solid_le (s : List Char) : byteLen (solid s) ≤ byteLen s := by
  induction s with
  | nil => exact Nat.le_refl _
  | cons c s ih =>
      rw [solid, List.filter_cons]
      split
      · rw [byteLen_cons, byteLen_cons]
        exact Nat.add_le_add_left ih _
      · rw [byteLen_cons]
        exact Nat.le_trans ih (Nat.le_add_left _ _)

theorem solid_eq_self (h : byteLen s ≤ byteLen (solid s)) : solid s = s := by
  induction s with
  | nil => rfl
  | cons c s ih =>
      rw [solid, List.filter_cons] at h ⊢
      split
      · rename_i hc
        rw [if_pos hc, byteLen_cons, byteLen_cons] at h
        rw [← solid, ih (by rw [solid]; omega)]
      · rename_i hc
        have hle := byteLen_solid_le s
        have hpos := c.utf8Size_pos
        rw [if_neg hc, byteLen_cons, ← solid] at h
        omega

/-- Unwrapping takes whitespace away, and the wrapper or nothing. -/
theorem unwrapOne_cases (opening closing : String) (s : List Char) :
    unwrapOne opening closing s = trimChars s ∨
      ∃ m, s = opening.toList ++ m ++ closing.toList ∧
        unwrapOne opening closing s = trimChars m := by
  unfold unwrapOne
  cases hbind : (s.dropPrefix? opening.toList).bind (·.dropSuffix? closing.toList) with
  | none => exact .inl rfl
  | some m =>
      obtain ⟨t, ht, hm⟩ := Option.bind_eq_some_iff.mp hbind
      obtain ⟨o, hs, ho⟩ := List.dropPrefix?_eq_some_iff.mp ht
      obtain ⟨e, hte, he⟩ := List.dropSuffix?_eq_some_iff.mp hm
      refine .inr ⟨m, ?_, rfl⟩
      rw [hs, hte, eq_of_beq ho, eq_of_beq he, List.append_assoc]

theorem unwrapOne_isInfix (opening closing : String) (s : List Char) :
    unwrapOne opening closing s <:+: s := by
  rcases unwrapOne_cases opening closing s with h | ⟨m, hs, h⟩
  · rw [h]
    exact isInfix_trimChars s
  · rw [h]
    exact (isInfix_trimChars m).trans ⟨_, _, hs.symm⟩

theorem token_of_unwrap (h : unwrapAndCheck s = true) : heartbeatOkToken <:+: s := by
  rw [← eq_of_beq h]
  exact (unwrapOne_isInfix ..).trans ((unwrapOne_isInfix ..).trans
    ((unwrapOne_isInfix ..).trans ((unwrapOne_isInfix ..).trans (isInfix_trimChars s))))

theorem solid_unwrapOne (hopening : solid opening.toList = opening.toList)
    (hclosing : solid closing.toList = closing.toList) (s : List Char) :
    solid s = solid (unwrapOne opening closing s) ∨
      solid s = opening.toList ++ solid (unwrapOne opening closing s) ++ closing.toList := by
  rcases unwrapOne_cases opening closing s with h | ⟨m, hs, h⟩
  · exact .inl (by rw [h, solid_trimChars])
  · right
    rw [h, solid_trimChars]
    conv_lhs => rw [hs, solid_append, solid_append, hopening, hclosing]

/-- The wrappers that fit into 16 bytes. -/
theorem solid_of_unwrap (h : unwrapAndCheck s = true) (hlen : byteLen s ≤ 16) :
    solid s ∈ [heartbeatOkToken, wrapped "**" "**", wrapped "__" "__", wrapped "_" "_"] := by
  have hle := Nat.le_trans (byteLen_solid_le s) hlen
  have htoken := eq_of_beq h
  have h1 := @solid_unwrapOne "**" "**" (by decide) (by decide) (trimChars s)
  generalize unwrapOne "**" "**" (trimChars s) = s1 at h1 htoken
  have h2 := @solid_unwrapOne "__" "__" (by decide) (by decide) s1
  generalize unwrapOne "__" "__" s1 = s2 at h2 htoken
  have h3 := @solid_unwrapOne "<b>" "</b>" (by decide) (by decide) s2
  generalize unwrapOne "<b>" "</b>" s2 = s3 at h3 htoken
  have h4 := @solid_unwrapOne "_" "_" (by decide) (by decide) s3
  rw [htoken] at h4
  rw [solid_trimChars] at h1
  -- sixteen sets of wrappers, four of them short enough
  rcases h4 with h4 | h4 <;> rw [h4] at h3 <;> rcases h3 with h3 | h3 <;> rw [h3] at h2 <;>
    rcases h2 with h2 | h2 <;> rw [h2] at h1 <;> rcases h1 with h1 | h1 <;> rw [h1] at hle ⊢ <;>
    revert hle <;> decide

theorem eq_of_isInfix_of_byteLen (h : w <:+: s) (hlen : byteLen s = byteLen w) : s = w := by
  obtain ⟨a, b, rfl⟩ := h
  rw [byteLen_append, byteLen_append] at hlen
  have ha : a = [] := by_contra fun hne => by
    have := byteLen_pos_iff.mpr hne
    omega
  have hb : b = [] := by_contra fun hne => by
    have := byteLen_pos_iff.mpr hne
    omega
  rw [ha, hb, List.append_nil, List.nil_append]

theorem candidate_twelve (h : unwrapAndCheck c = true) (hlen : byteLen c = 12) :
    c = heartbeatOkToken :=
  eq_of_isInfix_of_byteLen (token_of_unwrap h) hlen

/-- A candidate of 16 bytes that is no documented form is the token in single underscores
and whitespace. -/
theorem candidate_sixteen (h : unwrapAndCheck c = true) (hlen : byteLen c = 16)
    (hhead : ∀ x ∈ c.head?, isWhitespace x = false) :
    heartbeatOkToken <+: c ∨ c = wrapped "**" "**" ∨ c = wrapped "__" "__" ∨
      solid c = wrapped "_" "_" := by
  have hwhole (w : List Char) (hw : solid c = w) (hbytes : byteLen w = 16) : c = w := by
    rw [← hw]
    exact (solid_eq_self (by rw [hw, hbytes, hlen])).symm
  have hforms := solid_of_unwrap h (Nat.le_of_eq hlen)
  simp only [List.mem_cons, List.not_mem_nil, or_false] at hforms
  rcases hforms with hbare | hstars | hunders | hunder
  · left
    obtain ⟨a, b, hab⟩ := token_of_unwrap h
    have hsolid := congrArg solid hab
    rw [hbare, solid_append, solid_append] at hsolid
    have hlengths := congrArg List.length hsolid
    rw [List.length_append, List.length_append] at hlengths
    have ha : solid a = [] := List.eq_nil_of_length_eq_zero (by
      have htoken : (solid heartbeatOkToken).length = heartbeatOkToken.length := by decide
      omega)
    cases a with
    | nil => exact ⟨b, hab⟩
    | cons x a =>
        have hspace := solid_eq_nil_iff.mp ha x List.mem_cons_self
        rw [hhead x (by rw [← hab]; rfl)] at hspace
        cases hspace
  · exact .inr (.inl (hwhole _ hstars (by decide)))
  · exact .inr (.inr (.inl (hwhole _ hunders (by decide))))
  · exact .inr (.inr (.inr hunder))

end Wrappers

/-! ## §5  Candidates at the start -/

section Start

variable {s c r w out : List Char} {n : ℕ} {ns : List ℕ}

theorem cutAt_eq_none_iff : cutAt s n = none ↔ isCharBoundary s n = false := by
  rw [Bool.eq_false_iff, ne_eq, isCharBoundary_iff]
  constructor
  · rintro h ⟨p, q, hcut⟩
    rw [h] at hcut
    cases hcut
  · intro h
    cases hcut : cutAt s n with
    | none => rfl
    | some sides => exact absurd ⟨sides.1, sides.2, hcut⟩ h

theorem stripFromStart_short (h : byteLen s < n) :
    stripFromStart s (n :: ns) = stripFromStart s ns := by
  rw [stripFromStart, if_neg (Nat.not_le.mpr h)]

theorem stripFromStart_split (hle : n ≤ byteLen s) (h : isCharBoundary s n = false) :
    stripFromStart s (n :: ns) = none := by
  rw [stripFromStart, if_pos hle, Nat.min_eq_left hle, cutAt_eq_none_iff.mpr h]

theorem stripFromStart_cut (c r : List Char) (ns : List ℕ) :
    stripFromStart (c ++ r) (byteLen c :: ns) =
      if unwrapAndCheck c then some (some (trimChars r)) else stripFromStart (c ++ r) ns := by
  have hle : byteLen c ≤ byteLen (c ++ r) := by simp
  rw [stripFromStart, if_pos hle, Nat.min_eq_left hle, cutAt_append]

theorem exists_cut (h : isCharBoundary s n = true) : ∃ c r, s = c ++ r ∧ byteLen c = n := by
  obtain ⟨c, r, hcut⟩ := isCharBoundary_iff.mp h
  exact ⟨c, r, cutAt_eq_some_iff.mp hcut⟩

theorem stripFromStart_token (r : List Char) :
    stripFromStart (heartbeatOkToken ++ r)
      [byteLen heartbeatOkToken, byteLen heartbeatOkToken + 4] = some (some (trimChars r)) := by
  rw [stripFromStart_cut, if_pos (by decide)]

/-- Behind the first length only the second one counts. -/
theorem stripFromStart_second (hno : ¬ heartbeatOkToken <+: s)
    (h : 12 ≤ byteLen s → isCharBoundary s 12 = true) :
    stripFromStart s [byteLen heartbeatOkToken, byteLen heartbeatOkToken + 4] =
      stripFromStart s [16] := by
  rcases Nat.lt_or_ge (byteLen s) 12 with hlt | hle
  · exact stripFromStart_short hlt
  · obtain ⟨c, r, rfl, hc⟩ := exists_cut (h hle)
    have htoken : byteLen heartbeatOkToken = byteLen c := hc.symm
    rw [htoken, stripFromStart_cut, if_neg, hc]
    intro hunwrap
    exact hno ⟨r, by rw [candidate_twelve hunwrap hc]⟩

theorem stripFromStart_splitsChar (h : SplitsChar s) :
    stripFromStart s [byteLen heartbeatOkToken, byteLen heartbeatOkToken + 4] = none := by
  obtain ⟨hno, n, hn, hle, hsplit⟩ := h
  by_cases hfirst : 12 ≤ byteLen s ∧ isCharBoundary s 12 = false
  · exact stripFromStart_split hfirst.1 hfirst.2
  · rw [stripFromStart_second hno (by simpa using hfirst)]
    rcases List.mem_cons.mp hn with rfl | hn
    · exact absurd ⟨hle, hsplit⟩ hfirst
    · obtain rfl := List.mem_singleton.mp hn
      exact stripFromStart_split hle hsplit

/-- Either the first 16 bytes are the token, or they are not and nothing is stripped. -/
theorem stripFromStart_cases (hno : ¬ heartbeatOkToken <+: s) (h : ¬ SplitsChar s) :
    (∃ c r, s = c ++ r ∧ byteLen c = 16 ∧ unwrapAndCheck c = true ∧
      stripFromStart s [byteLen heartbeatOkToken, byteLen heartbeatOkToken + 4] =
        some (some (trimChars r))) ∨
    ((∀ c, c <+: s → byteLen c = 16 → unwrapAndCheck c = false) ∧
      stripFromStart s [byteLen heartbeatOkToken, byteLen heartbeatOkToken + 4] = some none) := by
  have hwhole : ∀ n ∈ [12, 16], n ≤ byteLen s → isCharBoundary s n = true := by
    intro n hn hle
    by_contra hsplit
    exact h ⟨hno, n, hn, hle, by simpa using hsplit⟩
  rw [stripFromStart_second hno (hwhole 12 (by simp))]
  rcases Nat.lt_or_ge (byteLen s) 16 with hlt | hle
  · refine .inr ⟨fun c hc hlen => ?_, stripFromStart_short hlt⟩
    have := byteLen_le_of_isPrefix hc
    omega
  · obtain ⟨c, r, rfl, hc⟩ := exists_cut (hwhole 16 (by simp) hle)
    have hstep := stripFromStart_cut c r []
    rw [hc] at hstep
    rw [hstep]
    cases hunwrap : unwrapAndCheck c with
    | true => exact .inl ⟨c, r, rfl, hc, hunwrap, rfl⟩
    | false =>
        refine .inr ⟨fun c' hc' hlen => ?_, rfl⟩
        obtain ⟨r', hr'⟩ := hc'
        have hcut := cutAt_append c' r'
        rw [hr', hlen, ← hc, cutAt_append] at hcut
        obtain ⟨rfl, -⟩ := Prod.mk.inj (Option.some.inj hcut)
        exact hunwrap

end Start

/-! ## §6  The text without the token -/

section Rest

variable {wc : WordChars} {s c r r' w p out : List Char}

theorem solid_documented : ∀ w ∈ documented, solid w = w := by decide

theorem unwrap_documented : ∀ w ∈ documented, unwrapAndCheck w = true := by decide

theorem leading_documented : ∀ w ∈ leading, w ∈ documented := by decide

theorem trailing_documented : ∀ w ∈ trailing, w ∈ documented := by decide

theorem documented_ne_nil : ∀ w ∈ documented, w ≠ [] := by decide

theorem leading_of_length :
    ∀ w ∈ documented, ∀ p ∈ trailing, w.length = p.length → w ∈ leading := by
  decide

theorem length_documented : ∀ w ∈ documented, w.length ≠ (wrapped "_" "_").length := by decide

/-- Of the tokens at the start those that begin with a part of a word end with one. -/
theorem word_ends_of_starts {x : Char} (hp : p ∈ leading) (hx : x ∈ p.head?)
    (hword : wc.isWord x = true) : wc.Ends p := by
  have hstar : wc.isWord '*' = false := wc.ascii '*' (by decide)
  have hk : wc.isWord 'K' = true := wc.ascii 'K' (by decide)
  have hunder : wc.isWord '_' = true := wc.ascii '_' (by decide)
  simp only [leading, List.mem_cons, List.not_mem_nil, or_false] at hp
  rcases hp with rfl | rfl | rfl
  · exact ⟨'K', rfl, hk⟩
  · obtain rfl : x = '*' := (Option.some.inj hx).symm
    rw [hstar] at hword
    cases hword
  · exact ⟨'_', rfl, hunder⟩

theorem eq_of_perm_documented : ∀ w ∈ documented, ∀ w' ∈ documented, w.Perm w' → w = w' := by
  decide

theorem solid_congr (h : trimChars r = trimChars r') : solid r = solid r' := by
  rw [← solid_trimChars r, h, solid_trimChars]

/-- A word begins with a character that is no whitespace. -/
theorem WordChars.Starts.not_space (h : wc.Starts r) : ∀ x ∈ r.head?, isWhitespace x = false := by
  obtain ⟨y, hy, hword⟩ := h
  intro x hx
  obtain rfl := Option.mem_unique hx hy
  by_contra hspace
  rw [wc.space x (by simpa using hspace)] at hword
  cases hword

theorem trimmed_of_append (h : Trimmed (p ++ r)) (hne : r ≠ [])
    (hhead : ∀ x ∈ r.head?, isWhitespace x = false) : Trimmed r := by
  refine ⟨hhead, fun x hx => h.2 x ?_⟩
  rw [List.getLast?_append_of_ne_nil _ hne]
  exact hx

theorem trimChars_eq_self_of_length (h : (trimChars r).length = r.length) : trimChars r = r :=
  (isInfix_trimChars r).sublist.eq_of_length h

theorem carries_nil_iff (hs : Trimmed s) : Carries wc s [] ↔ s ∈ documented := by
  constructor
  · rintro ⟨w, hw, ⟨r, rfl, -, hr⟩ | ⟨r, rfl, -, hr⟩⟩
    · have hspace := trimChars_eq_nil_iff.mp hr.symm
      rcases List.eq_nil_or_concat' r with rfl | ⟨r', x, rfl⟩
      · rwa [List.append_nil]
      · have hlast := hs.2 x (by rw [← List.append_assoc]; simp)
        rw [hspace x (by simp)] at hlast
        cases hlast
    · have hspace := trimChars_eq_nil_iff.mp hr.symm
      cases r with
      | nil => exact hw
      | cons x r =>
          have hfirst := hs.1 x rfl
          rw [hspace x List.mem_cons_self] at hfirst
          cases hfirst
  · intro hw
    refine ⟨s, hw, .inl ⟨[], (List.append_nil s).symm, ?_, rfl⟩⟩
    rintro ⟨x, hx, -⟩
    cases hx

/-- Behind a token at the start, the rest is right unless a word goes on there. -/
theorem carries_start_iff (hs : Trimmed (p ++ r)) (hp : p ∈ leading) :
    Carries wc (p ++ r) (trimChars r) ↔ ¬ wc.Starts r := by
  have hpdoc := leading_documented p hp
  constructor
  · rintro ⟨w, hw, hwithout⟩ hstarts
    rcases hwithout with ⟨r', heq, hr', htrim⟩ | ⟨r', heq, hends, htrim⟩
    · have hsolid := congrArg solid heq
      rw [solid_append, solid_append, solid_documented p hpdoc, solid_documented w hw,
        solid_congr htrim] at hsolid
      obtain rfl := List.append_cancel_right hsolid
      exact hr' (List.append_cancel_left heq ▸ hstarts)
    · -- the rest is the same on both sides, and so is the length of the token
      have hne : r ≠ [] := by
        rintro rfl
        obtain ⟨x, hx, -⟩ := hstarts
        cases hx
      have hr : trimChars r = r := trimChars_of_trimmed (trimmed_of_append hs hne hstarts.not_space)
      have hsolid := congrArg (fun t => (solid t).length) heq
      simp only [solid_append, solid_documented p hpdoc, solid_documented w hw,
        solid_congr htrim, List.length_append] at hsolid
      have hlength := congrArg List.length heq
      rw [List.length_append, List.length_append] at hlength
      have hr' : r' = r := by
        rw [← trimChars_eq_self_of_length (r := r') (by rw [← htrim, hr]; omega), ← htrim, hr]
      subst hr'
      have hperm : p.Perm w := (List.perm_append_right_iff r').mp
        ((List.Perm.of_eq heq).trans List.perm_append_comm)
      obtain rfl := eq_of_perm_documented p hpdoc w hw hperm
      have hpne : p ≠ [] := documented_ne_nil p hpdoc
      obtain ⟨x, hx, hxword⟩ := hstarts
      have hhead := congrArg List.head? heq
      rw [List.head?_append_of_ne_nil _ hpne, List.head?_append_of_ne_nil _ hne] at hhead
      have hlast := congrArg List.getLast? heq
      rw [List.getLast?_append_of_ne_nil _ hne, List.getLast?_append_of_ne_nil _ hpne] at hlast
      -- a token that begins with a part of a word ends with one
      rcases word_ends_of_starts hp (hhead ▸ hx) hxword with ⟨y, hy, hyword⟩
      exact hends ⟨y, hlast ▸ hy, hyword⟩
  · intro hstarts
    exact ⟨p, hpdoc, .inl ⟨r, rfl, hstarts, rfl⟩⟩

/-- Before a token at the end, with none at the start, the rest is right unless it ends in
a word. -/
theorem carries_end_iff (hp : p ∈ trailing) (hno : ∀ w ∈ leading, ¬ w <+: r ++ p) :
    Carries wc (r ++ p) (trimChars r) ↔ ¬ wc.Ends r := by
  have hpdoc := trailing_documented p hp
  constructor
  · rintro ⟨w, hw, hwithout⟩ hends
    rcases hwithout with ⟨r', heq, -, htrim⟩ | ⟨r', heq, hr', htrim⟩
    · have hsolid := congrArg (fun t => (solid t).length) heq
      simp only [solid_append, solid_documented p hpdoc, solid_documented w hw,
        solid_congr htrim, List.length_append] at hsolid
      have hlength : w.length = p.length := by omega
      exact hno w (leading_of_length w hw p hp hlength) ⟨r', heq.symm⟩
    · have hsolid := congrArg solid heq
      rw [solid_append, solid_append, solid_documented p hpdoc, solid_documented w hw,
        solid_congr htrim] at hsolid
      obtain rfl := List.append_cancel_left hsolid
      exact hr' (List.append_cancel_right heq ▸ hends)
  · intro hends
    exact ⟨p, hpdoc, .inr ⟨r, rfl, hends, rfl⟩⟩

/-- The token in single underscores is none of the documented forms. -/
theorem not_carries_oddly (hc : solid c = wrapped "_" "_") :
    ¬ Carries wc (c ++ r) (trimChars r) := by
  rintro ⟨w, hw, ⟨r', heq, -, htrim⟩ | ⟨r', heq, -, htrim⟩⟩
  · have hsolid := congrArg solid heq
    rw [solid_append, solid_append, hc, solid_documented w hw, solid_congr htrim] at hsolid
    rw [← List.append_cancel_right hsolid] at hw
    exact absurd hw (by decide)
  · have hsolid := congrArg (fun t => (solid t).length) heq
    simp only [solid_append, hc, solid_documented w hw, solid_congr htrim, List.length_append]
      at hsolid
    have hlength : w.length = (wrapped "_" "_").length := by omega
    exact absurd hlength (length_documented w hw)

end Rest

/-! ## §7  Exactness -/

section Exactness

variable {wc : WordChars} {s r : List Char} {text : String}

theorem exactOn_found_iff {out : List Char} :
    ExactOn wc s (some (out, true)) ↔ Carries wc s out := by
  constructor
  · rintro (h | _)
    exact h
  · exact .found

theorem stripFromEnd_bare (r : List Char) :
    stripFromEnd (r ++ heartbeatOkToken) = some (some (trimChars r)) := by
  have hdrop : (r ++ heartbeatOkToken).dropSuffix? heartbeatOkToken = some r :=
    List.dropSuffix?_eq_some_iff.mpr ⟨_, rfl, beq_self_eq_true _⟩
  rw [stripFromEnd, hdrop]

theorem dropSuffix?_eq_none {w : List Char} (h : ¬ w <:+ s) : s.dropSuffix? w = none := by
  cases hdrop : s.dropSuffix? w with
  | none => rfl
  | some r =>
      obtain ⟨w', hs, hw'⟩ := List.dropSuffix?_eq_some_iff.mp hdrop
      rw [eq_of_beq hw'] at hs
      exact absurd ⟨r, hs.symm⟩ h

theorem stripFromEnd_starred (r : List Char) :
    stripFromEnd (r ++ wrapped "**" "**") = some (some (trimChars r)) := by
  have hdrop : ¬ heartbeatOkToken <:+ r ++ wrapped "**" "**" := by
    intro h
    have hsuffix := List.suffix_of_suffix_length_le h (List.suffix_append r _) (by decide)
    exact absurd hsuffix (by decide)
  have hends : ("**".toList ++ heartbeatOkToken ++ "**".toList).isSuffixOf
      (r ++ wrapped "**" "**") = true :=
    List.isSuffixOf_iff_suffix.mpr (List.suffix_append r _)
  have hlen : byteLen (r ++ wrapped "**" "**") - (byteLen heartbeatOkToken + 4) = byteLen r := by
    have hsixteen : byteLen (wrapped "**" "**") = byteLen heartbeatOkToken + 4 := by decide
    rw [byteLen_append, hsixteen, Nat.add_sub_cancel]
  rw [stripFromEnd, dropSuffix?_eq_none hdrop]
  show (if _ then _ else _) = _
  rw [if_pos hends, hlen, strTo_append]
  rfl

theorem stripFromEnd_none (h : ∀ w ∈ trailing, ¬ w <:+ s) : stripFromEnd s = some none := by
  rw [stripFromEnd, dropSuffix?_eq_none (h _ (by simp [trailing]))]
  exact if_neg (fun hends =>
    h (wrapped "**" "**") (by simp [trailing]) (List.isSuffixOf_iff_suffix.mp hends))

theorem stripTrimmed_start {rest : List Char} (hs : unwrapAndCheck s = false)
    (h : stripFromStart s [byteLen heartbeatOkToken, byteLen heartbeatOkToken + 4] =
      some (some rest)) : stripTrimmed s = some (rest, true) := by
  rw [stripTrimmed, hs, h]
  rfl

theorem stripTrimmed_end {out : Option (List Char)} (hs : unwrapAndCheck s = false)
    (hstart : stripFromStart s [byteLen heartbeatOkToken, byteLen heartbeatOkToken + 4] =
      some none) (hend : stripFromEnd s = some out) :
    stripTrimmed s = some (out.getD s, out.isSome) := by
  rw [stripTrimmed, hs, hstart]
  show (match stripFromEnd s with
    | none => none
    | some (some rest) => some (rest, true)
    | some none => some (s, false)) = _
  rw [hend]
  cases out <;> rfl

theorem extended_start_iff {p : List Char} (hp : p ∈ leading) :
    Extended wc (p ++ r) ↔ wc.Starts r := by
  have happart : ∀ w ∈ leading, ∀ w' ∈ leading, w <+: w' → w = w' := by decide
  constructor
  · rintro (⟨w, hw, r', heq, hstarts⟩ | ⟨hno, -⟩)
    · have hsame : p = w := by
        rcases List.prefix_or_prefix_of_prefix (List.prefix_append p r)
          (heq ▸ List.prefix_append w r') with h | h
        · exact happart p hp w hw h
        · exact (happart w hw p hp h).symm
      subst hsame
      exact List.append_cancel_left heq ▸ hstarts
    · exact absurd (List.prefix_append p r) (hno p hp)
  · intro hstarts
    exact .inl ⟨p, hp, r, rfl, hstarts⟩

theorem extended_end_iff {p : List Char} (hp : p ∈ trailing)
    (hno : ∀ w ∈ leading, ¬ w <+: r ++ p) : Extended wc (r ++ p) ↔ wc.Ends r := by
  have happart : ∀ w ∈ trailing, ∀ w' ∈ trailing, w <:+ w' → w = w' := by decide
  constructor
  · rintro (⟨w, hw, r', heq, -⟩ | ⟨-, w, hw, r', heq, hends⟩)
    · exact absurd ⟨r', heq.symm⟩ (hno w hw)
    · have hsame : p = w := by
        rcases List.suffix_or_suffix_of_suffix (List.suffix_append r p)
          (heq ▸ List.suffix_append r' w) with h | h
        · exact happart p hp w hw h
        · exact (happart w hw p hp h).symm
      subst hsame
      exact List.append_cancel_right heq ▸ hends
  · intro hends
    exact .inr ⟨hno, p, hp, r, rfl, hends⟩

theorem not_extended (hno : ∀ w ∈ leading, ¬ w <+: s) (hend : ∀ w ∈ trailing, ¬ w <:+ s) :
    ¬ Extended wc s := by
  rintro (⟨w, hw, r, rfl, -⟩ | ⟨-, w, hw, r, rfl, -⟩)
  · exact hno w hw (List.prefix_append w r)
  · exact hend w hw (List.suffix_append r w)

/-- Where the first 16 bytes are the token. -/
theorem carries_candidate_iff {c : List Char} (hs : Trimmed (c ++ r)) (hc : byteLen c = 16)
    (hcand : unwrapAndCheck c = true) (htoken : ¬ heartbeatOkToken <+: c ++ r) :
    Carries wc (c ++ r) (trimChars r) ↔
      ¬ (OddStart (c ++ r) ∨ Extended wc (c ++ r)) := by
  have hstr : strTo (c ++ r) 16 = some c := by rw [← hc, strTo_append]
  have hhead : ∀ x ∈ c.head?, isWhitespace x = false := by
    intro x hx
    refine hs.1 x ?_
    rw [List.head?_append, hx]
    rfl
  have hleading : c ∈ leading → (Carries wc (c ++ r) (trimChars r) ↔
      ¬ (OddStart (c ++ r) ∨ Extended wc (c ++ r))) := by
    intro hp
    rw [carries_start_iff hs hp, extended_start_iff hp, or_iff_right]
    rintro ⟨-, c', hc', -, hdoc⟩
    rw [hstr] at hc'
    obtain rfl := Option.some.inj hc'
    exact hdoc (leading_documented _ hp)
  rcases candidate_sixteen hcand hc hhead with hbare | hstars | hunders | hunder
  · exact absurd (hbare.trans (List.prefix_append c r)) htoken
  · exact hleading (by simp [leading, hstars])
  · exact hleading (by simp [leading, hunders])
  · have hdoc : c ∉ documented := by
      intro hdoc
      rw [← solid_documented c hdoc, hunder] at hdoc
      exact absurd hdoc (by decide)
    exact iff_of_false (not_carries_oddly hunder)
      (fun hclean => hclean (.inl ⟨htoken, c, hstr, hcand, hdoc⟩))

theorem no_leading (htoken : ¬ heartbeatOkToken <+: s)
    (hcand : ∀ c, c <+: s → byteLen c = 16 → unwrapAndCheck c = false) :
    ∀ w ∈ leading, ¬ w <+: s := by
  have hlong : ∀ w ∈ [wrapped "**" "**", wrapped "__" "__"],
      byteLen w = 16 ∧ unwrapAndCheck w = true := by decide
  intro w hw hprefix
  rcases List.mem_cons.mp hw with rfl | hw
  · exact htoken hprefix
  · obtain ⟨hlen, hunwrap⟩ := hlong w hw
    rw [hcand w hprefix hlen] at hunwrap
    cases hunwrap

/-- Where nothing is found at the start. -/
theorem exactOn_end_iff (hunwrap : unwrapAndCheck s = false)
    (hno : ∀ w ∈ leading, ¬ w <+: s)
    (hstart : stripFromStart s [byteLen heartbeatOkToken, byteLen heartbeatOkToken + 4] =
      some none) : ExactOn wc s (stripTrimmed s) ↔ ¬ Extended wc s := by
  by_cases hend : ∃ w ∈ trailing, w <:+ s
  · obtain ⟨w, hw, r, rfl⟩ := hend
    have hfound : stripFromEnd (r ++ w) = some (some (trimChars r)) := by
      rcases List.mem_cons.mp hw with rfl | hw
      · exact stripFromEnd_bare r
      · obtain rfl := List.mem_singleton.mp hw
        exact stripFromEnd_starred r
    rw [stripTrimmed_end hunwrap hstart hfound, extended_end_iff hw hno]
    exact exactOn_found_iff.trans (carries_end_iff hw hno)
  · have hend' : ∀ w ∈ trailing, ¬ w <:+ s := fun w hw h => hend ⟨w, hw, h⟩
    rw [stripTrimmed_end hunwrap hstart (stripFromEnd_none hend')]
    exact iff_of_true .notFound (not_extended hno hend')

/-- **Exactness on trimmed texts.** -/
theorem exactOn_iff (hs : Trimmed s) :
    ExactOn wc s (stripTrimmed s) ↔
      s ∈ documented ∨ ¬ (SplitsChar s ∨ OddlyWrapped s ∨ Extended wc s) := by
  by_cases hunwrap : unwrapAndCheck s = true
  · have hstrip : stripTrimmed s = some ([], true) := by rw [stripTrimmed, if_pos hunwrap]
    rw [hstrip, exactOn_found_iff, carries_nil_iff hs]
    constructor
    · exact Or.inl
    · rintro (hdoc | hclean)
      · exact hdoc
      · by_contra hdoc
        exact hclean (.inr (.inl (.inl ⟨hunwrap, hdoc⟩)))
  · have hdoc : s ∉ documented := fun h => hunwrap (unwrap_documented s h)
    have hodd : OddlyWrapped s ↔ OddStart s := or_iff_right (fun h => hunwrap h.1)
    rw [or_iff_right hdoc, hodd]
    rw [Bool.not_eq_true] at hunwrap
    by_cases htoken : heartbeatOkToken <+: s
    · -- the token at the start
      obtain ⟨r, rfl⟩ := htoken
      have hclean : ¬ SplitsChar (heartbeatOkToken ++ r) := fun h => h.1 (List.prefix_append _ r)
      rw [stripTrimmed_start hunwrap (stripFromStart_token r), or_iff_right hclean,
        or_iff_right (fun h => h.1 (List.prefix_append _ r)),
        extended_start_iff (by simp [leading]), exactOn_found_iff]
      exact carries_start_iff hs (by simp [leading])
    · by_cases hsplit : SplitsChar s
      · have hpanic : stripTrimmed s = none := by
          rw [stripTrimmed, hunwrap, stripFromStart_splitsChar hsplit]
          rfl
        rw [hpanic]
        exact iff_of_false nofun (fun hclean => hclean (.inl hsplit))
      · rw [or_iff_right hsplit]
        rcases stripFromStart_cases htoken hsplit with ⟨c, r, rfl, hc, hcand, hstart⟩ |
          ⟨hcand, hstart⟩
        · rw [stripTrimmed_start hunwrap hstart, exactOn_found_iff]
          exact carries_candidate_iff hs hc hcand htoken
        · have hclean : ¬ OddStart s := by
            rintro ⟨-, c, hc, hunwrapc, -⟩
            obtain ⟨⟨c', r⟩, hcut, rfl⟩ := Option.map_eq_some_iff.mp hc
            obtain ⟨rfl, hlen⟩ := cutAt_eq_some_iff.mp hcut
            rw [hcand c' (List.prefix_append c' r) hlen] at hunwrapc
            cases hunwrapc
          rw [or_iff_right hclean]
          exact exactOn_end_iff hunwrap (no_leading htoken hcand) hstart

/-- **Stripping is exact** if and only if the trimmed reply is a documented form, or no
character goes across the end of a candidate, the token is in no other wrappers, and no word
goes on at it. -/
theorem strip_heartbeat_exact_iff (wc : WordChars) (text : String) :
    Exact wc text ↔
      trimChars text.toList ∈ documented ∨
        ¬ (SplitsChar (trimChars text.toList) ∨ OddlyWrapped (trimChars text.toList) ∨
          Extended wc (trimChars text.toList)) := by
  have htrim : (trim text).toList = trimChars text.toList := String.toList_ofList
  have hresult : (stripHeartbeatToken text).map (fun r => (r.1.toList, r.2)) =
      stripTrimmed (trimChars text.toList) := by
    rw [stripHeartbeatToken]
    generalize stripTrimmed (trimChars text.toList) = result
    cases result with
    | none => rfl
    | some r => simp
  rw [← @exactOn_iff wc _ (trimmed_trimChars _)]
  constructor
  · intro h
    have hstrips := h.strips
    rwa [htrim, hresult] at hstrips
  · intro h
    refine ⟨by rwa [htrim, hresult], fun ackMaxChars => ?_⟩
    rw [← hresult] at h
    rw [shouldDropHeartbeatReply, htrim]
    cases hstrip : stripHeartbeatToken text with
    | none =>
        rw [hstrip] at h
        cases h
    | some r =>
        refine ⟨_, rfl, fun hdrop => ⟨r.1.toList, ?_⟩⟩
        obtain ⟨hfound, -⟩ := Bool.and_eq_true_iff.mp hdrop
        obtain ⟨out, found⟩ := r
        obtain rfl : found = true := hfound
        rw [hstrip] at h
        exact exactOn_found_iff.mp h

/-- The ASCII letters, digits and the underscore. -/
def WordChars.asciiOnly : WordChars where
  isWord c := c.isAlphanum || c == '_'
  ascii _ _ := rfl
  space c h := by
    have hunder : c ≠ '_' := by
      rintro rfl
      exact absurd h (by decide)
    simp only [isWhitespace, Bool.or_eq_true, Bool.and_eq_true, decide_eq_true_eq, beq_iff_eq] at h
    delta Char.isAlphanum Char.isAlpha Char.isUpper Char.isLower Char.isDigit
    simp only [UInt32.le_iff_toNat_le, Bool.or_eq_false_iff, Bool.and_eq_false_iff,
      decide_eq_false_iff_not, beq_eq_false_iff_ne, ge_iff_le, Char.toNat_val, Char.reduceToNat]
    exact ⟨by omega, hunder⟩

/-- A dash where a candidate ends is a panic, and a word that begins like the token is
dropped. -/
theorem dash_and_longer_word :
    ¬ Exact .asciiOnly "All is well… nothing" ∧ ¬ Exact .asciiOnly "HEARTBEAT_OKAY" ∧
      shouldDropHeartbeatReply "HEARTBEAT_OKAY" 300 = some true := by
  refine ⟨fun h => ?_, fun h => ?_, by decide⟩
  · have hpanic : stripHeartbeatToken "All is well… nothing" = none := by decide
    have hstrips := h.strips
    rw [hpanic] at hstrips
    cases hstrips
  · have hfound : stripHeartbeatToken "HEARTBEAT_OKAY" = some ("AY", true) := by decide
    have hsplit : (trim "HEARTBEAT_OKAY").toList = heartbeatOkToken ++ "AY".toList := by
      decide
    have hrest : "AY".toList = trimChars "AY".toList := by decide
    have htrimmed : Trimmed (heartbeatOkToken ++ "AY".toList) := by
      rw [← hsplit, trim, String.toList_ofList]
      exact trimmed_trimChars _
    have hstrips := h.strips
    rw [hfound, hsplit] at hstrips
    have hcarries : Carries .asciiOnly (heartbeatOkToken ++ "AY".toList)
        (trimChars "AY".toList) := hrest ▸ exactOn_found_iff.mp hstrips
    exact (carries_start_iff htrimmed (by simp [leading])).mp hcarries ⟨'A', rfl, by decide⟩

end Exactness

end Oclaw.WorkspaceCore
