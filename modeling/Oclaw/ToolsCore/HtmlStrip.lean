import Oclaw.Lib.AsciiCase
import Oclaw.ToolsCore.ResultCut

/-!
# Script and style blocks of a page

`strip_script_style` and `html_to_text` (`crates/tools-core/src/tool.rs`). A block is found in
a copy of the page in lower case and is cut out of the page at the positions in the copy. They
are those of the block only where the copy has as many bytes before it as the page has. And
what is cut out for a style block can bring the two sides of a script tag together.
-/

namespace Oclaw.ToolsCore

open Oclaw.Lib

/-! ## §1  The rounds of the loop -/

section Rounds

variable (lowercase : List Char → List Char)

/-- Where the first block of a tag begins in the copy and, if it is closed, where it ends. -/
def search (tag : String) (s : List Char) : Option (ℕ × Option ℕ) :=
  (find (openTag tag) (lowercase s)).map (fun start =>
    (start, ((strFrom (lowercase s) start).bind (find (closeTag tag))).map (fun endRel =>
      start + endRel + byteLen (closeTag tag))))

/-- The texts that the loop comes to, a round for each closed block. -/
inductive Reaches (tag : String) : List Char → List Char → Prop where
  | refl (s : List Char) : Reaches tag s s
  | block {s t u : List Char} {a b : ℕ} (hsearch : search lowercase tag s = some (a, some b))
      (hrest : removeRange s a b = some t) (h : Reaches tag t u) : Reaches tag s u

/-- In no round is a cut inside a character or behind the end of the text. -/
def Cuttable (tag : String) (s : List Char) : Prop :=
  ∀ t, Reaches lowercase tag s t →
    (∀ a, search lowercase tag t = some (a, none) → a ≤ byteLen t → isCharBoundary t a = true) ∧
    ∀ a b, search lowercase tag t = some (a, some b) →
      isCharBoundary t a = true ∧ isCharBoundary t b = true

/-- In each round the positions in the copy are those in the text. -/
def InPlace (tag : String) (s : List Char) : Prop :=
  ∀ t, Reaches lowercase tag s t → search lowercase tag t = search asciiLowercase tag t

/-- The tag in any letter case. -/
def HasTag (tag : String) (s : List Char) : Prop := openTag tag <:+: asciiLowercase s

/-- The tag comes together when what is between the two sides is cut out. -/
def Meets (tag : String) (p q : List Char) : Prop :=
  ∃ o o', o ≠ [] ∧ o' ≠ [] ∧ o <:+ p ∧ o' <+: q ∧ asciiLowercase (o ++ o') = openTag tag

/-- In no round for style blocks does a script tag come together. -/
def KeepsApart (s : List Char) : Prop :=
  ∀ t, Reaches lowercase "style" s t →
    ∀ a b, search lowercase "style" t = some (a, some b) →
      ∀ p p' q q', cutAt t a = some (p, p') → cutAt t b = some (q', q) → ¬ Meets "script" p q

/-- **Stripping is total and complete**: no panic, and no tag is left, so that the text is
that of a page without blocks. -/
def StripsAll (html : String) : Prop :=
  ∃ out, stripScriptStyle lowercase html.toList = some out ∧
    ¬ HasTag "script" out ∧ ¬ HasTag "style" out ∧
    htmlToText lowercase html = some (String.ofList (trimChars (plainText false false out)))

/-- The rounds for script blocks, and then those for style blocks, find their blocks in
place. -/
def FindsInPlace (html : String) : Prop :=
  InPlace lowercase "script" html.toList ∧
    ∀ t, stripTag lowercase "script" html.toList = some t → InPlace lowercase "style" t

def StaysApart (html : String) : Prop :=
  ∀ t, stripTag lowercase "script" html.toList = some t → KeepsApart lowercase t

/-- Cuts that are all between characters and that leave no tag, wherever they are. -/
def HappensToStrip (html : String) : Prop :=
  Cuttable lowercase "script" html.toList ∧
    ∀ t, stripTag lowercase "script" html.toList = some t → Cuttable lowercase "style" t ∧
      ∀ u, stripTag lowercase "style" t = some u → ¬ HasTag "script" u ∧ ¬ HasTag "style" u

end Rounds

/-! ## §2  What one round does -/

variable {lowercase : List Char → List Char} {tag : String}
variable {s t u p q r pat : List Char} {a b n : ℕ} {html : String}

theorem find_eq_some (h : find pat s = some n) :
    ∃ p q, s = p ++ (pat ++ q) ∧ byteLen p = n ∧ splitOnceText pat s = some (p, q) := by
  obtain ⟨⟨p, q⟩, hsides, rfl⟩ := Option.map_eq_some_iff.mp h
  exact ⟨p, q, by rw [← List.append_assoc, splitOnceText_eq_some hsides], rfl, hsides⟩

theorem stripTag_of_none (h : search lowercase tag s = none) :
    stripTag lowercase tag s = some s := by
  have hfind : find (openTag tag) (lowercase s) = none := Option.map_eq_none_iff.mp h
  rw [stripTag]
  simp only [hfind]

theorem stripTag_of_open (h : search lowercase tag s = some (a, none)) :
    stripTag lowercase tag s = truncateTo s a := by
  obtain ⟨start, hfind, heq⟩ := Option.map_eq_some_iff.mp h
  obtain ⟨rfl, hclose⟩ := Prod.mk.inj heq
  obtain ⟨p, q, hlower, rfl, -⟩ := find_eq_some hfind
  rw [hlower, strFrom_append, Option.map_eq_none_iff, Option.bind_some] at hclose
  rw [hlower] at hfind
  rw [stripTag]
  simp only [hlower, hfind, strFrom_append, Option.map_some, hclose]

theorem stripTag_of_block (h : search lowercase tag s = some (a, some b)) :
    stripTag lowercase tag s = (removeRange s a b).bind (stripTag lowercase tag) := by
  obtain ⟨start, hfind, heq⟩ := Option.map_eq_some_iff.mp h
  obtain ⟨rfl, hclose⟩ := Prod.mk.inj heq
  obtain ⟨endRel, hend, rfl⟩ := Option.map_eq_some_iff.mp hclose
  obtain ⟨p, q, hlower, rfl, -⟩ := find_eq_some hfind
  rw [hlower, strFrom_append, Option.bind_some] at hend
  rw [hlower] at hfind
  rw [stripTag]
  simp only [hlower, hfind, strFrom_append, Option.map_some, hend]
  split
  · rename_i hrest
    rw [hrest]
    rfl
  · rename_i rest hrest
    rw [hrest]
    rfl

theorem lt_of_search (h : search lowercase tag s = some (a, some b)) : a < b := by
  obtain ⟨start, -, heq⟩ := Option.map_eq_some_iff.mp h
  obtain ⟨rfl, hclose⟩ := Prod.mk.inj heq
  obtain ⟨endRel, -, rfl⟩ := Option.map_eq_some_iff.mp hclose
  have hpos : 0 < byteLen (closeTag tag) := byteLen_pos_iff.mpr (List.cons_ne_nil _ _)
  omega

/-! ### What holds in every round -/

/-- From a text with a closed block, the rounds are this one and those of what is left. -/
theorem forall_reaches_of_block {P : List Char → Prop}
    (hsearch : search lowercase tag s = some (a, some b)) (hrest : removeRange s a b = some t) :
    (∀ u, Reaches lowercase tag s u → P u) ↔ P s ∧ ∀ u, Reaches lowercase tag t u → P u := by
  constructor
  · exact fun h => ⟨h s (.refl s), fun u hu => h u (.block hsearch hrest hu)⟩
  · rintro ⟨hs, ht⟩ u hu
    cases hu with
    | refl => exact hs
    | block hsearch' hrest' hu =>
        rw [hsearch] at hsearch'
        cases hsearch'
        rw [hrest] at hrest'
        cases hrest'
        exact ht u hu

/-- From any other text, there is no other round. -/
theorem forall_reaches_of_stop {P : List Char → Prop}
    (h : ∀ a b, search lowercase tag s = some (a, some b) → removeRange s a b = none) :
    (∀ u, Reaches lowercase tag s u → P u) ↔ P s := by
  constructor
  · exact fun h => h s (.refl s)
  · intro hs u hu
    cases hu with
    | refl => exact hs
    | block hsearch hrest _ =>
        rw [h _ _ hsearch] at hrest
        cases hrest

theorem removeRange_ne_none_iff (hle : a ≤ b) :
    removeRange s a b ≠ none ↔ isCharBoundary s a = true ∧ isCharBoundary s b = true := by
  rw [isCharBoundary_iff, isCharBoundary_iff, removeRange, if_pos hle]
  rcases cutAt s a with _ | ⟨p, p'⟩ <;> rcases cutAt s b with _ | ⟨q', q⟩ <;> simp

theorem truncateTo_ne_none_iff :
    truncateTo s a ≠ none ↔ (a ≤ byteLen s → isCharBoundary s a = true) := by
  rw [truncateTo]
  split
  · rename_i hle
    rw [Ne, strTo_eq_none_iff, not_not]
    exact ⟨fun h _ => h, fun h => h hle⟩
  · rename_i hle
    exact iff_of_true (Option.some_ne_none _) (fun h => absurd h hle)

/-- The loop panics just at a cut that is not between characters. -/
theorem stripTag_ne_none_iff : stripTag lowercase tag s ≠ none ↔ Cuttable lowercase tag s := by
  generalize hn : s.length = n
  induction n using Nat.strongRecOn generalizing s with
  | ind n ih =>
      unfold Cuttable
      rcases hsearch : search lowercase tag s with _ | ⟨a, _ | b⟩
      · rw [stripTag_of_none hsearch, forall_reaches_of_stop (by simp [hsearch])]
        simp [hsearch]
      · rw [stripTag_of_open hsearch, forall_reaches_of_stop (by simp [hsearch]),
          truncateTo_ne_none_iff]
        simp [hsearch]
      · have hlt := lt_of_search hsearch
        have hcuts := removeRange_ne_none_iff (s := s) (Nat.le_of_lt hlt)
        rw [stripTag_of_block hsearch]
        cases hrest : removeRange s a b with
        | none =>
            rw [forall_reaches_of_stop (by simp [hsearch, hrest])]
            rw [hrest] at hcuts
            refine iff_of_false (fun h => h rfl) ?_
            rintro ⟨-, h⟩
            exact hcuts.mpr (h a b hsearch) rfl
        | some t =>
            have hshort := length_removeRange hrest hlt
            rw [forall_reaches_of_block hsearch hrest, Option.bind_some,
              ih t.length (by omega) rfl, Cuttable]
            rw [hrest] at hcuts
            have hboth := hcuts.mp (Option.some_ne_none _)
            refine ⟨fun h => ⟨⟨by simp [hsearch], ?_⟩, h⟩, fun h => h.2⟩
            intro a' b' hsearch'
            rw [hsearch] at hsearch'
            cases hsearch'
            exact hboth

/-! ## §3  Tags -/

theorem HasTag.of_part (h : HasTag tag p) (hpart : p <:+: s) : HasTag tag s :=
  h.trans (List.IsInfix.map Char.toLower hpart)

theorem hasTag_append_iff : HasTag tag (p ++ q) ↔ HasTag tag p ∨ HasTag tag q ∨ Meets tag p q := by
  rw [HasTag, asciiLowercase_append, List.infix_append_iff_ne_nil]
  refine or_congr_right (or_congr_right ?_)
  constructor
  · rintro ⟨l, l', hl, hl', heq, hsuffix, hprefix⟩
    obtain ⟨o, ho, rfl⟩ := List.suffix_map_iff.mp hsuffix
    obtain ⟨o', ho', rfl⟩ := List.prefix_map_iff.mp hprefix
    refine ⟨o, o', ?_, ?_, ho, ho', ?_⟩
    · rintro rfl
      exact hl rfl
    · rintro rfl
      exact hl' rfl
    · rw [asciiLowercase_append, heq]
      rfl
  · rintro ⟨o, o', ho, ho', hsuffix, hprefix, heq⟩
    refine ⟨asciiLowercase o, asciiLowercase o', ?_, ?_, ?_, hsuffix.map _, hprefix.map _⟩
    · exact fun h => ho (List.map_eq_nil_iff.mp h)
    · exact fun h => ho' (List.map_eq_nil_iff.mp h)
    · rw [← heq, asciiLowercase_append]

theorem openTag_ne_nil : openTag tag ≠ [] := List.cons_ne_nil _ _

/-- Without a tag there is nothing to find. -/
theorem search_asciiLowercase_eq_none (h : search asciiLowercase tag s = none) :
    ¬ HasTag tag s := by
  have hfind : find (openTag tag) (asciiLowercase s) = none := Option.map_eq_none_iff.mp h
  exact (splitOnceText_eq_none_iff openTag_ne_nil).mp (Option.map_eq_none_iff.mp hfind)

/-- A block that is found in place begins with the first tag. -/
theorem search_asciiLowercase_eq_some {e : Option ℕ}
    (h : search asciiLowercase tag s = some (a, e)) :
    ∃ p r, s = p ++ r ∧ byteLen p = a ∧ ¬ HasTag tag p ∧ openTag tag <+: asciiLowercase r ∧
      ∀ b, e = some b → ∃ m q, r = m ++ q ∧ byteLen (p ++ m) = b := by
  obtain ⟨start, hfind, heq⟩ := Option.map_eq_some_iff.mp h
  obtain ⟨rfl, rfl⟩ := Prod.mk.inj heq
  obtain ⟨lp, lq, hlower, rfl, hfirst⟩ := find_eq_some hfind
  obtain ⟨p, r, rfl, rfl, hr, -⟩ := exists_of_asciiLowercase_eq_append hlower
  refine ⟨p, r, rfl, (byteLen_asciiLowercase p).symm, splitOnceText_free openTag_ne_nil hfirst,
    ⟨lq, hr.symm⟩, ?_⟩
  intro b hb
  rw [asciiLowercase_append, strFrom_append, Option.bind_some] at hb
  obtain ⟨endRel, hend, rfl⟩ := Option.map_eq_some_iff.mp hb
  obtain ⟨n, q, hclose, rfl, -⟩ := find_eq_some hend
  rw [← List.append_assoc] at hclose
  obtain ⟨m, q', rfl, -, -, hlen⟩ := exists_of_asciiLowercase_eq_append hclose
  refine ⟨m, q', rfl, ?_⟩
  rw [byteLen_append, hlen, byteLen_append, byteLen_asciiLowercase]
  omega

/-! ## §4  Rounds in place -/

/-- A run of the loop that finds its blocks in place, and what it leaves. -/
inductive StripsInPlace (lowercase : List Char → List Char) (tag : String) :
    List Char → List Char → Prop where
  | clean {s : List Char} (hsearch : search lowercase tag s = none) (h : ¬ HasTag tag s) :
      StripsInPlace lowercase tag s s
  | unclosed {p r : List Char} (hsearch : search lowercase tag (p ++ r) = some (byteLen p, none))
      (hp : ¬ HasTag tag p) (hr : openTag tag <+: asciiLowercase r) :
      StripsInPlace lowercase tag (p ++ r) p
  | block {p m q t : List Char}
      (hsearch : search lowercase tag (p ++ (m ++ q)) = some (byteLen p, some (byteLen (p ++ m))))
      (hp : ¬ HasTag tag p) (hr : openTag tag <+: asciiLowercase (m ++ q))
      (h : StripsInPlace lowercase tag (p ++ q) t) :
      StripsInPlace lowercase tag (p ++ (m ++ q)) t

theorem removeRange_middle (p m q : List Char) :
    removeRange (p ++ (m ++ q)) (byteLen p) (byteLen (p ++ m)) = some (p ++ q) := by
  have hle : byteLen p ≤ byteLen (p ++ m) := byteLen_le_of_isPrefix (List.prefix_append p m)
  have hq : cutAt (p ++ (m ++ q)) (byteLen (p ++ m)) = some (p ++ m, q) := by
    rw [← List.append_assoc]
    exact cutAt_append (p ++ m) q
  rw [removeRange, if_pos hle, cutAt_append, hq]

theorem exists_stripsInPlace (h : InPlace lowercase tag s) :
    ∃ t, stripTag lowercase tag s = some t ∧ StripsInPlace lowercase tag s t := by
  generalize hn : s.length = n
  induction n using Nat.strongRecOn generalizing s with
  | ind n ih =>
      have hsame := h s (.refl s)
      rcases hsearch : search lowercase tag s with _ | ⟨a, e⟩
      · rw [hsearch] at hsame
        exact ⟨s, stripTag_of_none hsearch,
          .clean hsearch (search_asciiLowercase_eq_none hsame.symm)⟩
      · rw [hsearch] at hsame
        obtain ⟨p, r, rfl, rfl, hp, hr, hend⟩ := search_asciiLowercase_eq_some hsame.symm
        cases e with
        | none =>
            refine ⟨p, ?_, .unclosed hsearch hp hr⟩
            rw [stripTag_of_open hsearch, truncateTo,
              if_pos (byteLen_le_of_isPrefix (List.prefix_append p r)), strTo_append]
        | some b =>
            obtain ⟨m, q, rfl, rfl⟩ := hend b rfl
            have hrest := removeRange_middle p m q
            have hshort := length_removeRange hrest (lt_of_search hsearch)
            have hleft : InPlace lowercase tag (p ++ q) :=
              ((forall_reaches_of_block hsearch hrest).mp h).2
            obtain ⟨t, hstrip, hrun⟩ := ih (p ++ q).length (by omega) hleft rfl
            refine ⟨t, ?_, .block hsearch hp hr hrun⟩
            rw [stripTag_of_block hsearch, hrest, Option.bind_some, hstrip]

/-- No tag is left. -/
theorem StripsInPlace.not_hasTag (h : StripsInPlace lowercase tag s t) : ¬ HasTag tag t := by
  induction h with
  | clean _ h => exact h
  | unclosed _ hp _ => exact hp
  | block _ _ _ _ ih => exact ih

/-! ### A script tag that comes together -/

/-- A script tag with no style tag before its end: no later round for style blocks cuts into
it. -/
def Carries (s : List Char) : Prop :=
  ∃ x o r, s = x ++ (o ++ r) ∧ asciiLowercase o = openTag "script" ∧ ¬ HasTag "style" (x ++ o)

theorem Carries.hasTag (h : Carries s) : HasTag "script" s := by
  obtain ⟨x, o, r, rfl, ho, -⟩ := h
  rw [HasTag, asciiLowercase_append, asciiLowercase_append, ho]
  exact ⟨_, _, List.append_assoc ..⟩

/-- The two tags differ in their third character. -/
theorem openTag_apart (h : openTag "script" ++ p = openTag "style" ++ q) : False := by
  simp [openTag] at h

/-- Where a script tag and a style tag begin, neither is in the other. -/
theorem script_style_cases {x y w r : List Char}
    (h : x ++ (openTag "script" ++ r) = y ++ (openTag "style" ++ w)) :
    x ++ openTag "script" <+: y ∨ y ++ openTag "style" <+: x := by
  rcases marked_cases (by decide) (by decide) h with rfl | h | h
  · exact absurd (List.append_cancel_left h) openTag_apart
  · exact Or.inl h
  · exact Or.inr h

theorem carries_of_meets (hp : ¬ HasTag "style" p) (h : Meets "script" p q) : Carries (p ++ q) := by
  obtain ⟨o, o', -, -, ⟨x, rfl⟩, ⟨r, rfl⟩, heq⟩ := h
  refine ⟨x, o ++ o', r, by simp, heq, ?_⟩
  rintro ⟨y, w, hyw⟩
  rw [asciiLowercase_append, heq, List.append_assoc] at hyw
  rcases script_style_cases (r := []) (by rw [List.append_nil]; exact hyw.symm) with h | h
  · -- the style tag would be behind the end
    have hle := h.length_le
    have hlen := congrArg List.length hyw
    simp only [List.length_append, openTag, List.length_cons] at hle hlen
    omega
  · refine hp (HasTag.of_part ?_ (List.prefix_append x o).isInfix)
    exact (List.suffix_append y _).isInfix.trans h.isInfix

/-- A style block begins behind it. -/
theorem Carries.before_block (h : Carries (p ++ r)) (hr : openTag "style" <+: asciiLowercase r) :
    ∃ x o c, p = x ++ (o ++ c) ∧ asciiLowercase o = openTag "script" ∧
      ¬ HasTag "style" (x ++ o) := by
  obtain ⟨x, o, r', heq, ho, hfree⟩ := h
  obtain ⟨w, hw⟩ := hr
  have hlower : asciiLowercase x ++ (openTag "script" ++ asciiLowercase r') =
      asciiLowercase p ++ (openTag "style" ++ w) := by
    rw [hw, ← ho, ← asciiLowercase_append, ← asciiLowercase_append, ← asciiLowercase_append, heq]
  rcases script_style_cases hlower with h | h
  · have hlen := h.length_le
    rw [← ho, ← asciiLowercase_append, length_asciiLowercase, length_asciiLowercase] at hlen
    have hpre : x ++ o <+: p := by
      refine List.prefix_of_prefix_length_le ?_ (List.prefix_append p r) hlen
      rw [heq, ← List.append_assoc]
      exact List.prefix_append _ _
    obtain ⟨c, rfl⟩ := hpre
    exact ⟨x, o, c, List.append_assoc .., ho, hfree⟩
  · refine absurd (HasTag.of_part ?_ (List.prefix_append x o).isInfix) hfree
    exact (List.suffix_append _ _).isInfix.trans h.isInfix

/-- It is still there in the end. -/
theorem StripsInPlace.carries (h : StripsInPlace lowercase "style" s t) (hs : Carries s) :
    Carries t := by
  induction h with
  | clean _ _ => exact hs
  | unclosed _ _ hr =>
      obtain ⟨x, o, c, rfl, ho, hfree⟩ := hs.before_block hr
      exact ⟨x, o, c, rfl, ho, hfree⟩
  | @block p m q t _ _ hr _ ih =>
      obtain ⟨x, o, c, rfl, ho, hfree⟩ := hs.before_block hr
      exact ih ⟨x, o, c ++ q, by simp, ho, hfree⟩

theorem keepsApart_of_block {m : List Char} (hsearch : search lowercase "style" (p ++ (m ++ q)) =
    some (byteLen p, some (byteLen (p ++ m)))) :
    KeepsApart lowercase (p ++ (m ++ q)) ↔
      ¬ Meets "script" p q ∧ KeepsApart lowercase (p ++ q) := by
  unfold KeepsApart
  rw [forall_reaches_of_block hsearch (removeRange_middle p m q)]
  refine and_congr_left (fun _ => ?_)
  have hp : cutAt (p ++ (m ++ q)) (byteLen p) = some (p, m ++ q) := cutAt_append p _
  have hq : cutAt (p ++ (m ++ q)) (byteLen (p ++ m)) = some (p ++ m, q) := by
    rw [← List.append_assoc]
    exact cutAt_append (p ++ m) q
  constructor
  · exact fun h => h _ _ hsearch _ _ _ _ hp hq
  · intro h a b hsearch' p₁ p' q₁ q' hp₁ hq₁
    rw [hsearch] at hsearch'
    cases hsearch'
    rw [hp] at hp₁
    rw [hq] at hq₁
    cases hp₁
    cases hq₁
    exact h

/-- The rounds for style blocks leave a script tag just when one comes together in them. -/
theorem StripsInPlace.hasTag_iff (h : StripsInPlace lowercase "style" s t)
    (hs : ¬ HasTag "script" s) : ¬ HasTag "script" t ↔ KeepsApart lowercase s := by
  induction h with
  | clean hsearch _ =>
      refine iff_of_true hs ?_
      rw [KeepsApart, forall_reaches_of_stop (by simp [hsearch])]
      simp [hsearch]
  | unclosed hsearch _ _ =>
      refine iff_of_true (fun h => hs (h.of_part (List.prefix_append _ _).isInfix)) ?_
      rw [KeepsApart, forall_reaches_of_stop (by simp [hsearch])]
      simp [hsearch]
  | @block p m q t hsearch hp hr hrun ih =>
      rw [keepsApart_of_block hsearch]
      by_cases hmeets : Meets "script" p q
      · have hcarries := hrun.carries (carries_of_meets hp hmeets)
        exact iff_of_false (fun h => h hcarries.hasTag) (fun h => h.1 hmeets)
      · have hfree : ¬ HasTag "script" (p ++ q) := by
          rw [hasTag_append_iff]
          rintro (h | h | h)
          · exact hs (h.of_part (List.prefix_append _ _).isInfix)
          · exact hs (h.of_part ((List.suffix_append m q).trans (List.suffix_append p _)).isInfix)
          · exact hmeets h
        rw [ih hfree]
        exact ⟨fun h => ⟨hmeets, h⟩, fun h => h.2⟩

/-! ## §5  Pages -/

theorem stripScriptStyle_eq (s : List Char) : stripScriptStyle lowercase s =
    (stripTag lowercase "script" s).bind (stripTag lowercase "style") := rfl

theorem stripsAll_iff : StripsAll lowercase html ↔ ∃ out,
    stripScriptStyle lowercase html.toList = some out ∧ ¬ HasTag "script" out ∧
      ¬ HasTag "style" out := by
  constructor
  · rintro ⟨out, hout, hscript, hstyle, -⟩
    exact ⟨out, hout, hscript, hstyle⟩
  · rintro ⟨out, hout, hscript, hstyle⟩
    refine ⟨out, hout, hscript, hstyle, ?_⟩
    rw [htmlToText, hout]
    rfl

theorem stripsAll_iff_happens : StripsAll lowercase html ↔ HappensToStrip lowercase html := by
  rw [stripsAll_iff, HappensToStrip, ← stripTag_ne_none_iff, stripScriptStyle_eq]
  cases stripTag lowercase "script" html.toList with
  | none => simp
  | some t =>
      rw [Option.bind_some]
      simp only [← stripTag_ne_none_iff]
      rcases hstyle : stripTag lowercase "style" t with _ | u <;> simp [hstyle]

theorem stripsAll_iff_apart (h : FindsInPlace lowercase html) :
    StripsAll lowercase html ↔ StaysApart lowercase html := by
  obtain ⟨t, hstrip, hrun⟩ := exists_stripsInPlace h.1
  obtain ⟨u, hstyle, hrun'⟩ := exists_stripsInPlace (h.2 t hstrip)
  have hkeeps := hrun'.hasTag_iff hrun.not_hasTag
  rw [stripsAll_iff, stripScriptStyle_eq, hstrip, Option.bind_some, hstyle]
  constructor
  · rintro ⟨out, hout, hfree, -⟩ t' ht'
    rw [hstrip] at ht'
    cases hout
    cases ht'
    exact hkeeps.mp hfree
  · intro hapart
    exact ⟨u, rfl, hkeeps.mpr (hapart t hstrip), hrun'.not_hasTag⟩

theorem subset_of_removeRange (h : removeRange s a b = some t) : t ⊆ s := by
  rw [removeRange] at h
  split at h
  · split at h
    · rename_i p p' q' q hp hq
      cases h
      obtain ⟨hs, -⟩ := cutAt_eq_some_iff.mp hp
      obtain ⟨hs', -⟩ := cutAt_eq_some_iff.mp hq
      refine List.append_subset.mpr ⟨?_, ?_⟩
      · rw [hs]
        exact List.subset_append_left p p'
      · rw [hs']
        exact List.subset_append_right q' q
    · cases h
  · cases h

theorem StripsInPlace.subset (h : StripsInPlace lowercase tag s t) : t ⊆ s := by
  induction h with
  | clean _ _ => exact List.Subset.refl _
  | unclosed _ _ _ => exact List.subset_append_left _ _
  | block _ _ _ _ ih =>
      exact List.Subset.trans ih (subset_of_removeRange (removeRange_middle _ _ _))

/-- Where ASCII text is lowered as such, the blocks of an ASCII page are found in place. -/
theorem findsInPlace_of_ascii
    (hlower : ∀ s, (∀ c ∈ s, c.toNat < 128) → lowercase s = asciiLowercase s)
    (hhtml : ∀ c ∈ html.toList, c.toNat < 128) : FindsInPlace lowercase html := by
  have hinPlace : ∀ tag s, (∀ c ∈ s, c.toNat < 128) → InPlace lowercase tag s := by
    intro tag s hs t ht
    have hascii : ∀ c ∈ t, c.toNat < 128 := by
      induction ht with
      | refl => exact hs
      | block _ hrest _ ih => exact ih (fun c hc => hs c (subset_of_removeRange hrest hc))
    rw [search, search, hlower t hascii]
  refine ⟨hinPlace _ _ hhtml, fun t ht => hinPlace _ _ ?_⟩
  obtain ⟨t', ht', hrun⟩ := exists_stripsInPlace (hinPlace "script" _ hhtml)
  rw [ht] at ht'
  cases ht'
  exact fun c hc => hhtml c (hrun.subset hc)

/-- A copy in lower case, as the standard library makes it of these pages. -/
def lowerCopy (s : List Char) : List Char := (toLowercase (String.ofList s)).toList

end Oclaw.ToolsCore
