import Mathlib.Data.List.Infix
import Oclaw.Lib.Search

/-!
# Texts laced with a pattern

A text laced with a pattern is pieces with the pattern between them. For a pattern that does
not overlap itself, replacing it by nothing leaves the pieces, and leaves the pattern there
again exactly where an occurrence of it was interrupted by others.
-/

namespace Oclaw.Lib

variable {pat s t q r a b : List Char} {qs ms : List (List Char)}

/-! ## Pieces -/

/-- The pieces `q` and `qs` with the pattern between them. -/
def laced (pat q : List Char) (qs : List (List Char)) : List Char := q ++ qs.flatMap (pat ++ ·)

@[simp] theorem laced_nil : laced pat q [] = q := by simp [laced]

@[simp] theorem laced_cons : laced pat q (r :: qs) = q ++ (pat ++ laced pat r qs) := by
  simp [laced]

/-- A text without the pattern. -/
def FreeOf (pat s : List Char) : Prop := ¬ pat <:+: s

theorem FreeOf.of_part (h : FreeOf pat s) (hpart : t <:+: s) : FreeOf pat t :=
  fun hpat => h (hpat.trans hpart)

theorem FreeOf.of_length (h : s.length < pat.length) : FreeOf pat s :=
  fun hpat => absurd hpat.length_le (Nat.not_le.mpr h)

theorem laced_append (q : List Char) (qs : List (List Char)) (r : List Char)
    (rs : List (List Char)) :
    laced pat q qs ++ (pat ++ laced pat r rs) = laced pat q (qs ++ r :: rs) := by
  simp [laced]

/-- Every text is pieces without the pattern, laced with it. -/
theorem exists_laced (hne : pat ≠ []) (t : List Char) :
    ∃ q qs, t = laced pat q qs ∧ ∀ r ∈ q :: qs, FreeOf pat r := by
  generalize hn : t.length = n
  induction n using Nat.strongRecOn generalizing t with
  | ind n ih =>
      by_cases hfree : FreeOf pat t
      · exact ⟨t, [], laced_nil.symm, by simpa using hfree⟩
      · obtain ⟨a, b, rfl⟩ := not_not.mp hfree
        have hpos := List.length_pos_iff.mpr hne
        rw [List.length_append, List.length_append] at hn
        obtain ⟨qa, qas, ha, hfreea⟩ := ih a.length (by omega) a rfl
        obtain ⟨qb, qbs, hb, hfreeb⟩ := ih b.length (by omega) b rfl
        refine ⟨qa, qas ++ qb :: qbs, ?_, ?_⟩
        · rw [← laced_append, ← ha, ← hb, List.append_assoc]
        · rw [← List.cons_append]
          exact List.forall_mem_append.mpr ⟨hfreea, hfreeb⟩

/-! ## Patterns that do not overlap themselves -/

/-- Nothing but the whole pattern is both a start and an end of it. -/
def Unbordered (pat : List Char) : Prop :=
  pat ≠ [] ∧ ∀ s, s ≠ [] → s <+: pat → s <:+ pat → s = pat

theorem unbordered_of_inits (hne : pat ≠ [])
    (h : (pat.inits.all fun s => s.isEmpty || !s.isSuffixOf pat || s == pat) = true) :
    Unbordered pat := by
  refine ⟨hne, fun s hs hstart hend => ?_⟩
  have hcheck := List.all_eq_true.mp h s ((List.mem_inits _ _).mpr hstart)
  simpa [hs, List.isSuffixOf_iff_suffix.mpr hend] using hcheck

/-- A start of one occurrence that ends the pattern is all of it. -/
theorem Unbordered.eq_of_start (h : Unbordered pat) (hs : s ≠ []) (hend : s <:+ pat)
    (hstart : s <+: pat ++ t) : s = pat :=
  h.2 s hs (List.prefix_of_prefix_length_le hstart (List.prefix_append _ _) hend.length_le) hend

/-- No occurrence begins in a piece and goes on into the pattern behind it. -/
theorem Unbordered.not_start (h : Unbordered pat) (hs : s ≠ []) (hfree : FreeOf pat s) :
    ¬ pat <+: s ++ (pat ++ t) := by
  intro hocc
  rcases Nat.lt_or_ge s.length pat.length with hlt | hge
  · obtain ⟨rest, hrest⟩ := List.prefix_of_prefix_length_le (List.prefix_append s _) hocc
      (Nat.le_of_lt hlt)
    have hne : rest ≠ [] := by
      rintro rfl
      rw [List.append_nil] at hrest
      rw [hrest] at hlt
      exact Nat.lt_irrefl _ hlt
    have hstart : rest <+: pat ++ t := by
      rw [← hrest, List.prefix_append_right_inj] at hocc
      exact hrest ▸ hocc
    have hwhole := h.eq_of_start hne ⟨s, hrest⟩ hstart
    rw [hwhole] at hrest
    exact hs (List.append_left_eq_self.mp hrest)
  · exact hfree (List.prefix_of_prefix_length_le hocc (List.prefix_append s _) hge).isInfix

/-! ## Replacing by nothing -/

theorem replaceAux_skip (w : List Char) (t : List Char) :
    replaceAux pat [] w.length (w ++ t) = replaceAux pat [] 0 t := by
  induction w with
  | nil => rfl
  | cons c w ih => exact ih

theorem replaceAux_pat (hne : pat ≠ []) (t : List Char) :
    replaceAux pat [] 0 (pat ++ t) = replaceAux pat [] 0 t := by
  obtain ⟨c, w, rfl⟩ := List.exists_cons_of_ne_nil hne
  have hocc : (c :: w).isPrefixOf (c :: (w ++ t)) = true :=
    List.isPrefixOf_iff_prefix.mpr (List.prefix_append (c :: w) t)
  rw [List.cons_append, replaceAux, if_pos hocc]
  exact replaceAux_skip w t

/-- Where no occurrence goes across, the two sides are replaced separately. -/
theorem replaceAux_append (hne : pat ≠ [])
    (h : ∀ s', s' ≠ [] → s' <:+ s → s'.length < pat.length → ¬ pat <+: s' ++ t) :
    replaceAux pat [] 0 (s ++ t) = replaceAux pat [] 0 s ++ replaceAux pat [] 0 t := by
  generalize hn : s.length = n
  induction n using Nat.strongRecOn generalizing s with
  | ind n ih =>
      cases s with
      | nil => rfl
      | cons c s =>
          by_cases hocc : pat <+: c :: s
          · obtain ⟨rest, hrest⟩ := hocc
            have hpos := List.length_pos_iff.mpr hne
            have hlen := congrArg List.length hrest
            rw [List.length_append] at hlen
            rw [← hrest, List.append_assoc, replaceAux_pat hne, replaceAux_pat hne]
            refine ih rest.length (by omega) (fun s' hs' hsuf => h s' hs' (hsuf.trans ?_)) rfl
            rw [← hrest]
            exact List.suffix_append _ _
          · have hno : ¬ pat.isPrefixOf (c :: s) = true :=
              fun hpre => hocc (List.isPrefixOf_iff_prefix.mp hpre)
            have hno' : ¬ pat.isPrefixOf (c :: (s ++ t)) = true := by
              intro hpre
              have hpre := List.isPrefixOf_iff_prefix.mp hpre
              rcases Nat.lt_or_ge (c :: s).length pat.length with hlt | hge
              · exact h (c :: s) (by simp) (List.suffix_refl _) hlt hpre
              · exact hocc (List.prefix_of_prefix_length_le hpre
                  (List.prefix_append (c :: s) t) hge)
            rw [List.cons_append, replaceAux, if_neg hno', replaceAux, if_neg hno,
              ih s.length (by rw [← hn]; exact Nat.lt_succ_self _)
                (fun s' hs' hsuf => h s' hs' (hsuf.trans (List.suffix_cons _ _))) rfl]
            rfl

theorem replaceAux_of_freeOf (hfree : FreeOf pat s) : replaceAux pat [] 0 s = s := by
  induction s with
  | nil => rfl
  | cons c s ih =>
      have hno : ¬ pat.isPrefixOf (c :: s) = true :=
        fun hpre => hfree (List.isPrefixOf_iff_prefix.mp hpre).isInfix
      rw [replaceAux, if_neg hno, ih (hfree.of_part (List.suffix_cons c s).isInfix)]

/-- **Replacing by nothing** leaves the pieces. -/
theorem replaceAux_laced (h : Unbordered pat) (hfree : ∀ r ∈ q :: qs, FreeOf pat r) :
    replaceAux pat [] 0 (laced pat q qs) = q ++ qs.flatten := by
  induction qs generalizing q with
  | nil =>
      rw [laced_nil, replaceAux_of_freeOf (hfree q List.mem_cons_self)]
      simp
  | cons r qs ih =>
      obtain ⟨hq, hqs⟩ := List.forall_mem_cons.mp hfree
      rw [laced_cons, replaceAux_append h.1, replaceAux_of_freeOf hq, replaceAux_pat h.1, ih hqs,
        List.flatten_cons]
      exact fun s hs hsuf _ => h.not_start hs (hq.of_part hsuf.isInfix)

/-! ## Interrupted occurrences -/

/-- Somewhere in the text there are the pieces of an occurrence, two or more, with the pattern
between them. -/
def Interrupted (pat t : List Char) : Prop :=
  ∃ before m ms last after, t = before ++ laced pat m (ms ++ [last]) ++ after ∧
    m ++ (ms ++ [last]).flatten = pat ∧ m ≠ [] ∧ last ≠ []

/-- The pieces that a start of the joined pieces goes through. -/
theorem laced_of_start {p : List Char} (hp : p ≠ []) (h : q ++ qs.flatten = p ++ b) :
    p <+: q ∨ ∃ ms last after, laced pat q qs = laced pat q (ms ++ [last]) ++ after ∧
      q ++ (ms ++ [last]).flatten = p ∧ last ≠ [] := by
  induction qs generalizing q p with
  | nil =>
      left
      rw [List.flatten_nil, List.append_nil] at h
      exact ⟨b, h.symm⟩
  | cons r qs ih =>
      rcases List.append_eq_append_iff.mp h with ⟨rest, hp', hrest⟩ | ⟨rest, hq, -⟩
      · -- the start goes on behind the first piece
        rcases List.eq_nil_or_concat' rest with rfl | ⟨init, c, hne⟩
        · left
          rw [hp', List.append_nil]
        · right
          have hrest' : rest ≠ [] := by rw [hne]; simp
          rw [List.flatten_cons] at hrest
          rcases ih hrest' hrest with ⟨tail, htail⟩ | ⟨ms, last, after, hlaced, hflat, hlast⟩
          · refine ⟨[], rest, tail ++ qs.flatMap (pat ++ ·), ?_, by simp [hp'], hrest'⟩
            simp [laced, ← htail]
          · refine ⟨r :: ms, last, after, ?_, ?_, hlast⟩
            · rw [laced_cons, hlaced]
              simp [laced]
            · rw [hp', ← hflat]
              simp
      · left
        exact ⟨rest, hq.symm⟩

/-- An occurrence in the joined pieces is in one of them, or it is interrupted. -/
theorem interrupted_of_part (hne : pat ≠ []) (h : pat <:+: q ++ qs.flatten) :
    (∃ r ∈ q :: qs, pat <:+: r) ∨ Interrupted pat (laced pat q qs) := by
  obtain ⟨a, b, hab⟩ := h
  induction qs generalizing q a with
  | nil =>
      left
      refine ⟨q, List.mem_cons_self, a, b, ?_⟩
      rw [hab]
      simp
  | cons r qs ih =>
      have hskip (a : List Char) (h : a ++ (pat ++ b) = r ++ qs.flatten) :
          (∃ r' ∈ q :: r :: qs, pat <:+: r') ∨ Interrupted pat (laced pat q (r :: qs)) := by
        rcases ih a (by rw [List.append_assoc]; exact h) with ⟨r', hr', hpart⟩ |
          ⟨before, m, ms, last, after, heq, hrest⟩
        · exact Or.inl ⟨r', List.mem_cons_of_mem _ hr', hpart⟩
        · refine Or.inr ⟨q ++ (pat ++ before), m, ms, last, after, ?_, hrest⟩
          rw [laced_cons, heq]
          simp
      rw [List.append_assoc] at hab
      rcases List.append_eq_append_iff.mp hab with ⟨rest, hq, hpieces⟩ | ⟨rest, ha, hlater⟩
      · by_cases hrest : rest = []
        · -- it begins with the second piece
          rw [hrest, List.nil_append] at hpieces
          rw [hrest, List.append_nil] at hq
          exact hskip [] (by rw [List.nil_append, hpieces]; rfl)
        · rcases laced_of_start hne hpieces.symm with hpre | ⟨ms, last, after, hlaced, hflat, hlast⟩
          · left
            refine ⟨q, List.mem_cons_self, ?_⟩
            rw [hq]
            exact hpre.isInfix.trans (List.suffix_append a rest).isInfix
          · right
            refine ⟨a, rest, ms, last, after, ?_, hflat, hrest, hlast⟩
            rw [List.append_assoc, ← hlaced, hq]
            simp [laced]
      · exact hskip rest hlater.symm

/-- No occurrence goes across the start of a piece that starts the pattern. -/
theorem Unbordered.not_start_across {m : List Char} (h : Unbordered pat) (hm : m <+: pat)
    (hs : s ≠ []) (hslt : s.length < pat.length) :
    ¬ pat <+: s ++ (m ++ (pat ++ t)) := by
  intro hocc
  obtain ⟨rest, hrest⟩ := List.prefix_of_prefix_length_le (List.prefix_append s _) hocc
    (Nat.le_of_lt hslt)
  have hshorter : rest.length < pat.length := by
    have hlen := congrArg List.length hrest
    have hpos := List.length_pos_iff.mpr hs
    rw [List.length_append] at hlen
    omega
  have hne : rest ≠ [] := by
    rintro rfl
    rw [List.append_nil] at hrest
    rw [hrest] at hslt
    exact Nat.lt_irrefl _ hslt
  have hstart : rest <+: m ++ (pat ++ t) := by
    rw [← hrest, List.prefix_append_right_inj] at hocc
    exact hrest ▸ hocc
  rcases Nat.lt_or_ge m.length rest.length with hlong | hshort
  · -- it goes on into the pattern behind the piece
    obtain ⟨rest', rfl⟩ := List.prefix_of_prefix_length_le (List.prefix_append m _) hstart
      (Nat.le_of_lt hlong)
    have hne' : rest' ≠ [] := by
      rintro rfl
      simp at hlong
    have hstart' : rest' <+: pat ++ t := (List.prefix_append_right_inj m).mp hstart
    have hend : rest' <:+ pat := ⟨s ++ m, by rw [List.append_assoc]; exact hrest⟩
    have hwhole := h.eq_of_start hne' hend hstart'
    rw [List.length_append, hwhole] at hshorter
    omega
  · have hpiece := List.prefix_of_prefix_length_le hstart (List.prefix_append m _) hshort
    have hwhole := h.2 rest hne (hpiece.trans hm) ⟨s, hrest⟩
    rw [hwhole] at hshorter
    exact Nat.lt_irrefl _ hshorter

theorem replaceAux_laced_append {m last : List Char} (h : Unbordered pat)
    (hfree : ∀ r ∈ m :: ms, FreeOf pat r) (hend : last <:+ pat)
    (hlt : last.length < pat.length) :
    replaceAux pat [] 0 (laced pat m (ms ++ [last]) ++ t) =
      m ++ (ms ++ [last]).flatten ++ replaceAux pat [] 0 t := by
  induction ms generalizing m with
  | nil =>
      have hm := hfree m List.mem_cons_self
      have hsplit : laced pat m ([] ++ [last]) ++ t = m ++ (pat ++ (last ++ t)) := by simp
      rw [hsplit, replaceAux_append h.1, replaceAux_of_freeOf hm, replaceAux_pat h.1,
        replaceAux_append h.1, replaceAux_of_freeOf (.of_length hlt)]
      · simp
      · intro s hs hsuf hslt hocc
        have hstart := List.prefix_of_prefix_length_le (List.prefix_append s t) hocc
          (Nat.le_of_lt hslt)
        have hwhole := h.2 s hs hstart (hsuf.trans hend)
        rw [hwhole] at hslt
        exact Nat.lt_irrefl _ hslt
      · exact fun s hs hsuf _ => h.not_start hs (hm.of_part hsuf.isInfix)
  | cons r ms ih =>
      obtain ⟨hm, hms⟩ := List.forall_mem_cons.mp hfree
      have hsplit : laced pat m (r :: ms ++ [last]) ++ t =
          m ++ (pat ++ (laced pat r (ms ++ [last]) ++ t)) := by simp
      rw [hsplit, replaceAux_append h.1, replaceAux_of_freeOf hm, replaceAux_pat h.1, ih hms]
      · simp
      · exact fun s hs hsuf _ => h.not_start hs (hm.of_part hsuf.isInfix)

/-- An interrupted occurrence is whole when the others are gone. -/
theorem infix_replaceAux_of_interrupted (h : Unbordered pat) (hi : Interrupted pat t) :
    pat <:+: replaceAux pat [] 0 t := by
  obtain ⟨before, m, ms, last, after, rfl, hflat, hm, hlast⟩ := hi
  have hsum := congrArg List.length hflat
  have hmpos := List.length_pos_iff.mpr hm
  have hlastpos := List.length_pos_iff.mpr hlast
  rw [List.flatten_append, List.flatten_singleton, List.length_append, List.length_append] at hsum
  have hfree : ∀ r ∈ m :: ms, FreeOf pat r := by
    intro r hr
    apply FreeOf.of_length
    rcases List.mem_cons.mp hr with rfl | hr
    · omega
    · have := (List.infix_of_mem_flatten hr).length_le
      omega
  have hend : last <:+ pat := by
    rw [← hflat]
    exact ⟨m ++ ms.flatten, by simp⟩
  have hstart : m <+: pat := by
    rw [← hflat]
    exact List.prefix_append _ _
  have hfirst : ∃ w, laced pat m (ms ++ [last]) = m ++ (pat ++ w) := by
    cases ms with
    | nil => exact ⟨last, by simp⟩
    | cons r ms => exact ⟨laced pat r (ms ++ [last]), by simp⟩
  obtain ⟨w, hw⟩ := hfirst
  rw [List.append_assoc, replaceAux_append h.1, replaceAux_laced_append h hfree hend (by omega),
    hflat]
  · exact ⟨_, _, List.append_assoc ..⟩
  · intro s hs _ hslt
    rw [hw, List.append_assoc, List.append_assoc]
    exact h.not_start_across hstart hs hslt

/-- **Occurrences behind a replacement** are the interrupted ones. -/
theorem infix_replaceAux_iff (h : Unbordered pat) :
    pat <:+: replaceAux pat [] 0 t ↔ Interrupted pat t := by
  constructor
  · intro hocc
    obtain ⟨q, qs, rfl, hfree⟩ := exists_laced h.1 t
    rw [replaceAux_laced h hfree] at hocc
    rcases interrupted_of_part h.1 hocc with ⟨r, hr, hpart⟩ | hi
    · exact absurd hpart (hfree r hr)
    · exact hi
  · exact infix_replaceAux_of_interrupted h

end Oclaw.Lib
