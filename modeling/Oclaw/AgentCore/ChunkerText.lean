import Oclaw.AgentCore.ChunkerRounds

/-!
# Text that passes through the chunker

A text without fences is cut into pieces, each of them is trimmed, and nothing is put back.
What is lost is whitespace. Where the cuts fall depends on the searches for a break, and on
the end of the window when they find none.
-/

namespace Oclaw.AgentCore.StreamChunker

open Oclaw.Lib

variable {cfg : ChunkingConfig} {force : Bool} {text line l p q r b b' buf : List Char}
  {c : Char} {i n : ℕ}

/-! ## §1  Texts without fences -/

/-- The text has no run of three backticks or tildes. -/
def FenceFree (text : List Char) : Prop :=
  ¬ List.replicate 3 backtick <:+: text ∧ ¬ List.replicate 3 '~' <:+: text

def Ascii (text : List Char) : Prop := ∀ c ∈ text, c.toNat < 128

theorem FenceFree.sub (h : FenceFree text) (hsub : l <:+: text) : FenceFree l :=
  ⟨fun hrun => h.1 (hrun.trans hsub), fun hrun => h.2 (hrun.trans hsub)⟩

theorem FenceFree.of_no_markers (h : ∀ c ∈ text, ¬ IsMarker c) : FenceFree text := by
  have hno : ∀ c, IsMarker c → ¬ List.replicate 3 c <:+: text := by
    intro c hc hrun
    exact h c (hrun.subset List.mem_cons_self) hc
  exact ⟨hno backtick (Or.inl rfl), hno '~' (Or.inr rfl)⟩

theorem FenceFree.no_marker (h : FenceFree line) : fenceMarker line = none := by
  cases hm : fenceMarker line with
  | none => rfl
  | some found =>
      obtain ⟨marker, len, indent⟩ := found
      obtain ⟨rest, hline, -, -, hmarker, hlen⟩ := fenceMarker_eq_some hm
      have hrun : List.replicate 3 marker <:+: line := by
        refine ⟨indent, List.replicate (len - 3) marker ++ rest, ?_⟩
        rw [hline, List.append_assoc, ← List.append_assoc (List.replicate 3 marker),
          ← List.replicate_add, Nat.add_sub_cancel' hlen]
      rcases hmarker with rfl | rfl
      · exact absurd hrun h.1
      · exact absurd hrun h.2

theorem isInfix_of_mem_splitLines (text : List Char) :
    ∀ line ∈ splitLines text, line <:+: text := by
  induction text using lines_induction with
  | last l hl =>
      rw [splitLines_last hl]
      intro line hline
      obtain rfl := List.mem_singleton.mp hline
      exact List.infix_rfl
  | more l rest hl ih =>
      rw [splitLines_more hl]
      refine List.forall_mem_cons.mpr ⟨(List.prefix_append _ _).isInfix, ?_⟩
      intro line hline
      have hrest : rest <:+: l ++ '\n' :: rest :=
        ((List.suffix_cons _ _).trans (List.suffix_append _ _)).isInfix
      exact (ih line hline).trans hrest

theorem parse_fenceFree (h : FenceFree text) : parseFenceSpans text = [] := by
  have hplain : ∀ (lines : List (List Char)) (pos : ℕ),
      (∀ line ∈ lines, fenceMarker line = none) → scanFences pos none [] lines = ([], none) := by
    intro lines
    induction lines with
    | nil => exact fun _ _ => rfl
    | cons line lines ih =>
        intro pos hlines
        obtain ⟨hline, hrest⟩ := List.forall_mem_cons.mp hlines
        rw [scanFences, hline]
        exact ih _ hrest
  unfold parseFenceSpans
  rw [hplain _ _ fun line hline => (h.sub (isInfix_of_mem_splitLines text line hline)).no_marker]

/-! ## §2  What the searches find -/

/-- A boundary of the configured kinds between two sides: a line feed, unless the config asks
for sentences, or the end of a sentence. -/
def Boundary (cfg : ChunkingConfig) (p q : List Char) : Prop :=
  (cfg.breakPreference ≠ .sentence ∧ q.head? = some '\n') ∨
    ∃ p' c, p = p' ++ [c] ∧ isSentenceMark c = true ∧ (q = [] ∨ q.head?.any isWhitespace = true)

/-- The end of a sentence in front of the second side, with its mark at or after
`min_chars`. -/
def SentenceEnd (cfg : ChunkingConfig) (p q : List Char) : Prop :=
  ∃ p' c, p = p' ++ [c] ∧ isSentenceMark c = true ∧
    (q = [] ∨ q.head?.any isWhitespace = true) ∧ cfg.minChars ≤ byteLen p'

/-- A boundary that the searches look at. -/
def Break (cfg : ChunkingConfig) (p q : List Char) : Prop :=
  (cfg.breakPreference ≠ .sentence ∧ q.head? = some '\n' ∧ cfg.minChars ≤ byteLen p) ∨
    SentenceEnd cfg p q

theorem Break.boundary (h : Break cfg p q) : Boundary cfg p q := by
  rcases h with ⟨hpref, hfeed, -⟩ | ⟨p', c, hp, hmark, hend, -⟩
  · exact Or.inl ⟨hpref, hfeed⟩
  · exact Or.inr ⟨p', c, hp, hmark, hend⟩

/-- What a search returns: a position of the wanted kind, or none where there is none. -/
def Finds (kind : List Char → List Char → Prop) (buf : List Char)
    (found : Option (Option ℕ)) : Prop :=
  (∃ p q, buf = p ++ q ∧ kind p q ∧ found = some (some (byteLen p))) ∨
    (found = some none ∧ ∀ p q, buf = p ++ q → ¬ kind p q)

/-- **Spec of the backward searches** without fences. -/
theorem findBreak_finds {pat : List Char} (hpat : pat ≠ []) (buf : List Char) :
    Finds (fun p q => pat <+: q ∧ cfg.minChars ≤ byteLen p) buf
      (findBreak cfg pat buf [] (byteLen buf + 1) (byteLen buf)) := by
  obtain ⟨found, hfound, hspec⟩ := @findBreak_spec cfg pat buf []
    (byteLen buf + 1) (byteLen buf) buf [] (List.append_nil buf).symm rfl
  rw [hfound]
  cases found with
  | some pos =>
      obtain ⟨hmin, -, p, q, hbuf, hp⟩ := hspec pos rfl
      refine Or.inl ⟨p, pat ++ q, by rw [hbuf, List.append_assoc],
        ⟨List.prefix_append pat q, ?_⟩, by rw [hp]⟩
      rw [hp]
      exact hmin
  | none =>
      refine Or.inr ⟨rfl, ?_⟩
      rintro p q' hbuf ⟨⟨q, rfl⟩, hmin⟩
      -- the last occurrence is not before this one, and the first round takes it
      obtain ⟨i, hi, hle⟩ := @le_of_occurs pat p q
      rw [List.append_assoc, ← hbuf] at hi
      have hpos := byteLen_pos_iff.mpr hpat
      have hlong : cfg.minChars < byteLen buf := by
        rw [hbuf, byteLen_append, byteLen_append]
        omega
      have hslice : strTo buf (byteLen buf) = some buf := by
        have h := strTo_append buf []
        rwa [List.append_nil] at h
      rw [findBreak, if_pos hlong, hslice, Option.bind_some, hi] at hfound
      simp only [isSafeFenceBreak] at hfound
      rw [if_neg (by omega)] at hfound
      simp at hfound

/-- The forward search does not miss the ends of sentences. -/
theorem findSentence_complete : ∀ (rest done : List Char) (last : Option ℕ),
    buf = done ++ rest →
    (last.isSome = true ∨ ∃ p c q, rest = p ++ c :: q ∧ isSentenceMark c = true ∧
      (q = [] ∨ q.head?.any isWhitespace = true) ∧ cfg.minChars ≤ byteLen (done ++ p)) →
    ∃ pos, findSentence cfg buf [] (byteLen done) last rest = some (some pos)
  | [], done, last, _, h => by
      rcases h with h | ⟨p, c, q, hrest, -⟩
      · obtain ⟨pos, rfl⟩ := Option.isSome_iff_exists.mp h
        exact ⟨pos, rfl⟩
      · simp at hrest
  | c :: rest, done, last, hbuf, h => by
      have hnext : byteLen done + c.utf8Size = byteLen (done ++ [c]) := by
        rw [byteLen_append, byteLen_cons, byteLen_nil, Nat.add_zero]
      have hbuf' : buf = (done ++ [c]) ++ rest := by
        rw [hbuf, List.append_assoc]
        rfl
      -- a mark further on, unless this character is the one
      have hlater : (¬ (isSentenceMark c = true ∧ (rest = [] ∨ rest.head?.any isWhitespace = true) ∧
          cfg.minChars ≤ byteLen done)) →
          ∃ pos, findSentence cfg buf [] (byteLen (done ++ [c])) last rest = some (some pos) := by
        intro hnot
        refine findSentence_complete rest (done ++ [c]) last hbuf' (h.imp_right ?_)
        rintro ⟨p, c', q, hsplit, hmark, hq, hmin⟩
        cases p with
        | nil =>
            obtain ⟨rfl, rfl⟩ := List.cons.inj hsplit
            rw [List.append_nil] at hmin
            exact absurd ⟨hmark, hq, hmin⟩ hnot
        | cons x p =>
            obtain ⟨rfl, hrest⟩ := List.cons.inj hsplit
            refine ⟨p, c', q, hrest, hmark, hq, ?_⟩
            rwa [List.append_assoc]
      rw [findSentence]
      simp only [hnext]
      split
      · rename_i hbefore
        exact hlater fun hthis => absurd hthis.2.2 (Nat.not_le.mpr hbefore)
      · split
        · rw [hbuf', strFrom_append, Option.bind_some, ← hbuf']
          split
          · exact findSentence_complete rest (done ++ [c]) _ hbuf' (Or.inl rfl)
          · rename_i hno
            refine hlater fun hthis => hno ⟨hthis.2.1.imp_left ?_, rfl⟩
            rintro rfl
            rw [hbuf', List.append_nil]
        · rename_i hmark
          exact hlater fun hthis => absurd hthis.1 hmark

/-- **Spec of the forward search** without fences. -/
theorem findSentenceBreak_finds (buf : List Char) :
    Finds (SentenceEnd cfg) buf (findSentenceBreak cfg buf []) := by
  obtain ⟨found, hfound, hspec⟩ := @findSentence_spec cfg buf [] buf [] none rfl
  have hsearch : findSentenceBreak cfg buf [] = some found := hfound
  cases found with
  | some pos =>
      rcases hspec with hnone | ⟨p, c, q, hbuf, hmark, heq, hmin, -, hq⟩
      · cases hnone
      · refine Or.inl ⟨p ++ [c], q, by simp [hbuf], ⟨p, c, rfl, hmark, hq, hmin⟩, ?_⟩
        rw [hsearch, heq]
        rfl
  | none =>
      refine Or.inr ⟨hsearch, ?_⟩
      rintro p q hbuf ⟨p', c, rfl, hmark, hq, hmin⟩
      obtain ⟨pos, hpos⟩ := @findSentence_complete cfg buf buf [] none rfl
        (Or.inr ⟨p', c, q, by simp [hbuf], hmark, hq, hmin⟩)
      have hnil : findSentence cfg buf [] 0 none buf = some (some pos) := hpos
      unfold findSentenceBreak at hsearch
      rw [hnil] at hsearch
      cases hsearch

/-- A fallback chain finds what one of its searches finds. -/
theorem Finds.orElse {kind kind' : List Char → List Char → Prop} {found other : Option (Option ℕ)}
    (h : Finds kind buf found) (h' : Finds kind' buf other) :
    Finds (fun p q => kind p q ∨ kind' p q) buf (orElse found other) := by
  rcases h with ⟨p, q, hbuf, hkind, rfl⟩ | ⟨rfl, hnone⟩
  · exact Or.inl ⟨p, q, hbuf, Or.inl hkind, rfl⟩
  · rcases h' with ⟨p, q, hbuf, hkind, rfl⟩ | ⟨rfl, hnone'⟩
    · exact Or.inl ⟨p, q, hbuf, Or.inr hkind, rfl⟩
    · refine Or.inr ⟨rfl, fun p q hbuf => ?_⟩
      exact not_or.mpr ⟨hnone p q hbuf, hnone' p q hbuf⟩

theorem Finds.congr {kind kind' : List Char → List Char → Prop} {found : Option (Option ℕ)}
    (h : Finds kind buf found) (hiff : ∀ p q, kind p q ↔ kind' p q) : Finds kind' buf found := by
  have heq : kind = kind' := funext₂ fun p q => propext (hiff p q)
  rwa [← heq]

/-- **Spec of the break types** with their fallback chain. -/
theorem preferredBreak_finds (cfg : ChunkingConfig) (buf : List Char) :
    Finds (Break cfg) buf (preferredBreak cfg buf []) := by
  have hfeed : ∀ q : List Char, ['\n'] <+: q ↔ q.head? = some '\n' := by
    intro q
    cases q with
    | nil => simp
    | cons c q => simp [List.cons_prefix_cons, eq_comm]
  unfold preferredBreak Break
  cases hpref : cfg.breakPreference with
  | paragraph =>
      refine Finds.congr ((findBreak_finds (by simp) buf).orElse
        ((findBreak_finds (by simp) buf).orElse (findSentenceBreak_finds buf))) ?_
      intro p q
      -- a paragraph break is a line feed already
      have hpara : ['\n', '\n'] <+: q → q.head? = some '\n' := by
        intro h
        exact (hfeed q).mp ((List.prefix_append ['\n'] ['\n']).trans h)
      simp only [hfeed]
      constructor
      · rintro (⟨h, hmin⟩ | ⟨h, hmin⟩ | h)
        · exact Or.inl ⟨by simp, hpara h, hmin⟩
        · exact Or.inl ⟨by simp, h, hmin⟩
        · exact Or.inr h
      · rintro (⟨-, h, hmin⟩ | h)
        · exact Or.inr (Or.inl ⟨h, hmin⟩)
        · exact Or.inr (Or.inr h)
  | newline =>
      refine Finds.congr ((findBreak_finds (by simp) buf).orElse
        (findSentenceBreak_finds buf)) ?_
      intro p q
      simp only [hfeed, ne_eq, reduceCtorEq, not_false_eq_true, true_and]
  | sentence =>
      apply Finds.congr (findSentenceBreak_finds buf)
      intro p q
      simp only [ne_eq, not_true_eq_false, false_and, false_or]

/-- The buffer has a boundary to be cut at: one that the searches look at, or the end of a
sentence at its own end. -/
def Offers (cfg : ChunkingConfig) (buffer : List Char) : Prop :=
  (∃ p q, buffer = p ++ q ∧ Break cfg p q) ∨
    ∃ p c, buffer = p ++ [c] ∧ isSentenceMark c = true

/-- **Where a cut falls.** At a boundary, exactly when one is on offer; else the window ends
the chunk. -/
theorem cut_boundary_iff (hfree : FenceFree (p ++ r)) (hlen : byteLen (p ++ r) < cfg.maxChars)
    (hpick : pickBreakIndex cfg (p ++ r) = some (some (byteLen p))) :
    Boundary cfg p r ↔ Offers cfg (p ++ r) := by
  have hslice : strTo (p ++ r) (window cfg (p ++ r)) = some (p ++ r) := by
    have h := strTo_append (p ++ r) []
    rw [List.append_nil] at h
    rwa [window, Nat.min_eq_left (Nat.le_of_lt hlen)]
  have hmark : ∀ p', (∃ q c, p' = q ++ [c] ∧ isSentenceMark c = true) → Boundary cfg p' [] := by
    rintro p' ⟨q, c, hp, hc⟩
    exact Or.inr ⟨q, c, hp, hc, Or.inl rfl⟩
  unfold pickBreakIndex at hpick
  rw [hslice, Option.bind_some, parse_fenceFree hfree] at hpick
  rcases preferredBreak_finds cfg (p ++ r) with ⟨p', q', hbuf, hbreak, hfound⟩ | ⟨hfound, hnone⟩
  · -- the searches found this cut
    rw [hfound] at hpick
    have hbytes : byteLen p' = byteLen p := by simpa using hpick
    obtain ⟨rfl, rfl⟩ : p' = p ∧ q' = r := by
      have h := cutAt_append p r
      rw [← hbytes, hbuf, cutAt_append] at h
      simpa using h
    exact iff_of_true hbreak.boundary (Or.inl ⟨p', q', hbuf, hbreak⟩)
  · -- the chunk is the window, and the window is the buffer
    rw [hfound] at hpick
    have hbytes : window cfg (p ++ r) = byteLen p := by simpa using hpick
    have hr : r = [] := by
      by_contra hne
      have hpos := byteLen_pos_iff.mpr hne
      rw [window, byteLen_append] at hbytes
      rw [byteLen_append] at hlen
      omega
    subst hr
    rw [List.append_nil] at hnone ⊢
    constructor
    · rintro (⟨-, hfeed⟩ | ⟨p', c, hp, hc, -⟩)
      · cases hfeed
      · exact Or.inr ⟨p', c, hp, hc⟩
    · rintro (⟨p', q', hbuf, hbreak⟩ | hend)
      · exact absurd hbreak (hnone p' q' hbuf)
      · exact hmark p hend

/-! ## §3  Rounds without fences -/

/-- The characters of a text that are not whitespace. -/
def solid (text : List Char) : List Char := text.filter (!isWhitespace ·)

theorem solid_append (p q : List Char) : solid (p ++ q) = solid p ++ solid q :=
  List.filter_append p q

theorem solid_blank (h : trimChars text = []) : solid text = [] := by
  unfold solid
  rw [← filter_trimChars, h]
  rfl

theorem solid_emitted (text : List Char) : solid (emitted text).flatten = solid text := by
  unfold emitted
  split
  · rename_i hblank
    exact (solid_blank hblank).symm
  · rw [List.flatten_singleton]
    exact filter_trimChars text

theorem solid_trimNewlines (text : List Char) : solid (trimNewlines text) = solid text := by
  induction text with
  | nil => rfl
  | cons c text ih =>
      by_cases hc : c = '\n'
      · subst hc
        have hsolid : solid ('\n' :: text) = solid text := List.filter_cons_of_neg (by decide)
        rw [hsolid]
        exact ih
      · have hflush : Flush (c :: text) := fun h => hc (Option.some.inj h)
        rw [trimNewlines_of_flush hflush]

theorem splitSides_fenceFree (h : FenceFree p) (r : List Char) :
    splitSides p r = ⟨p, none, none, trimNewlines r⟩ := by
  unfold splitSides
  rw [parse_fenceFree h]
  rfl

/-- **A round that cuts a text without fences.** -/
theorem again_fenceFree {chunks : List (List Char)} (hfree : FenceFree b)
    (hround : round cfg force b = .again chunks b') :
    ∃ p r, b = p ++ r ∧ byteLen p ≤ cfg.maxChars ∧ chunks = emitted p ∧ b' = trimNewlines r := by
  have hcuts : Cuts cfg force b := by
    by_contra hcuts
    obtain ⟨chunks', rest, hfinished, -⟩ := round_of_not_cuts hcuts
    rw [hround] at hfinished
    cases hfinished
  have hboundary : isCharBoundary b (window cfg b) = true := by
    by_contra hinside
    rw [round_panicked_iff.mpr ⟨hcuts, hinside⟩] at hround
    cases hround
  obtain ⟨buf, tail, hb, hw⟩ := exists_window_iff.mp hboundary
  obtain ⟨p, q, hcut, -, -, hagain⟩ := round_cut hcuts hb hw
  have hp : FenceFree p := by
    apply hfree.sub
    rw [hb, hcut, List.append_assoc]
    exact (List.prefix_append p _).isInfix
  rw [hagain, splitSides_fenceFree hp] at hround
  cases hround
  refine ⟨p, q ++ tail, by rw [hb, hcut, List.append_assoc], ?_, ?_, rfl⟩
  · have hle := Nat.min_le_right (byteLen b) cfg.maxChars
    rw [hcut, byteLen_append, window] at hw
    omega
  · rw [Option.getD_none, List.append_nil]

theorem finished_cases {chunks : List (List Char)} {rest : List Char}
    (hround : round cfg force b = .finished chunks rest) :
    (rest = b ∧ chunks = []) ∨ (rest = [] ∧ chunks = emitted b ∧
      (trimChars b = [] ∨ byteLen b ≤ cfg.maxChars)) := by
  by_cases hcuts : Cuts cfg force b
  · rw [round_of_cuts hcuts] at hround
    split at hround
    · cases hround
    · cases hround
      exact Or.inl ⟨rfl, rfl⟩
    · split at hround <;> cases hround
  · rcases finishes_of_not_cuts hcuts with ⟨hkeep, -⟩ | ⟨hflush, hsize⟩
    · rw [hround] at hkeep
      cases hkeep
      exact Or.inl ⟨rfl, rfl⟩
    · rw [hround] at hflush
      cases hflush
      exact Or.inr ⟨rfl, rfl, hsize⟩

theorem trimNewlines_suffix (r : List Char) : trimNewlines r <:+ r := List.dropWhile_suffix _

theorem emitted_sizes (hp : trimChars p = [] ∨ byteLen p ≤ cfg.maxChars) :
    ∀ chunk ∈ emitted p, byteLen chunk ≤ cfg.maxChars := by
  intro chunk hchunk
  unfold emitted at hchunk
  split at hchunk
  · cases hchunk
  · rename_i hblank
    rw [List.mem_singleton.mp hchunk]
    exact Nat.le_trans (byteLen_trimChars_le p) (hp.resolve_left hblank)

/-- **A drain of a text without fences.** Its chunks and what it leaves have the solid
characters of the buffer, no chunk is too long, and what it leaves is the end of the buffer. -/
theorem drain_fenceFree : ∀ {n : ℕ} {b : List Char} {chunks : List (List Char)}
    {rest : List Char}, FenceFree b → drain cfg force n b = .returned chunks rest →
    solid (chunks.flatten ++ rest) = solid b ∧ (∀ chunk ∈ chunks, byteLen chunk ≤ cfg.maxChars) ∧
      rest <:+ b := by
  intro n
  induction n with
  | zero =>
      intro b chunks rest _ h
      cases h
  | succ n ih =>
      intro b chunks rest hfree h
      obtain ⟨m, hm, hcase⟩ := drain_returned_cases h
      cases hm
      rcases hcase with hround | ⟨first, later, b', rfl, hround, hdrain⟩
      · rcases finished_cases hround with ⟨rfl, rfl⟩ | ⟨rfl, rfl, hsize⟩
        · exact ⟨rfl, by simp, List.suffix_rfl⟩
        · rw [List.append_nil]
          exact ⟨solid_emitted b, emitted_sizes hsize, List.nil_suffix⟩
      · obtain ⟨p, r, rfl, hsize, rfl, rfl⟩ := again_fenceFree hfree hround
        have hsuffix : trimNewlines r <:+ p ++ r :=
          (trimNewlines_suffix r).trans (List.suffix_append p r)
        obtain ⟨hsolid, hsizes, hrest⟩ := ih (hfree.sub hsuffix.isInfix) hdrain
        refine ⟨?_, ?_, hrest.trans hsuffix⟩
        · rw [List.flatten_append, List.append_assoc, solid_append, solid_emitted, hsolid,
            solid_trimNewlines, solid_append]
        · exact List.forall_mem_append.mpr ⟨emitted_sizes (Or.inr hsize), hsizes⟩

/-- The buffers that a drain comes to are ends of its buffer. -/
theorem reaches_suffix (hfree : FenceFree b) (hreach : Reaches cfg force b b') : b' <:+ b := by
  induction hreach with
  | refl => exact List.suffix_rfl
  | tail _ hstep ih =>
      obtain ⟨chunks, hround⟩ := hstep
      obtain ⟨p, r, hb, -, -, rfl⟩ := again_fenceFree (hfree.sub ih.isInfix) hround
      refine List.IsSuffix.trans ?_ ih
      rw [hb]
      exact (trimNewlines_suffix r).trans (List.suffix_append p r)

/-! ## §4  Runs without fences -/

/-- The text that is pushed, whatever its pieces. -/
def pushed : List Call → List Char
  | [] => []
  | .push text :: calls => text ++ pushed calls
  | .drain _ :: calls => pushed calls

variable {calls : List Call} {chunks : List (List Char)}

/-- What a drain leaves is followed by what was going to follow. -/
theorem suffix_append_right {s t : List Char} (h : s <:+ t) (u : List Char) :
    s ++ u <:+ t ++ u := by
  obtain ⟨lead, rfl⟩ := h
  exact ⟨lead, (List.append_assoc lead s u).symm⟩

/-- **No text is lost**, and no chunk is too long. -/
theorem ran_fenceFree (hran : Ran cfg b calls chunks b') (hfree : FenceFree (b ++ pushed calls)) :
    solid (chunks.flatten ++ b') = solid (b ++ pushed calls) ∧
      ∀ chunk ∈ chunks, byteLen chunk ≤ cfg.maxChars := by
  induction hran with
  | done => exact ⟨by simp [pushed], by simp⟩
  | push _ ih =>
      rw [pushed, ← List.append_assoc] at hfree ⊢
      exact ih hfree
  | @drain b b'' rest calls chunks chunks' force n hdrain _ ih =>
      rw [pushed] at hfree ⊢
      obtain ⟨hsolid, hsizes, hrest⟩ :=
        drain_fenceFree (hfree.sub (List.prefix_append b _).isInfix) hdrain
      obtain ⟨hsolid', hsizes'⟩ := ih (hfree.sub (suffix_append_right hrest _).isInfix)
      constructor
      · rw [List.flatten_append, List.append_assoc, solid_append, hsolid', solid_append,
          ← List.append_assoc, ← solid_append, hsolid, solid_append]
      · exact List.forall_mem_append.mpr ⟨hsizes, hsizes'⟩

theorem cutOf_fenceFree (hcut : CutOf cfg b calls force p r)
    (hfree : FenceFree (b ++ pushed calls)) : FenceFree (p ++ r) := by
  induction hcut with
  | here hreach _ _ =>
      have hb := hfree.sub (List.prefix_append _ _).isInfix
      exact hb.sub (reaches_suffix hb hreach).isInfix
  | push _ ih =>
      rw [pushed, ← List.append_assoc] at hfree
      exact ih hfree
  | drain hdrain _ ih =>
      rw [pushed] at hfree
      obtain ⟨-, -, hrest⟩ := drain_fenceFree (hfree.sub (List.prefix_append _ _).isInfix) hdrain
      exact ih (hfree.sub (suffix_append_right hrest _).isInfix)

theorem Ascii.boundary (h : Ascii text) {i : ℕ} (hi : i ≤ byteLen text) :
    isCharBoundary text i = true := by
  have hone : ∀ s : List Char, Ascii s → byteLen s = s.length := by
    intro s
    induction s with
    | nil => exact fun _ => rfl
    | cons c s ih =>
        intro hs
        obtain ⟨hc, hs⟩ := List.forall_mem_cons.mp hs
        have hsize : c.utf8Size = 1 := by
          rw [Char.utf8Size_eq_one_iff, UInt32.le_iff_toNat_le]
          exact Nat.lt_succ_iff.mp hc
        rw [byteLen_cons, List.length_cons, hsize, ih hs, Nat.add_comm]
  have htake : byteLen (text.take i) = i := by
    rw [hone _ fun c hc => h c (List.mem_of_mem_take hc), List.length_take]
    rw [hone text h] at hi
    exact Nat.min_eq_left hi
  refine isCharBoundary_iff.mpr ⟨text.take i, text.drop i, cutAt_eq_some_iff.mpr ⟨?_, htake⟩⟩
  exact (List.take_append_drop i text).symm

/-- A text without fences has no line to get stuck at. -/
theorem FenceFree.getsOn (hfree : FenceFree b) (hascii : Ascii b) : GetsOn cfg force b := by
  intro x hreach _
  have hsuffix := reaches_suffix hfree hreach
  constructor
  · rcases Nat.le_total (byteLen x) cfg.maxChars with hle | hle
    · exact Or.inl hle
    · have hx : Ascii x := fun c hc => hascii c (hsuffix.subset hc)
      exact Or.inr (hx.boundary hle)
  · rintro ⟨line, buf, rest, hm, -, hx, -, hbuf⟩
    have hline : line <+: x := by
      rcases hbuf with rfl | ⟨rfl, -⟩
      · exact ⟨rest, hx.symm⟩
      · exact ⟨'\n' :: rest, by rw [hx, List.append_assoc]; rfl⟩
    have hnone := ((hfree.sub hsuffix.isInfix).sub hline.isInfix).no_marker
    rw [hnone] at hm
    cases hm

theorem exists_ran (hmin : 1 ≤ cfg.minChars) (hle : cfg.minChars ≤ cfg.maxChars)
    (calls : List Call) (b : List Char) (hascii : Ascii (b ++ pushed calls))
    (hfree : FenceFree (b ++ pushed calls)) : ∃ chunks b', Ran cfg b calls chunks b' := by
  induction calls generalizing b with
  | nil => exact ⟨[], b, .done⟩
  | cons call calls ih =>
      cases call with
      | push text =>
          rw [pushed, ← List.append_assoc] at hascii hfree
          obtain ⟨chunks, b', hran⟩ := ih (b ++ text) hascii hfree
          exact ⟨chunks, b', .push hran⟩
      | drain force =>
          rw [pushed] at hascii hfree
          have hb : FenceFree b := hfree.sub (List.prefix_append b _).isInfix
          have hb' : Ascii b := fun c hc => hascii c (List.mem_append_left _ hc)
          obtain ⟨n, chunks, rest, hdrain, -⟩ :=
            @returns_of_getsOn cfg force b hmin hle (hb.getsOn hb')
          obtain ⟨-, -, hrest⟩ := drain_fenceFree hb hdrain
          have hsuffix := suffix_append_right hrest (pushed calls)
          obtain ⟨chunks', b', hran⟩ :=
            ih rest (fun c hc => hascii c (hsuffix.subset hc)) (hfree.sub hsuffix.isInfix)
          exact ⟨chunks ++ chunks', b', .drain hdrain hran⟩

/-- What is asked of the calls of a new chunker: all drains return, the solid characters come
out as they were pushed, no chunk is longer than `max_chars`, and where a drain is not forced
it cuts at a boundary or because the buffer has reached `max_chars`. -/
structure TextKept (cfg : ChunkingConfig) (calls : List Call) : Prop where
  returns : ∃ chunks buffer, Ran cfg [] calls chunks buffer
  keeps : ∀ chunks buffer, Ran cfg [] calls chunks buffer →
    solid (chunks.flatten ++ buffer) = solid (pushed calls)
  sizes : ∀ chunks buffer, Ran cfg [] calls chunks buffer →
    ∀ chunk ∈ chunks, byteLen chunk ≤ cfg.maxChars
  breaks : ∀ chunk rest, CutOf cfg [] calls false chunk rest →
    Boundary cfg chunk rest ∨ cfg.maxChars ≤ byteLen (chunk ++ rest)

/-- **Text.** For an ASCII text without fences, pushed and drained in any way, the chunker
does what is asked exactly when each buffer that a drain cuts without being forced has
reached `max_chars` or has a boundary to be cut at. -/
theorem text_kept_iff (cfg : ChunkingConfig) (calls : List Call) (hmin : 1 ≤ cfg.minChars)
    (hle : cfg.minChars ≤ cfg.maxChars) (hascii : Ascii (pushed calls))
    (hfree : FenceFree (pushed calls)) :
    TextKept cfg calls ↔ ∀ chunk rest, CutOf cfg [] calls false chunk rest →
      Offers cfg (chunk ++ rest) ∨ cfg.maxChars ≤ byteLen (chunk ++ rest) := by
  have hcut : ∀ chunk rest, CutOf cfg [] calls false chunk rest →
      (Boundary cfg chunk rest ∨ cfg.maxChars ≤ byteLen (chunk ++ rest) ↔
        Offers cfg (chunk ++ rest) ∨ cfg.maxChars ≤ byteLen (chunk ++ rest)) := by
    intro chunk rest hcut
    rcases Nat.lt_or_ge (byteLen (chunk ++ rest)) cfg.maxChars with hlt | hge
    · exact or_congr_left (cut_boundary_iff (cutOf_fenceFree hcut hfree) hlt hcut.cuts.2)
    · exact iff_of_true (Or.inr hge) (Or.inr hge)
  constructor
  · intro hkept chunk rest h
    exact (hcut chunk rest h).mp (hkept.breaks chunk rest h)
  · intro hoffers
    refine ⟨exists_ran hmin hle calls [] hascii hfree, ?_, ?_, ?_⟩
    · intro chunks buffer hran
      exact (ran_fenceFree hran hfree).1
    · intro chunks buffer hran
      exact (ran_fenceFree hran hfree).2
    · intro chunk rest h
      exact (hcut chunk rest h).mpr (hoffers chunk rest h)

theorem two_lines_kept :
    TextKept ⟨2, 10, .newline⟩ [.push "ab\nc".toList, .drain false] := by
  have hround : round ⟨2, 10, .newline⟩ false "ab\nc".toList =
      .again ["ab".toList] "c".toList := by decide
  have hlast : ¬ Cuts ⟨2, 10, .newline⟩ false "c".toList := by
    intro h
    exact absurd (h.2.1 rfl) (by decide)
  have hchars : ∀ c ∈ pushed [.push "ab\nc".toList, .drain false],
      c.toNat < 128 ∧ ¬ IsMarker c := by
    intro c hc
    have hmem : c ∈ ['a', 'b', '\n', 'c'] := hc
    simp only [List.mem_cons, List.not_mem_nil, or_false] at hmem
    rcases hmem with rfl | rfl | rfl | rfl <;> decide
  refine (text_kept_iff ⟨2, 10, .newline⟩ [.push "ab\nc".toList, .drain false]
    (by decide) (by decide) (fun c hc => (hchars c hc).1)
    (FenceFree.of_no_markers fun c hc => (hchars c hc).2)).mpr ?_
  intro chunk rest hcut
  left
  rcases Reaches.head_cases hround hcut.of_push_drain.2 with heq | hreach
  · rw [heq]
    exact Or.inl ⟨"ab".toList, "\nc".toList, rfl, Or.inl (by decide)⟩
  · have hcuts := hcut.cuts.1
    rw [Reaches.eq_of_not_cuts hlast hreach] at hcuts
    exact absurd hcuts hlast

/-- A word is emitted as soon as it has `min_chars`. -/
theorem word_cut_short : ¬ TextKept ⟨1, 10, .paragraph⟩
    [.push "hello".toList, .drain false] := by
  intro h
  have hcut : CutOf ⟨1, 10, .paragraph⟩ [] [.push "hello".toList, .drain false] false
      "hello".toList [] :=
    .push (.here .refl ⟨by decide, by decide, by decide⟩ (by decide))
  rcases h.breaks _ _ hcut with (⟨-, hfeed⟩ | ⟨p, c, hp, hmark, -⟩) | hlong
  · cases hfeed
  · have hlast := congrArg List.getLast? hp
    rw [List.getLast?_append, List.getLast?_singleton, Option.some_or] at hlast
    have hc : c = 'o' := (Option.some.inj hlast).symm
    rw [hc] at hmark
    cases hmark
  · exact absurd hlong (by decide)

end Oclaw.AgentCore.StreamChunker
