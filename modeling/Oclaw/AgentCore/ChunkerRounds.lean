import Oclaw.AgentCore.FenceSpans

/-!
# How long a drain goes on

A split inside a fence puts the line that opened it back in front of the buffer. The buffer
still gets shorter, unless the cut is right behind that line.
-/

namespace Oclaw.AgentCore.StreamChunker

open Oclaw.Lib

variable {cfg : ChunkingConfig} {force : Bool} {buffer b b' p r l line text tail : List Char}

/-! ## §1  The buffer behind a cut -/

/-- The text does not begin with a line feed. -/
def Flush (text : List Char) : Prop := text.head? ≠ some '\n'

theorem flush_trimNewlines (text : List Char) : Flush (trimNewlines text) := by
  induction text with
  | nil => simp [Flush, trimNewlines]
  | cons c text ih =>
      unfold trimNewlines
      by_cases hc : c = '\n'
      · rw [List.dropWhile_cons_of_pos (by simpa using hc)]
        exact ih
      · rw [List.dropWhile_cons_of_neg (by simpa using hc)]
        intro h
        exact hc (Option.some.inj h)

theorem trimNewlines_of_flush (h : Flush text) : trimNewlines text = text := by
  cases text with
  | nil => rfl
  | cons c text =>
      apply List.dropWhile_cons_of_neg
      intro hc
      exact h (congrArg some (beq_iff_eq.mp hc))

@[simp] theorem trimNewlines_idem (text : List Char) :
    trimNewlines (trimNewlines text) = trimNewlines text :=
  trimNewlines_of_flush (flush_trimNewlines text)

theorem byteLen_trimNewlines_le (text : List Char) :
    byteLen (trimNewlines text) ≤ byteLen text := by
  obtain ⟨feeds, hfeeds⟩ := List.dropWhile_suffix (l := text) (· == '\n')
  have hbytes := congrArg byteLen hfeeds
  rw [byteLen_append] at hbytes
  have htrim : byteLen (trimNewlines text) = byteLen (text.dropWhile (· == '\n')) := rfl
  omega

theorem feed_utf8Size : ('\n' : Char).utf8Size = 1 := by decide

/-- **What follows a cut.** The rest without its line feeds, after the line of the last fence
of the chunk where that fence extends to the cut. -/
theorem rest_cases (p r : List Char) :
    (splitSides p r).rest = trimNewlines r ∨
      ∃ s ∈ parseFenceSpans p, byteLen p ≤ s.stop ∧
        (splitSides p r).rest = s.openLine ++ '\n' :: trimNewlines r := by
  unfold splitSides
  cases hlast : (parseFenceSpans p).getLast? with
  | none => exact Or.inl rfl
  | some s =>
      simp only
      split
      · rename_i hstop
        refine Or.inr ⟨s, List.mem_of_getLast? hlast, hstop, ?_⟩
        simp [Split.rest]
      · exact Or.inl rfl

/-- The last fence of a chunk that ends behind the line which opened it. -/
theorem rest_openLine (hl : '\n' ∉ l) (hm : (fenceMarker l).isSome = true)
    (hp : p = l ∨ p = l ++ ['\n']) (r : List Char) :
    (splitSides p r).rest = l ++ '\n' :: trimNewlines r := by
  obtain ⟨⟨marker, len, indent⟩, hm⟩ := Option.isSome_iff_exists.mp hm
  unfold splitSides
  rw [parse_openLine hl hm hp, List.getLast?_singleton]
  simp [Split.rest]

theorem openLine_flush {s : FenceSpan} (hs : s ∈ parseFenceSpans text) (rest : List Char) :
    Flush (s.openLine ++ rest) := by
  obtain ⟨l, hl, htext⟩ := firstLine_cases text
  obtain ⟨⟨-, -, ⟨len, hm⟩, hsingle⟩, -⟩ := parse_opened hl htext hs
  have hbytes := three_le_byteLen hm
  cases hopen : s.openLine with
  | nil =>
      rw [hopen, byteLen_nil] at hbytes
      omega
  | cons c line =>
      intro h
      rw [hopen] at hsingle
      have hc : c = '\n' := Option.some.inj h
      rw [hc] at hsingle
      exact hsingle List.mem_cons_self

theorem rest_flush (p r : List Char) : Flush (splitSides p r).rest := by
  rcases rest_cases p r with h | ⟨s, hs, -, h⟩
  · rw [h]
    exact flush_trimNewlines r
  · rw [h]
    exact openLine_flush hs _

/-- **Why the buffer gets shorter.** A chunk has more than the line it gives back, unless it
is the first line of the buffer, with or without its line feed. -/
theorem rest_shorter (hp : p ≠ []) (hflush : Flush (p ++ r)) :
    byteLen (splitSides p r).rest < byteLen (p ++ r) ∨
      ∃ l, '\n' ∉ l ∧ (fenceMarker l).isSome = true ∧
        (p = l ∨ p = l ++ ['\n'] ∧ trimNewlines r = r) := by
  have htrim := byteLen_trimNewlines_le r
  have hpos := byteLen_pos_iff.mpr hp
  rw [byteLen_append]
  rcases rest_cases p r with h | ⟨s, hs, -, h⟩
  · left
    rw [h]
    omega
  · obtain ⟨l, hl, htext⟩ := firstLine_cases p
    obtain ⟨⟨hfirst, hbefore, ⟨len, hm⟩, -⟩, -⟩ := parse_opened hl htext hs
    rw [h, byteLen_append, byteLen_cons, feed_utf8Size]
    rcases hfirst with ⟨hstart, hopen⟩ | hstart
    · -- the fence was opened by the first line
      rw [hopen] at hm hbefore ⊢
      have hm' : (fenceMarker l).isSome = true := Option.isSome_iff_exists.mpr ⟨_, hm⟩
      rcases htext with rfl | ⟨more, rfl⟩
      · exact Or.inr ⟨p, hl, hm', Or.inl rfl⟩
      · cases more with
        | nil =>
            by_cases hr : Flush r
            · exact Or.inr ⟨l, hl, hm', Or.inr ⟨rfl, trimNewlines_of_flush hr⟩⟩
            · left
              obtain ⟨r', rfl⟩ : ∃ r', r = '\n' :: r' := by
                cases r with
                | nil => exact absurd (by simp [Flush]) hr
                | cons c r' =>
                    have hc : some c = some '\n' := not_not.mp hr
                    exact ⟨r', by rw [Option.some.inj hc]⟩
              have hshort := byteLen_trimNewlines_le r'
              have hdrop : trimNewlines ('\n' :: r') = trimNewlines r' := rfl
              rw [hdrop, byteLen_append, byteLen_cons, byteLen_cons, feed_utf8Size, byteLen_nil]
              omega
        | cons c more =>
            left
            have := c.utf8Size_pos
            rw [byteLen_append, byteLen_cons, byteLen_cons, feed_utf8Size]
            omega
    · -- the first line stays away, and it is not empty
      left
      have hfirst : 0 < byteLen l := by
        rw [byteLen_pos_iff]
        rintro rfl
        rcases htext with rfl | ⟨more, rfl⟩
        · exact hp rfl
        · exact hflush rfl
      omega

/-! ## §2  Lines that no round gets past -/

/-- The window is one line that opens a fence, with or without its line feed. A forced drain
still gets past a line that only line feeds follow. -/
def Stuck (cfg : ChunkingConfig) (force : Bool) (b : List Char) : Prop :=
  ∃ line buf rest, (fenceMarker line).isSome = true ∧ '\n' ∉ line ∧ b = buf ++ rest ∧
    byteLen buf = window cfg b ∧
    (buf = line ∨ buf = line ++ ['\n'] ∧ (force = true → trimNewlines rest ≠ []))

/-- A buffer with a fence line in it is not blank. -/
theorem not_blank {line : List Char} (hm : (fenceMarker line).isSome = true)
    (hmem : ∀ c ∈ line, c ∈ text) : trimChars text ≠ [] := by
  obtain ⟨⟨marker, len, indent⟩, hm⟩ := Option.isSome_iff_exists.mp hm
  obtain ⟨rest, rfl, -, -, hmarker, hlen⟩ := fenceMarker_eq_some hm
  intro hblank
  have hc : marker ∈ indent ++ (List.replicate len marker ++ rest) := by
    refine List.mem_append_right _ (List.mem_append_left _ ?_)
    exact List.mem_replicate.mpr ⟨by omega, rfl⟩
  have hspace := trimChars_eq_nil_iff.mp hblank marker (hmem marker hc)
  rw [hmarker.not_whitespace] at hspace
  cases hspace

/-- A break of a window that is one fence line is its end. -/
theorem cut_of_openLine (hmin : 1 ≤ cfg.minChars) (hl : '\n' ∉ l)
    (hm : (fenceMarker l).isSome = true) {buf q : List Char}
    (hbuf : buf = l ∨ buf = l ++ ['\n']) (hcut : buf = p ++ q)
    (hbreak : q = [] ∨ BreakOf cfg buf (parseFenceSpans buf) (byteLen p)) : q = [] := by
  obtain ⟨⟨marker, len, indent⟩, hm⟩ := Option.isSome_iff_exists.mp hm
  rcases hbreak with hq | ⟨hle, hsafe, -⟩
  · exact hq
  · cases q with
    | nil => rfl
    | cons c q =>
        have := c.utf8Size_pos
        have hbytes : byteLen p < byteLen buf := by
          rw [hcut, byteLen_append, byteLen_cons]
          omega
        rw [parse_openLine hl hm hbuf] at hsafe
        have hpos : 0 < byteLen p := by omega
        simp [isSafeFenceBreak, hpos, hbytes] at hsafe

/-- What follows a stuck buffer is the line, its line feed, and what there was behind them. -/
theorem stuck_next {line buf rest : List Char} (hle : cfg.minChars ≤ cfg.maxChars)
    (hcuts : Cuts cfg force b) (hm : (fenceMarker line).isSome = true) (hl : '\n' ∉ line)
    (hb : b = buf ++ rest) (hw : byteLen buf = window cfg b)
    (hbuf : buf = line ∨ buf = line ++ ['\n'] ∧ (force = true → trimNewlines rest ≠ [])) :
    Stuck cfg force (line ++ '\n' :: trimNewlines rest) ∧
      Cuts cfg force (line ++ '\n' :: trimNewlines rest) := by
  obtain ⟨-, hkeep, hforce⟩ := hcuts
  have hbytes : byteLen b = byteLen buf + byteLen rest := by rw [hb, byteLen_append]
  have hnew : byteLen (line ++ '\n' :: trimNewlines rest) =
      byteLen (line ++ ['\n']) + byteLen (trimNewlines rest) := by
    rw [← byteLen_append, List.append_assoc]
    rfl
  have hfeed : byteLen (line ++ ['\n']) = byteLen line + 1 := by
    rw [byteLen_append, byteLen_cons, byteLen_nil, feed_utf8Size]
  unfold window at hw
  refine ⟨?_, not_blank hm fun c hc => List.mem_append_left _ hc, fun h => ?_, fun h => ?_⟩
  · by_cases hmax : cfg.maxChars ≤ byteLen b
    · -- the window ends at `max_chars` again
      rw [Nat.min_eq_right hmax] at hw
      have hwindow : window cfg (line ++ '\n' :: trimNewlines rest) = cfg.maxChars := by
        unfold window
        rcases hbuf with rfl | ⟨rfl, -⟩ <;> omega
      rcases hbuf with rfl | ⟨rfl, hmore⟩
      · exact ⟨buf, buf, _, hm, hl, rfl, hw.trans hwindow.symm, Or.inl rfl⟩
      · refine ⟨line, line ++ ['\n'], trimNewlines rest, hm, hl, by simp,
          hw.trans hwindow.symm, Or.inr ⟨rfl, ?_⟩⟩
        rwa [trimNewlines_idem]
    · -- the chunk was all there is, and the drain is not forced
      rw [Nat.min_eq_left (by omega)] at hw
      have hnil : rest = [] := by
        by_contra hne
        have := byteLen_pos_iff.mpr hne
        omega
      subst hnil
      refine ⟨line, line ++ ['\n'], [], hm, hl, (List.append_nil _).symm, ?_,
        Or.inr ⟨rfl, fun h => ?_⟩⟩
      · show byteLen (line ++ ['\n']) = min (byteLen (line ++ ['\n'])) cfg.maxChars
        rcases hbuf with rfl | ⟨rfl, -⟩ <;> omega
      · have := hforce h
        omega
  · have := hkeep h
    rcases hbuf with rfl | ⟨rfl, -⟩ <;> omega
  · have hlong := hforce h
    rcases hbuf with rfl | ⟨rfl, hmore⟩
    · omega
    · have := byteLen_pos_iff.mpr (hmore h)
      omega

/-- **A stuck round.** It goes on to a buffer that is stuck again. -/
theorem again_stuck (hmin : 1 ≤ cfg.minChars) (hle : cfg.minChars ≤ cfg.maxChars)
    (hstuck : Stuck cfg force b) (hcuts : Cuts cfg force b) :
    ∃ b', Again cfg force b b' ∧ Stuck cfg force b' ∧ Cuts cfg force b' := by
  obtain ⟨line, buf, rest, hm, hl, hb, hw, hbuf⟩ := hstuck
  obtain ⟨p, q, hcut, hbreak, -, hround⟩ := round_cut hcuts hb hw
  have hline : buf = line ∨ buf = line ++ ['\n'] := hbuf.imp_right And.left
  have hq := cut_of_openLine hmin hl hm hline hcut hbreak
  rw [hq, List.append_nil] at hcut
  rw [← hcut, hq, List.nil_append, rest_openLine hl hm hline] at hround
  exact ⟨_, ⟨_, hround⟩, stuck_next hle hcuts hm hl hb hw hbuf⟩

/-- Nothing that a stuck buffer leads to lets the loop end. -/
theorem reaches_stuck (hmin : 1 ≤ cfg.minChars) (hle : cfg.minChars ≤ cfg.maxChars)
    (hstuck : Stuck cfg force b) (hcuts : Cuts cfg force b) (hreach : Reaches cfg force b b') :
    Stuck cfg force b' ∧ Cuts cfg force b' := by
  induction hreach with
  | refl => exact ⟨hstuck, hcuts⟩
  | tail _ hstep ih =>
      obtain ⟨next, ⟨chunks, hround⟩, hnext⟩ := again_stuck hmin hle ih.1 ih.2
      obtain ⟨chunks', hround'⟩ := hstep
      rw [hround] at hround'
      cases hround'
      exact hnext

/-! ## §3  The other buffers -/

/-- A window is not cut right behind its first line when that opens a fence. -/
theorem unsafe_behind_openLine {q : List Char} (hl : '\n' ∉ l)
    (hm : (fenceMarker l).isSome = true) (hp : p = l ∨ p = l ++ ['\n']) (hq : q ≠ []) :
    isSafeFenceBreak (parseFenceSpans (p ++ q)) (byteLen p) = false := by
  -- the first line of the window may go on behind the cut
  obtain ⟨l', hl', hm', htext, hbytes⟩ : ∃ l', '\n' ∉ l' ∧ (fenceMarker l').isSome = true ∧
      (p ++ q = l' ∨ ∃ rest, p ++ q = l' ++ '\n' :: rest) ∧ byteLen p ≤ byteLen l' + 1 := by
    rcases hp with rfl | rfl
    · obtain ⟨l₂, hl₂, hq₂⟩ := firstLine_cases q
      obtain ⟨⟨marker, len, indent⟩, hm⟩ := Option.isSome_iff_exists.mp hm
      obtain ⟨more, hm'⟩ := fenceMarker_append hm l₂
      refine ⟨p ++ l₂, ?_, Option.isSome_iff_exists.mpr ⟨_, hm'⟩, ?_, ?_⟩
      · rw [List.mem_append]
        exact not_or.mpr ⟨hl, hl₂⟩
      · rcases hq₂ with rfl | ⟨rest, rfl⟩
        · exact Or.inl rfl
        · exact Or.inr ⟨rest, (List.append_assoc p l₂ _).symm⟩
      · rw [byteLen_append]
        omega
    · refine ⟨l, hl, hm, Or.inr ⟨q, List.append_assoc l _ q⟩, ?_⟩
      rw [byteLen_append, byteLen_cons, byteLen_nil, feed_utf8Size]
  obtain ⟨s, hs, hstart⟩ := exists_span_zero hl' hm' htext
  obtain ⟨⟨hfirst, -, -, -⟩, hstop⟩ := parse_opened hl' htext hs
  have hopen : s.openLine = l' := by
    rcases hfirst with ⟨-, hopen⟩ | hlate
    · exact hopen
    · omega
  have hqpos := byteLen_pos_iff.mpr hq
  have hlpos : 0 < byteLen p := by
    obtain ⟨⟨marker, len, indent⟩, hm⟩ := Option.isSome_iff_exists.mp hm
    have hbytes := three_le_byteLen hm
    rcases hp with rfl | rfl
    · omega
    · rw [byteLen_append]
      omega
  have hbehind : byteLen p < s.stop := by
    rw [hopen, byteLen_append] at hstop
    omega
  unfold isSafeFenceBreak
  rw [Bool.not_eq_false', List.any_eq_true]
  exact ⟨s, hs, by simp [hstart, hlpos, hbehind]⟩

/-- **A round that gets on.** The next buffer begins with no line feed, and it is shorter
than a buffer that began with none. -/
theorem again_shorter (hmin : 1 ≤ cfg.minChars) (hle : cfg.minChars ≤ cfg.maxChars)
    (hcuts : Cuts cfg force b) (hboundary : isCharBoundary b (window cfg b) = true)
    (hstuck : ¬ Stuck cfg force b) :
    ∃ b', Again cfg force b b' ∧ Flush b' ∧ (Flush b → byteLen b' < byteLen b) := by
  obtain ⟨buf, tail, hb, hw⟩ := exists_window_iff.mp hboundary
  obtain ⟨p, q, hcut, hbreak, -, hround⟩ := round_cut hcuts hb hw
  refine ⟨_, ⟨_, hround⟩, rest_flush p (q ++ tail), fun hflush => ?_⟩
  have hbq : b = p ++ (q ++ tail) := by rw [hb, hcut, List.append_assoc]
  have hpos : 1 ≤ window cfg b := by
    obtain ⟨hblank, hkeep, hforce⟩ := hcuts
    unfold window
    cases force with
    | false =>
        have := hkeep rfl
        omega
    | true =>
        have := hforce rfl
        omega
  have hp : p ≠ [] := by
    rw [← byteLen_pos_iff]
    rcases hbreak with rfl | ⟨hle, -⟩
    · rw [List.append_nil] at hcut
      rw [← hcut, hw]
      exact hpos
    · omega
  rw [hbq] at hflush ⊢
  rcases rest_shorter hp hflush with hshort | ⟨l, hl, hm, hl'⟩
  · exact hshort
  · exfalso
    cases q with
    | cons c q =>
        obtain ⟨-, hsafe, -⟩ := hbreak.resolve_left (List.cons_ne_nil c q)
        have hbehind := unsafe_behind_openLine hl hm (hl'.imp_right And.left)
          (List.cons_ne_nil c q)
        rw [hcut, hbehind] at hsafe
        cases hsafe
    | nil =>
        rw [List.append_nil] at hcut
        rw [List.nil_append] at hl'
        subst hcut
        refine hstuck ⟨l, buf, tail, hm, hl, hb, hw, hl'.imp_right ?_⟩
        rintro ⟨hbuf, htail⟩
        refine ⟨hbuf, fun h => ?_⟩
        -- a forced drain cuts only what is longer than the window
        rw [htail, ← byteLen_pos_iff]
        have hlong := hcuts.2.2 h
        have hbytes := congrArg byteLen hb
        rw [byteLen_append] at hbytes
        unfold window at hw
        omega

/-- Every buffer that the loop comes to cut can be cut, and none of them is stuck. -/
def GetsOn (cfg : ChunkingConfig) (force : Bool) (buffer : List Char) : Prop :=
  ∀ b, Reaches cfg force buffer b → Cuts cfg force b →
    (byteLen b ≤ cfg.maxChars ∨ isCharBoundary b cfg.maxChars = true) ∧ ¬ Stuck cfg force b

/-! ## §4  The loop -/

/-- The loop ends in a round that it comes to. -/
theorem drain_returned_iff {rest : List Char} :
    (∃ n chunks, drain cfg force n buffer = .returned chunks rest) ↔
      ∃ b chunks, Reaches cfg force buffer b ∧ round cfg force b = .finished chunks rest := by
  constructor
  · rintro ⟨n, chunks, hn⟩
    induction n generalizing buffer chunks with
    | zero => cases hn
    | succ n ih =>
        obtain ⟨m, hm, hcase⟩ := drain_returned_cases hn
        cases hm
        rcases hcase with hround | ⟨first, later, b, -, hround, hdrain⟩
        · exact ⟨buffer, chunks, .refl, hround⟩
        · obtain ⟨b', chunks', hreach, hfinished⟩ := ih later hdrain
          exact ⟨b', chunks', hreach.head ⟨first, hround⟩, hfinished⟩
  · rintro ⟨b, chunks, hreach, hfinished⟩
    induction hreach using Relation.ReflTransGen.head_induction_on with
    | refl => exact ⟨1, chunks, by rw [drain, hfinished]⟩
    | head hstep _ ih =>
        obtain ⟨chunks', hround⟩ := hstep
        obtain ⟨n, chunks'', hn⟩ := ih
        exact ⟨n + 1, chunks' ++ chunks'', by simp only [drain, hround, hn]⟩

theorem again_unique : Relator.RightUnique (Again cfg force) := by
  rintro b b₁ b₂ ⟨chunks, h⟩ ⟨chunks', h'⟩
  rw [h] at h'
  cases h'
  rfl

/-- The round in which the loop ends is the last one. -/
theorem reaches_finished {b₁ b₂ rest : List Char} {chunks : List (List Char)}
    (h₁ : Reaches cfg force buffer b₁) (h₂ : Reaches cfg force buffer b₂)
    (hend : round cfg force b₂ = .finished chunks rest) :
    Reaches cfg force b₁ b₂ := by
  rcases Relation.ReflTransGen.total_of_right_unique again_unique h₁ h₂ with h | h
  · exact h
  · rcases Relation.ReflTransGen.cases_head h with rfl | ⟨next, ⟨chunks', hround⟩, -⟩
    · exact .refl
    · rw [hend] at hround
      cases hround

theorem GetsOn.again (h : GetsOn cfg force b) (hstep : Again cfg force b b') :
    GetsOn cfg force b' :=
  fun c hreach => h c (hreach.head hstep)

/-- **What a drain that gets on ends with.** Induction on the bytes that are left. -/
theorem finishes_of_flush (hmin : 1 ≤ cfg.minChars) (hle : cfg.minChars ≤ cfg.maxChars) :
    ∀ (n : ℕ) (b : List Char), byteLen b ≤ n → Flush b → GetsOn cfg force b →
      ∃ b' chunks rest, Reaches cfg force b b' ∧ round cfg force b' = .finished chunks rest ∧
        (trimChars rest = [] ∨ byteLen rest < cfg.minChars) := by
  intro n
  induction n with
  | zero =>
      intro b hb _ _
      have hnil : b = [] := by
        by_contra hne
        have := byteLen_pos_iff.mpr hne
        omega
      subst hnil
      have hcuts : ¬ Cuts cfg force [] := fun h => h.1 rfl
      obtain ⟨chunks, rest, hround, hrest⟩ := round_of_not_cuts hcuts
      exact ⟨[], chunks, rest, .refl, hround, hrest⟩
  | succ n ih =>
      intro b hb hflush hgets
      by_cases hcuts : Cuts cfg force b
      · obtain ⟨hboundary, hstuck⟩ := hgets b .refl hcuts
        obtain ⟨b', hstep, hflush', hshort⟩ := again_shorter hmin hle hcuts
          ((window_boundary_iff cfg b).mpr hboundary) hstuck
        have hlt := hshort hflush
        obtain ⟨b'', chunks, rest, hreach, hend⟩ :=
          ih b' (by omega) hflush' (hgets.again hstep)
        exact ⟨b'', chunks, rest, hreach.head hstep, hend⟩
      · obtain ⟨chunks, rest, hround, hrest⟩ := round_of_not_cuts hcuts
        exact ⟨b, chunks, rest, .refl, hround, hrest⟩

theorem returns_of_getsOn (hmin : 1 ≤ cfg.minChars) (hle : cfg.minChars ≤ cfg.maxChars)
    (hgets : GetsOn cfg force buffer) :
    ∃ n chunks rest, drain cfg force n buffer = .returned chunks rest ∧
      (trimChars rest = [] ∨ byteLen rest < cfg.minChars) := by
  obtain ⟨b, chunks, rest, hreach, hend, hrest⟩ : ∃ b chunks rest,
      Reaches cfg force buffer b ∧ round cfg force b = .finished chunks rest ∧
      (trimChars rest = [] ∨ byteLen rest < cfg.minChars) := by
    by_cases hcuts : Cuts cfg force buffer
    · -- the first round may put line feeds behind a line
      obtain ⟨hboundary, hstuck⟩ := hgets buffer .refl hcuts
      obtain ⟨b', hstep, hflush, -⟩ := again_shorter hmin hle hcuts
        ((window_boundary_iff cfg buffer).mpr hboundary) hstuck
      obtain ⟨b'', chunks, rest, hreach, hend⟩ :=
        finishes_of_flush hmin hle (byteLen b') b' (Nat.le_refl _) hflush (hgets.again hstep)
      exact ⟨b'', chunks, rest, hreach.head hstep, hend⟩
    · obtain ⟨chunks, rest, hround, hrest⟩ := round_of_not_cuts hcuts
      exact ⟨buffer, chunks, rest, .refl, hround, hrest⟩
  obtain ⟨n, chunks', hreturned⟩ := drain_returned_iff.mpr ⟨b, chunks, hreach, hend⟩
  exact ⟨n, chunks', rest, hreturned, hrest⟩

/-- **Termination.** Whatever is in the buffer, a drain returns, with a blank buffer or one
that is shorter than `min_chars`, exactly when each buffer that its loop comes to cut can be
cut and is not stuck at the line of a fence. -/
theorem drain_returns_iff (cfg : ChunkingConfig) (force : Bool) (buffer : List Char)
    (hmin : 1 ≤ cfg.minChars) (hle : cfg.minChars ≤ cfg.maxChars) :
    (∃ n chunks rest, drain cfg force n buffer = .returned chunks rest ∧
      (trimChars rest = [] ∨ byteLen rest < cfg.minChars)) ↔ GetsOn cfg force buffer := by
  constructor
  · rintro ⟨n, chunks, rest, hreturned, -⟩ b hreach hcuts
    obtain ⟨last, chunks', hlast, hend⟩ := drain_returned_iff.mp ⟨n, chunks, hreturned⟩
    have hrest := reaches_finished hreach hlast hend
    constructor
    · rw [← window_boundary_iff]
      by_contra hinside
      have hpanic := round_panicked_iff.mpr ⟨hcuts, hinside⟩
      rcases Relation.ReflTransGen.cases_head hrest with rfl | ⟨next, ⟨chunks'', hround⟩, -⟩
      · rw [hpanic] at hend
        cases hend
      · rw [hpanic] at hround
        cases hround
    · intro hstuck
      obtain ⟨hstuck', hcuts'⟩ := reaches_stuck hmin hle hstuck hcuts hrest
      obtain ⟨next, ⟨chunks'', hround⟩, -⟩ := again_stuck hmin hle hstuck' hcuts'
      rw [hend] at hround
      cases hround
  · exact returns_of_getsOn hmin hle

theorem drain_returns_two_lines :
    GetsOn ⟨1, 4, .newline⟩ false "ab\ncd".toList :=
  (drain_returns_iff ⟨1, 4, .newline⟩ false "ab\ncd".toList (by decide) (by decide)).mp
    ⟨3, ["ab".toList, "cd".toList], [], by decide, Or.inl rfl⟩

/-- One line that opens a fence is given back in each round, and the loop never ends. -/
theorem drain_repeats_openLine : ¬ ∃ n chunks rest,
    drain ⟨4, 10, .paragraph⟩ false n "```\n".toList = .returned chunks rest := by
  have hround : round ⟨4, 10, .paragraph⟩ false "```\n".toList =
      .again ["```\n\n```".toList] "```\n".toList := by decide
  have hrunning : ∀ n, drain ⟨4, 10, .paragraph⟩ false n "```\n".toList = .running := by
    intro n
    induction n with
    | zero => rfl
    | succ n ih => rw [drain, hround]; simp only [ih]
  rintro ⟨n, chunks, rest, hreturned⟩
  rw [hrunning n] at hreturned
  cases hreturned

end Oclaw.AgentCore.StreamChunker
