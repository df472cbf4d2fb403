import Oclaw.AgentCore.FenceSpans

/-!
# Fences across a cut

Which fence is open after a text depends on its lines alone. A cut inside a fence adds a line
to the chunk, and every chunk is trimmed before it is emitted; the sections follow what each
of the two does to the open fence.
-/

namespace Oclaw.AgentCore.StreamChunker

open Oclaw.Lib

variable {cfg : ChunkingConfig} {force : Bool} {text line l p r lead core trail : List Char}
  {lines : List (List Char)} {c marker : Char} {len : ℕ} {o : OpenFence}

/-! ## §1  The open fence as a fold -/

/-- Marker and number of markers of a fence line. -/
def fenceKey (line : List Char) : Option (Char × ℕ) :=
  (fenceMarker line).map fun found => (found.1, found.2.1)

def fenceKeyOf (o : OpenFence) : Char × ℕ := (o.marker, o.markerLen)

/-- What one line does to the fence that is open. -/
def fenceStep (fence : Option (Char × ℕ)) (line : List Char) : Option (Char × ℕ) :=
  match fenceKey line with
  | none => fence
  | some key =>
      match fence with
      | some o => if key.1 = o.1 ∧ o.2 ≤ key.2 then none else some o
      | none => some key

def openKey (text : List Char) : Option (Char × ℕ) := (splitLines text).foldl fenceStep none

/-- The scan keeps more of the open fence, and what it keeps follows the fold. -/
theorem scanFences_key : ∀ (lines : List (List Char)) (pos : ℕ) (fence : Option OpenFence)
    (spans : List FenceSpan),
    (scanFences pos fence spans lines).2.map fenceKeyOf =
      lines.foldl fenceStep (fence.map fenceKeyOf)
  | [], pos, fence, spans => rfl
  | line :: lines, pos, fence, spans => by
      rw [scanFences, List.foldl_cons, fenceStep, fenceKey]
      cases fenceMarker line with
      | none => exact scanFences_key lines _ fence spans
      | some found =>
          cases fence with
          | none => exact scanFences_key lines _ _ spans
          | some o =>
              simp only [Option.map_some, fenceKeyOf]
              split
              · exact scanFences_key lines _ none _
              · exact scanFences_key lines _ (some o) spans

theorem leftOpen_key (text : List Char) : (leftOpen text).map fenceKeyOf = openKey text :=
  scanFences_key (splitLines text) 0 none []

theorem leftOpen_eq_none_iff : leftOpen text = none ↔ openKey text = none := by
  rw [← leftOpen_key, Option.map_eq_none_iff]

/-- A line put behind a text. -/
theorem openKey_append_line (text : List Char) (hl : '\n' ∉ l) :
    openKey (text ++ '\n' :: l) = fenceStep (openKey text) l := by
  unfold openKey
  have hlines : splitLines (text ++ '\n' :: l) = splitLines text ++ splitLines l :=
    splitAt_append_sep rfl text l
  rw [hlines, splitLines_last hl, List.foldl_append]
  rfl

/-! ## §2  Whitespace around a line -/

/-- The line of a fence as its indentation, its markers, and the rest. -/
theorem fenceKey_split (hlead : ∀ c ∈ lead, isWhitespace c = true)
    (hc : isWhitespace c = false) :
    fenceKey (lead ++ c :: core) =
      if byteLen lead ≤ 3 ∧ IsMarker c ∧ 3 ≤ ((c :: core).takeWhile (· = c)).length then
        some (c, ((c :: core).takeWhile (· = c)).length)
      else none := by
  have hnot : ¬ isWhitespace c = true := by simp [hc]
  have hdrop : (lead ++ c :: core).dropWhile isWhitespace = c :: core := by
    rw [List.dropWhile_append_of_pos hlead, List.dropWhile_cons_of_neg hnot]
  have hindent : byteLen (lead ++ c :: core) - byteLen (c :: core) = byteLen lead := by
    rw [byteLen_append]
    omega
  unfold fenceKey fenceMarker
  simp only [hdrop, hindent]
  by_cases hshort : byteLen lead ≤ 3
  · rw [if_pos hshort]
    by_cases hmarker : IsMarker c
    · rw [if_pos (show c = backtick ∨ c = '~' from hmarker)]
      by_cases hlen : 3 ≤ ((c :: core).takeWhile (· = c)).length
      · rw [if_pos hlen, if_pos ⟨hshort, hmarker, hlen⟩]
        rfl
      · rw [if_neg hlen, if_neg fun h => hlen h.2.2]
        rfl
    · rw [if_neg (show ¬ (c = backtick ∨ c = '~') from hmarker), if_neg fun h => hmarker h.2.1]
      rfl
  · rw [if_neg hshort, if_neg fun h => hshort h.1]
    rfl

theorem fenceKey_blank (h : ∀ c ∈ line, isWhitespace c = true) : fenceKey line = none := by
  have hdrop : line.dropWhile isWhitespace = [] := List.dropWhile_eq_nil_iff.mpr h
  unfold fenceKey fenceMarker
  simp only [hdrop]
  split <;> rfl

/-- A line is blank, or it has a first character behind its indentation. -/
theorem blank_or_split (line : List Char) :
    (∀ c ∈ line, isWhitespace c = true) ∨ ∃ lead c core, line = lead ++ c :: core ∧
      (∀ c ∈ lead, isWhitespace c = true) ∧ isWhitespace c = false := by
  cases hdrop : line.dropWhile isWhitespace with
  | nil => exact Or.inl (List.dropWhile_eq_nil_iff.mp hdrop)
  | cons c core =>
      have hsplit := @List.takeWhile_append_dropWhile Char isWhitespace line
      rw [hdrop] at hsplit
      refine Or.inr ⟨_, c, core, hsplit.symm, all_takeWhile _ _, ?_⟩
      have hhead := List.head?_dropWhile_not isWhitespace line
      rw [hdrop] at hhead
      simpa using hhead

/-- Whitespace at the end of a line does not matter. -/
theorem fenceKey_append_blank (line : List Char) (htrail : ∀ c ∈ trail, isWhitespace c = true) :
    fenceKey (line ++ trail) = fenceKey line := by
  rcases blank_or_split line with hblank | ⟨lead, c, core, rfl, hlead, hc⟩
  · rw [fenceKey_blank hblank, fenceKey_blank (List.forall_mem_append.mpr ⟨hblank, htrail⟩)]
  · -- the markers end where the whitespace begins
    have hstop : trail.takeWhile (· = c) = [] := by
      cases trail with
      | nil => rfl
      | cons x trail =>
          apply List.takeWhile_cons_of_neg
          intro hx
          have hspace := htrail x List.mem_cons_self
          rw [of_decide_eq_true hx, hc] at hspace
          cases hspace
    have hrun : (c :: (core ++ trail)).takeWhile (· = c) = (c :: core).takeWhile (· = c) := by
      rw [← List.cons_append, List.takeWhile_append, hstop, List.append_nil]
      split
      · rename_i hall
        exact ((List.takeWhile_prefix _).eq_of_length hall).symm
      · rfl
    rw [List.append_assoc, List.cons_append, fenceKey_split hlead hc, fenceKey_split hlead hc,
      hrun]

theorem foldl_blank (hlines : ∀ line ∈ lines, ∀ c ∈ line, isWhitespace c = true)
    (fence : Option (Char × ℕ)) : lines.foldl fenceStep fence = fence := by
  induction lines with
  | nil => rfl
  | cons line lines ih =>
      obtain ⟨hline, hrest⟩ := List.forall_mem_cons.mp hlines
      rw [List.foldl_cons, fenceStep, fenceKey_blank hline]
      exact ih hrest

/-! ## §3  Trimming a text -/

/-- The characters of a line are characters of the text. -/
theorem mem_of_mem_splitLines (text : List Char) :
    ∀ line ∈ splitLines text, ∀ c ∈ line, c ∈ text := by
  induction text using lines_induction with
  | last l hl =>
      rw [splitLines_last hl]
      intro line hline c hc
      rwa [List.mem_singleton.mp hline] at hc
  | more l rest hl ih =>
      rw [splitLines_more hl]
      refine List.forall_mem_cons.mpr ⟨fun c hc => List.mem_append_left _ hc, ?_⟩
      intro line hline c hc
      exact List.mem_append_right _ (List.mem_cons_of_mem _ (ih line hline c hc))

theorem foldl_append_blank (text : List Char) (htrail : ∀ c ∈ trail, isWhitespace c = true)
    (fence : Option (Char × ℕ)) :
    (splitLines (text ++ trail)).foldl fenceStep fence =
      (splitLines text).foldl fenceStep fence := by
  induction text using lines_induction generalizing fence with
  | last l hl =>
      obtain ⟨w, hw, htail⟩ := firstLine_cases trail
      have hlw : '\n' ∉ l ++ w := by
        rw [List.mem_append]
        exact not_or.mpr ⟨hl, hw⟩
      have hstep : ∀ w', (∀ c ∈ w', isWhitespace c = true) →
          fenceStep fence (l ++ w') = fenceStep fence l := by
        intro w' hw'
        unfold fenceStep
        rw [fenceKey_append_blank l hw']
      rw [splitLines_last hl]
      rcases htail with rfl | ⟨rest, rfl⟩
      · rw [splitLines_last hlw]
        exact hstep trail htrail
      · obtain ⟨hwblank, hrest⟩ := List.forall_mem_append.mp htrail
        have hlines : ∀ line ∈ splitLines rest, ∀ c ∈ line, isWhitespace c = true :=
          fun line hline c hc => hrest c
            (List.mem_cons_of_mem _ (mem_of_mem_splitLines rest line hline c hc))
        rw [← List.append_assoc, splitLines_more hlw, List.foldl_cons, hstep w hwblank,
          foldl_blank hlines]
        rfl
  | more l rest hl ih =>
      rw [List.append_assoc, List.cons_append, splitLines_more hl, splitLines_more hl,
        List.foldl_cons, List.foldl_cons, ih]

/-- The first line that is not blank would not become the line of a fence without its
indentation. -/
def Unindented (text : List Char) : Prop :=
  ∀ line ∈ (splitLines text).find? (fun l => !l.all isWhitespace),
    byteLen (line.takeWhile isWhitespace) ≤ 3 ∨ fenceKey (line.dropWhile isWhitespace) = none

instance (text : List Char) : Decidable (Unindented text) :=
  inferInstanceAs (Decidable (∀ line ∈ _, _))

theorem fenceStep_dropWhile (hc : isWhitespace c = false)
    (hlead : ∀ c ∈ lead, isWhitespace c = true)
    (h : byteLen ((lead ++ c :: core).takeWhile isWhitespace) ≤ 3 ∨
      fenceKey ((lead ++ c :: core).dropWhile isWhitespace) = none) :
    fenceKey (c :: core) = fenceKey (lead ++ c :: core) := by
  have hnot : ¬ isWhitespace c = true := by simp [hc]
  rw [List.takeWhile_append_of_pos hlead, List.takeWhile_cons_of_neg hnot, List.append_nil,
    List.dropWhile_append_of_pos hlead, List.dropWhile_cons_of_neg hnot] at h
  have hplain := @fenceKey_split [] core c (by simp) hc
  rw [List.nil_append] at hplain
  rw [fenceKey_split hlead hc]
  rcases h with hshort | hnone
  · rw [hplain]
    simp [hshort]
  · rw [hnone]
    rw [hplain] at hnone
    split at hnone
    · cases hnone
    · rename_i hno
      rw [if_neg]
      rintro ⟨-, hrun⟩
      exact hno ⟨by simp, hrun⟩

/-- A first line that is not blank loses its indentation. -/
theorem openKey_dropWhile_line {tail : List Char} (hl : '\n' ∉ lead ++ c :: core)
    (hlead : ∀ c ∈ lead, isWhitespace c = true) (hc : isWhitespace c = false)
    (htail : tail = [] ∨ ∃ rest, tail = '\n' :: rest)
    (h : Unindented (lead ++ c :: core ++ tail)) :
    openKey ((lead ++ c :: core ++ tail).dropWhile isWhitespace) =
      openKey (lead ++ c :: core ++ tail) := by
  have hnot : ¬ isWhitespace c = true := by simp [hc]
  have hcore : '\n' ∉ c :: core := fun hmem => hl (List.mem_append_right _ hmem)
  have hdrop : (lead ++ c :: core ++ tail).dropWhile isWhitespace = c :: core ++ tail := by
    rw [List.append_assoc, List.dropWhile_append_of_pos hlead, List.cons_append,
      List.dropWhile_cons_of_neg hnot]
  -- the lines behind the first one are the same
  obtain ⟨lines, hlines, hlines'⟩ : ∃ lines,
      splitLines (lead ++ c :: core ++ tail) = (lead ++ c :: core) :: lines ∧
      splitLines (c :: core ++ tail) = (c :: core) :: lines := by
    rcases htail with rfl | ⟨rest, rfl⟩
    · rw [List.append_nil, List.append_nil]
      exact ⟨[], splitLines_last hl, splitLines_last hcore⟩
    · exact ⟨_, splitLines_more hl rest, splitLines_more hcore rest⟩
  have hfirst : (splitLines (lead ++ c :: core ++ tail)).find? (fun l => !l.all isWhitespace) =
      some (lead ++ c :: core) := by
    rw [hlines]
    apply List.find?_cons_of_pos
    simp [hc]
  rw [hdrop]
  unfold openKey
  rw [hlines, hlines', List.foldl_cons, List.foldl_cons, fenceStep, fenceStep,
    fenceStep_dropWhile hc hlead (h _ hfirst)]

theorem openKey_dropWhile (text : List Char) (h : Unindented text) :
    openKey (text.dropWhile isWhitespace) = openKey text := by
  induction text using lines_induction with
  | last l hl =>
      rcases blank_or_split l with hblank | ⟨lead, c, core, rfl, hlead, hc⟩
      · rw [List.dropWhile_eq_nil_iff.mpr hblank]
        unfold openKey
        rw [splitLines_last hl, List.foldl_cons, fenceStep, fenceKey_blank hblank]
        rfl
      · have hline := @openKey_dropWhile_line lead core c [] hl hlead hc (Or.inl rfl)
        rw [List.append_nil] at hline
        exact hline h
  | more l rest hl ih =>
      rcases blank_or_split l with hblank | ⟨lead, c, core, rfl, hlead, hc⟩
      · -- a blank line is dropped as a whole
        have hfeed : isWhitespace '\n' = true := by decide
        have hrest : Unindented rest := by
          intro line hline
          apply h line
          have hall : l.all isWhitespace = true := List.all_eq_true.mpr hblank
          rw [splitLines_more hl, List.find?_cons_of_neg (by simp [hall])]
          exact hline
        rw [List.dropWhile_append_of_pos hblank, List.dropWhile_cons_of_pos hfeed, ih hrest]
        unfold openKey
        rw [splitLines_more hl, List.foldl_cons, fenceStep, fenceKey_blank hblank]
      · exact openKey_dropWhile_line hl hlead hc (Or.inr ⟨rest, rfl⟩) h

/-- **Trimming keeps the open fence** of a text that is not indented too far. -/
theorem openKey_trimChars (h : Unindented text) : openKey (trimChars text) = openKey text := by
  obtain ⟨trail, hdrop, htrail⟩ := dropWhile_eq_trimChars text
  rw [← openKey_dropWhile text h, hdrop]
  exact (foldl_append_blank (trimChars text) htrail none).symm

/-! ## §4  The sides of a cut -/

theorem splitSides_open (h : leftOpen p = some o) (r : List Char) :
    splitSides p r = ⟨p, some ('\n' :: o.indent ++ List.replicate 3 o.marker),
      some (o.openLine ++ ['\n']), trimNewlines r⟩ := by
  unfold splitSides
  rw [parse_of_open h, List.getLast?_concat]
  simp only [Nat.le_refl, if_true]

theorem splitSides_plain_iff (p r : List Char) :
    (splitSides p r).fenceClose = none ↔
      ∀ s, (parseFenceSpans p).getLast? = some s → s.stop < byteLen p := by
  unfold splitSides
  cases (parseFenceSpans p).getLast? with
  | none => simp
  | some s =>
      by_cases hstop : byteLen p ≤ s.stop
      · simp [hstop]
      · simp [hstop, Nat.not_le.mp hstop]

theorem splitSides_plain (h : (splitSides p r).fenceClose = none) :
    splitSides p r = ⟨p, none, none, trimNewlines r⟩ := by
  unfold splitSides at h ⊢
  cases hlast : (parseFenceSpans p).getLast? with
  | none => rfl
  | some s =>
      rw [hlast] at h
      by_cases hstop : byteLen p ≤ s.stop
      · simp [hstop] at h
      · simp [hstop]

/-- The line that `split_at` adds closes the open fence if it has at most three markers. -/
theorem fenceStep_close (h : leftOpen p = some o) :
    fenceStep (some (fenceKeyOf o)) (o.indent ++ List.replicate 3 o.marker) =
      if o.markerLen ≤ 3 then none else some (fenceKeyOf o) := by
  obtain ⟨⟨len, hm⟩, -⟩ := leftOpen_opens h
  obtain ⟨rest, -, hindent, hshort, hmarker, -⟩ := fenceMarker_eq_some hm
  have hclose := fenceMarker_run hindent hshort hmarker (Nat.le_refl 3) []
  rw [List.append_nil] at hclose
  unfold fenceStep fenceKey
  rw [hclose]
  simp [fenceKeyOf]

/-! ## §5  Cuts that keep the fences -/

/-- What is asked of a cut: its chunk leaves no fence open, a fence is closed only where one
was open, and a chunk without an open fence is emitted as it is, with nothing put in front of
what follows. -/
structure Kept (chunk rest : List Char) (s : Split) (chunks : List (List Char))
    (buffer : List Char) : Prop where
  balanced : ∀ out ∈ chunks, leftOpen out = none
  closes : s.fenceClose.isSome = true → (leftOpen chunk).isSome = true
  unchanged : leftOpen chunk = none → chunks = emitted chunk ∧ buffer = trimNewlines rest

def FencesKept (cfg : ChunkingConfig) (force : Bool) (chunk rest : List Char) : Prop :=
  ∃ s chunks buffer, splitAtIdx (chunk ++ rest) (byteLen chunk) = some s ∧
    round cfg force (chunk ++ rest) = .again chunks buffer ∧ Kept chunk rest s chunks buffer

/-- The cut is not right behind the line that closed the last fence, and a fence that is open
there has three markers. -/
structure CleanCut (chunk : List Char) : Prop where
  behind : leftOpen chunk = none →
    ∀ s, (parseFenceSpans chunk).getLast? = some s → s.stop < byteLen chunk
  three : ∀ o, leftOpen chunk = some o → o.markerLen ≤ 3

theorem mem_emitted {out : List Char} (h : out ∈ emitted text) : out = trimChars text := by
  unfold emitted at h
  split at h
  · cases h
  · exact List.mem_singleton.mp h

/-- A line behind a text with an open fence does not change its first line. -/
theorem unindented_append (hopen : leftOpen p = some o) (h : Unindented p) (l : List Char) :
    Unindented (p ++ '\n' :: l) := by
  have hlines : splitLines (p ++ '\n' :: l) = splitLines p ++ splitLines l :=
    splitAt_append_sep rfl p l
  intro line hline
  rw [hlines, List.find?_append] at hline
  cases hfind : (splitLines p).find? (fun l => !l.all isWhitespace) with
  | some line' =>
      rw [hfind, Option.some_or] at hline
      rw [← Option.some.inj hline]
      exact h line' hfind
  | none =>
      -- all lines are blank, and no fence is open
      exfalso
      rw [List.find?_eq_none] at hfind
      have hblank : openKey p = none := by
        refine foldl_blank ?_ none
        intro line hline
        have h := hfind line hline
        rw [Bool.not_eq_true, Bool.not_eq_false', List.all_eq_true] at h
        exact h
      rw [leftOpen_eq_none_iff.mpr hblank] at hopen
      cases hopen

/-- The chunk of a cut inside a fence, with the line that closes it. -/
theorem emitted_open (hopen : leftOpen p = some o) (h : Unindented p) :
    ∃ out, emitted (p ++ ('\n' :: o.indent ++ List.replicate 3 o.marker)) = [out] ∧
      openKey out = if o.markerLen ≤ 3 then none else some (fenceKeyOf o) := by
  obtain ⟨⟨len, hm⟩, hsingle⟩ := leftOpen_opens hopen
  obtain ⟨rest, hopenLine, hindent, -, hmarker, -⟩ := fenceMarker_eq_some hm
  have hline : '\n' ∉ o.indent ++ List.replicate 3 o.marker := by
    rw [hopenLine] at hsingle
    rw [List.mem_append]
    rintro (hmem | hmem)
    · exact hsingle (List.mem_append_left _ hmem)
    · exact hmarker.ne_feed (List.eq_of_mem_replicate hmem).symm
  have hblank : trimChars (p ++ ('\n' :: o.indent ++ List.replicate 3 o.marker)) ≠ [] := by
    intro hnil
    have hmem : o.marker ∈ p ++ ('\n' :: o.indent ++ List.replicate 3 o.marker) := by simp
    have hspace := trimChars_eq_nil_iff.mp hnil _ hmem
    rw [hmarker.not_whitespace] at hspace
    cases hspace
  refine ⟨_, if_neg hblank, ?_⟩
  rw [List.cons_append, openKey_trimChars (unindented_append hopen h _),
    openKey_append_line p hline, ← leftOpen_key, hopen]
  exact fenceStep_close hopen

/-- **The cut itself.** -/
theorem fencesKept_iff (hcuts : Cuts cfg force (p ++ r))
    (hpick : pickBreakIndex cfg (p ++ r) = some (some (byteLen p))) (h : Unindented p) :
    FencesKept cfg force p r ↔ CleanCut p := by
  have hround := round_of_cut hcuts hpick
  have hsplit := splitAtIdx_append p r
  constructor
  · rintro ⟨s, chunks, buffer, hs, hagain, hkept⟩
    rw [hsplit] at hs
    cases hs
    rw [hround] at hagain
    cases hagain
    constructor
    · intro hclosed
      rw [← splitSides_plain_iff p r]
      by_contra hclose
      have hopen := hkept.closes (Option.isSome_iff_ne_none.mpr hclose)
      rw [hclosed] at hopen
      cases hopen
    · intro o hopen
      obtain ⟨out, hout, hkey⟩ := emitted_open hopen h
      have hbalanced := hkept.balanced
      rw [splitSides_open hopen, Option.getD_some, hout] at hbalanced
      have hnone := leftOpen_eq_none_iff.mp (hbalanced out (List.mem_singleton_self out))
      rw [hkey] at hnone
      by_contra hlen
      rw [if_neg hlen] at hnone
      cases hnone
  · intro hclean
    refine ⟨_, _, _, hsplit, hround, ?_⟩
    cases hfence : leftOpen p with
    | none =>
        have hplain := splitSides_plain ((splitSides_plain_iff p r).mpr (hclean.behind hfence))
        rw [hplain]
        constructor
        · intro out hout
          rw [Option.getD_none, List.append_nil] at hout
          rw [mem_emitted hout, leftOpen_eq_none_iff, openKey_trimChars h]
          exact leftOpen_eq_none_iff.mp hfence
        · intro hclose
          cases hclose
        · intro _
          rw [Option.getD_none, List.append_nil]
          exact ⟨rfl, rfl⟩
    | some o =>
        obtain ⟨out, hout, hkey⟩ := emitted_open hfence h
        rw [if_pos (hclean.three o hfence)] at hkey
        rw [splitSides_open hfence]
        constructor
        · intro out' hout'
          rw [Option.getD_some, hout] at hout'
          rw [List.mem_singleton.mp hout']
          exact leftOpen_eq_none_iff.mpr hkey
        · intro _
          rw [hfence]
          rfl
        · intro hclosed
          rw [hfence] at hclosed
          cases hclosed

/-- **Fences.** In a run whose chunks are not indented too far, every cut keeps the fences
exactly when every cut is a clean one. -/
theorem fences_kept_iff (cfg : ChunkingConfig) (calls : List Call)
    (hindent : ∀ force chunk rest, CutOf cfg [] calls force chunk rest → Unindented chunk) :
    (∀ force chunk rest, CutOf cfg [] calls force chunk rest →
      FencesKept cfg force chunk rest) ↔
      ∀ force chunk rest, CutOf cfg [] calls force chunk rest → CleanCut chunk := by
  constructor
  · intro hkept force chunk rest hcut
    obtain ⟨hcuts, hpick⟩ := hcut.cuts
    exact (fencesKept_iff hcuts hpick (hindent force chunk rest hcut)).mp
      (hkept force chunk rest hcut)
  · intro hclean force chunk rest hcut
    obtain ⟨hcuts, hpick⟩ := hcut.cuts
    exact (fencesKept_iff hcuts hpick (hindent force chunk rest hcut)).mpr
      (hclean force chunk rest hcut)

theorem code_block_cuts {chunk rest : List Char}
    (h : CutOf ⟨6, 8, .newline⟩ [] [.push "```\nab\ncd\n```".toList, .drain false]
      force chunk rest) :
    chunk = "```\nab\nc".toList ∨ chunk = "```\nd\n``".toList := by
  have hfirst : round ⟨6, 8, .newline⟩ false "```\nab\ncd\n```".toList =
      .again ["```\nab\nc\n```".toList] "```\nd\n```".toList := by decide
  have hsecond : round ⟨6, 8, .newline⟩ false "```\nd\n```".toList =
      .again ["```\nd\n``\n```".toList] "```\n`".toList := by decide
  have hlast : ¬ Cuts ⟨6, 8, .newline⟩ false "```\n`".toList := by
    intro h
    exact absurd (h.2.1 rfl) (by decide)
  have hchunk : ∀ {i : ℕ} {b c : List Char}, b = chunk ++ rest →
      pickBreakIndex ⟨6, 8, .newline⟩ b = some (some i) → strTo b i = some c →
      pickBreakIndex ⟨6, 8, .newline⟩ (chunk ++ rest) = some (some (byteLen chunk)) →
      chunk = c := by
    intro i b c hb hi hc hpick
    rw [hb] at hi hc
    rw [hi] at hpick
    have hlen : i = byteLen chunk := Option.some.inj (Option.some.inj hpick)
    rw [hlen, strTo_append] at hc
    exact Option.some.inj hc
  obtain ⟨rfl, hreach⟩ := h.of_push_drain
  obtain ⟨hcuts, hpick⟩ := h.cuts
  rcases Reaches.head_cases hfirst hreach with heq | hreach
  · exact Or.inl (@hchunk 8 _ _ heq.symm (by decide) (by decide) hpick)
  · rcases Reaches.head_cases hsecond hreach with heq | hreach
    · exact Or.inr (@hchunk 8 _ _ heq.symm (by decide) (by decide) hpick)
    · rw [Reaches.eq_of_not_cuts hlast hreach] at hcuts
      exact absurd hcuts hlast

/-- A code block of four lines, cut inside the fence and then inside its last line. -/
theorem code_block_kept :
    CutOf ⟨6, 8, .newline⟩ [] [.push "```\nab\ncd\n```".toList, .drain false] false
      "```\nab\nc".toList "d\n```".toList ∧
    ∀ force chunk rest,
      CutOf ⟨6, 8, .newline⟩ [] [.push "```\nab\ncd\n```".toList, .drain false]
        force chunk rest →
      FencesKept ⟨6, 8, .newline⟩ force chunk rest := by
  constructor
  · exact .push (.here .refl ⟨by decide, by decide, by decide⟩ (by decide))
  · refine (fences_kept_iff ⟨6, 8, .newline⟩
      [.push "```\nab\ncd\n```".toList, .drain false] ?_).mpr ?_
    · intro force chunk rest hcut
      rcases code_block_cuts hcut with rfl | rfl <;> decide
    · intro force chunk rest hcut
      have hopen : leftOpen chunk = some ⟨0, backtick, 3, [], "```".toList⟩ := by
        rcases code_block_cuts hcut with rfl | rfl <;> decide
      constructor
      · intro hclosed
        rw [hopen] at hclosed
        cases hclosed
      · intro o ho
        rw [hopen] at ho
        cases ho
        exact Nat.le_refl 3

/-- A cut right behind the line that closes a fence closes it once more. -/
theorem closed_fence_reopened :
    ¬ ∀ force chunk rest,
      CutOf ⟨1, 20, .newline⟩ [] [.push "```\na\n```\nbcd".toList, .drain false]
        force chunk rest →
      FencesKept ⟨1, 20, .newline⟩ force chunk rest := by
  intro h
  have hcut : CutOf ⟨1, 20, .newline⟩ []
      [.push "```\na\n```\nbcd".toList, .drain false] false
      "```\na\n```".toList "\nbcd".toList :=
    .push (.here .refl ⟨by decide, by decide, by decide⟩ (by decide))
  obtain ⟨s, chunks, buffer, hsplit, -, hkept⟩ := h _ _ _ hcut
  have hsides : splitAtIdx ("```\na\n```".toList ++ "\nbcd".toList)
      (byteLen "```\na\n```".toList) =
      some ⟨"```\na\n```".toList, some "\n```".toList, some "```\n".toList, "bcd".toList⟩ := by
    decide
  rw [hsides] at hsplit
  cases hsplit
  exact absurd (hkept.closes rfl) (by decide)

end Oclaw.AgentCore.StreamChunker
