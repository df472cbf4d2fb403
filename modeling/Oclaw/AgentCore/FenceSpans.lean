import Oclaw.AgentCore.StreamChunker

/-!
# Fences of a text

What `parse_fence_spans` says about a text: where its spans lie, and which fence is still
open at the end. The open fence depends on the lines alone, one after the other.
-/

namespace Oclaw.AgentCore.StreamChunker

open Oclaw.Lib

variable {text line l r : List Char} {lines : List (List Char)} {marker : Char} {len : ℕ}
  {indent : List Char}

/-! ## §1  Lines -/

theorem feed_ne (h : '\n' ∉ l) : ∀ c ∈ l, (c == '\n') = false := by
  intro c hc
  rw [beq_eq_false_iff_ne]
  rintro rfl
  exact h hc

theorem splitLines_last (h : '\n' ∉ l) : splitLines l = [l] :=
  splitAt_of_forall (feed_ne h)

theorem splitLines_more (h : '\n' ∉ l) (rest : List Char) :
    splitLines (l ++ '\n' :: rest) = l :: splitLines rest :=
  splitAt_terminated rfl (feed_ne h) rest

/-- Induction on the lines of a text. -/
theorem lines_induction {motive : List Char → Prop} (last : ∀ l, '\n' ∉ l → motive l)
    (more : ∀ l rest, '\n' ∉ l → motive rest → motive (l ++ '\n' :: rest)) (text : List Char) :
    motive text := by
  -- the characters that are read belong to the line that they start
  have hread : ∀ (text l : List Char), '\n' ∉ l → motive (l ++ text) := by
    intro text
    induction text with
    | nil =>
        intro l hl
        rw [List.append_nil]
        exact last l hl
    | cons c text ih =>
        intro l hl
        by_cases hc : c = '\n'
        · subst hc
          exact more l text hl (ih [] (by simp))
        · have hl' : '\n' ∉ l ++ [c] := by
            rw [List.mem_append, List.mem_singleton]
            rintro (h | h)
            · exact hl h
            · exact hc h.symm
          have h := ih (l ++ [c]) hl'
          rwa [List.append_assoc] at h
  exact hread text [] (by simp)

/-- A text is its first line, or goes on after a line feed. -/
theorem firstLine_cases (text : List Char) :
    ∃ l, '\n' ∉ l ∧ (text = l ∨ ∃ rest, text = l ++ '\n' :: rest) := by
  induction text using lines_induction with
  | last l hl => exact ⟨l, hl, Or.inl rfl⟩
  | more l rest hl _ => exact ⟨l, hl, Or.inr ⟨rest, rfl⟩⟩

/-- The line feeds are not part of the lines. -/
theorem newline_notMem (text : List Char) : ∀ line ∈ splitLines text, '\n' ∉ line := by
  induction text using lines_induction with
  | last l hl =>
      rw [splitLines_last hl]
      intro line hline
      rw [List.mem_singleton.mp hline]
      exact hl
  | more l rest hl ih =>
      rw [splitLines_more hl]
      exact List.forall_mem_cons.mpr ⟨hl, ih⟩

/-- Where the lines end, with a line feed after each of them. -/
def linesEnd : ℕ → List (List Char) → ℕ
  | pos, [] => pos
  | pos, line :: lines => linesEnd (pos + byteLen line + 1) lines

theorem linesEnd_splitLines (text : List Char) (pos : ℕ) :
    linesEnd pos (splitLines text) = pos + byteLen text + 1 := by
  induction text using lines_induction generalizing pos with
  | last l hl =>
      rw [splitLines_last hl]
      rfl
  | more l rest hl ih =>
      have hfeed : ('\n' : Char).utf8Size = 1 := by decide
      rw [splitLines_more hl, linesEnd, ih, byteLen_append, byteLen_cons, hfeed]
      omega

/-! ## §2  Lines that open and close fences -/

def IsMarker (c : Char) : Prop := c = backtick ∨ c = '~'

instance (c : Char) : Decidable (IsMarker c) := inferInstanceAs (Decidable (_ ∨ _))

theorem IsMarker.not_whitespace {c : Char} (h : IsMarker c) : isWhitespace c = false := by
  rcases h with rfl | rfl <;> decide

theorem IsMarker.ne_feed {c : Char} (h : IsMarker c) : c ≠ '\n' := by
  rcases h with rfl | rfl <;> decide

theorem IsMarker.utf8Size_eq {c : Char} (h : IsMarker c) : c.utf8Size = 1 := by
  rcases h with rfl | rfl <;> decide

/-- After a short indentation a line has its markers. -/
theorem fenceMarker_run (hindent : ∀ c ∈ indent, isWhitespace c = true)
    (hshort : byteLen indent ≤ 3) (hmarker : IsMarker marker) (hlen : 3 ≤ len)
    (rest : List Char) :
    fenceMarker (indent ++ (List.replicate len marker ++ rest)) =
      some (marker, len + (rest.takeWhile (· = marker)).length, indent) := by
  obtain ⟨k, rfl⟩ : ∃ k, len = k + 1 := ⟨len - 1, by omega⟩
  have hfirst : List.replicate (k + 1) marker ++ rest =
      marker :: (List.replicate k marker ++ rest) := rfl
  have hnot : ¬ isWhitespace marker = true := by simp [hmarker.not_whitespace]
  have hdrop : (indent ++ (List.replicate (k + 1) marker ++ rest)).dropWhile isWhitespace =
      List.replicate (k + 1) marker ++ rest := by
    rw [List.dropWhile_append_of_pos hindent, hfirst, List.dropWhile_cons_of_neg hnot]
  have htake : (indent ++ (List.replicate (k + 1) marker ++ rest)).takeWhile isWhitespace =
      indent := by
    rw [List.takeWhile_append_of_pos hindent, hfirst, List.takeWhile_cons_of_neg hnot,
      List.append_nil]
  have hcount : ((List.replicate (k + 1) marker ++ rest).takeWhile (· = marker)).length =
      k + 1 + (rest.takeWhile (· = marker)).length := by
    rw [List.takeWhile_append_of_pos, List.length_append, List.length_replicate]
    intro c hc
    exact decide_eq_true (List.eq_of_mem_replicate hc)
  have hbytes : byteLen (indent ++ (List.replicate (k + 1) marker ++ rest)) -
      byteLen (List.replicate (k + 1) marker ++ rest) ≤ 3 := by
    rw [byteLen_append]
    omega
  unfold fenceMarker
  simp only [hdrop, htake]
  rw [if_pos hbytes, hfirst]
  simp only
  rw [if_pos (show marker = backtick ∨ marker = '~' from hmarker), ← hfirst, hcount,
    if_pos (by omega)]

/-- **Spec of a fence line.** After an indentation of at most three bytes it has at least
three markers. -/
theorem fenceMarker_eq_some (h : fenceMarker line = some (marker, len, indent)) :
    ∃ rest, line = indent ++ (List.replicate len marker ++ rest) ∧
      (∀ c ∈ indent, isWhitespace c = true) ∧ byteLen indent ≤ 3 ∧ IsMarker marker ∧
      3 ≤ len := by
  have hsplit := List.takeWhile_append_dropWhile (p := isWhitespace) (l := line)
  unfold fenceMarker at h
  simp only at h
  split at h
  · rename_i hindent
    cases htrim : line.dropWhile isWhitespace with
    | nil => rw [htrim] at h; cases h
    | cons c rest =>
        rw [htrim] at h
        simp only at h
        split at h
        · rename_i hmarker
          split at h
          · rename_i hlen
            simp only [Option.some.injEq, Prod.mk.injEq] at h
            obtain ⟨rfl, rfl, rfl⟩ := h
            have hrun := List.takeWhile_append_dropWhile (p := (· = c)) (l := c :: rest)
            have hsame : (c :: rest).takeWhile (· = c) =
                List.replicate ((c :: rest).takeWhile (· = c)).length c :=
              List.eq_replicate_iff.mpr
                ⟨rfl, fun b hb => of_decide_eq_true (all_takeWhile _ _ b hb)⟩
            refine ⟨(c :: rest).dropWhile (· = c), ?_, all_takeWhile _ _, ?_, hmarker, hlen⟩
            · rw [← hsame, hrun, ← htrim, hsplit]
            · have hbytes := congrArg byteLen hsplit
              rw [byteLen_append] at hbytes
              omega
          · cases h
        · cases h
  · cases h

/-- A line that goes on stays a fence line. -/
theorem fenceMarker_append (h : fenceMarker line = some (marker, len, indent))
    (rest : List Char) : ∃ more, fenceMarker (line ++ rest) = some (marker, more, indent) := by
  obtain ⟨tail, rfl, hindent, hshort, hmarker, hlen⟩ := fenceMarker_eq_some h
  rw [List.append_assoc, List.append_assoc]
  exact ⟨_, fenceMarker_run hindent hshort hmarker hlen _⟩

/-- The markers of a fence line are three bytes or more. -/
theorem three_le_byteLen (h : fenceMarker line = some (marker, len, indent)) :
    3 ≤ byteLen line := by
  obtain ⟨rest, rfl, -, -, hmarker, hlen⟩ := fenceMarker_eq_some h
  rw [byteLen_append, byteLen_append, byteLen_replicate, hmarker.utf8Size_eq]
  omega

/-! ## §3  Where the spans lie -/

/-- A fence that was opened by a line before `pos`, in a text whose first line is `first`. -/
structure Opened (first : List Char) (pos start : ℕ) (openLine : List Char) (marker : Char)
    (indent : List Char) : Prop where
  first : (start = 0 ∧ openLine = first) ∨ byteLen first + 1 ≤ start
  before : start + byteLen openLine + 1 ≤ pos
  opens : ∃ len, fenceMarker openLine = some (marker, len, indent)
  single : '\n' ∉ openLine

def SpanOpened (first : List Char) (pos : ℕ) (s : FenceSpan) : Prop :=
  Opened first pos s.start s.openLine s.marker s.indent

def FenceOpened (first : List Char) (pos : ℕ) (o : OpenFence) : Prop :=
  Opened first pos o.start o.openLine o.marker o.indent

theorem Opened.mono {first openLine : List Char} {pos pos' start : ℕ}
    (h : Opened first pos start openLine marker indent) (hle : pos ≤ pos') :
    Opened first pos' start openLine marker indent :=
  ⟨h.first, Nat.le_trans h.before hle, h.opens, h.single⟩

/-- A span that was closed: its end is at least one line further on. -/
def Closed (first : List Char) (pos : ℕ) (s : FenceSpan) : Prop :=
  SpanOpened first pos s ∧ s.start + byteLen s.openLine + 4 ≤ s.stop

theorem scanFences_opened {first : List Char} : ∀ (lines : List (List Char)) (pos : ℕ)
    (fence : Option OpenFence) (spans : List FenceSpan),
    (∀ line ∈ lines, '\n' ∉ line) →
    (pos = 0 ∧ (∀ line, lines.head? = some line → line = first) ∨ byteLen first + 1 ≤ pos) →
    (∀ o, fence = some o → FenceOpened first pos o) → (∀ s ∈ spans, Closed first pos s) →
    (∀ s ∈ (scanFences pos fence spans lines).1, Closed first (linesEnd pos lines) s) ∧
      ∀ o, (scanFences pos fence spans lines).2 = some o →
        FenceOpened first (linesEnd pos lines) o
  | [], pos, fence, spans, _, _, hfence, hspans => ⟨hspans, hfence⟩
  | line :: lines, pos, fence, spans, hlines, hpos, hfence, hspans => by
      obtain ⟨hline, hrest⟩ := List.forall_mem_cons.mp hlines
      have hstart : (pos = 0 ∧ line = first) ∨ byteLen first + 1 ≤ pos :=
        hpos.imp_left fun h => ⟨h.1, h.2 line rfl⟩
      have hnext : byteLen first + 1 ≤ pos + byteLen line + 1 := by
        rcases hstart with ⟨rfl, rfl⟩ | h <;> omega
      have hmono : pos ≤ pos + byteLen line + 1 := by omega
      have hfence' : ∀ o, fence = some o →
          FenceOpened first (pos + byteLen line + 1) o :=
        fun o ho => (hfence o ho).mono hmono
      have hspans' : ∀ s ∈ spans, Closed first (pos + byteLen line + 1) s :=
        fun s hs => ⟨(hspans s hs).1.mono hmono, (hspans s hs).2⟩
      rw [scanFences, linesEnd]
      cases hmarker : fenceMarker line with
      | none =>
          exact scanFences_opened lines _ fence spans hrest (Or.inr hnext) hfence' hspans'
      | some found =>
          obtain ⟨marker, markerLen, indent⟩ := found
          simp only
          cases fence with
          | none =>
              simp only
              refine scanFences_opened lines _ _ spans hrest (Or.inr hnext) ?_ hspans'
              rintro _ ⟨⟩
              exact ⟨hstart, Nat.le_refl _, ⟨markerLen, hmarker⟩, hline⟩
          | some o =>
              simp only
              split
              · apply scanFences_opened lines _ none _ hrest (Or.inr hnext) (by simp)
                intro s hs
                rcases List.mem_append.mp hs with hs | hs
                · exact hspans' s hs
                · -- the line that closes the fence has at least three bytes
                  rw [List.mem_singleton.mp hs]
                  refine ⟨hfence' o rfl, ?_⟩
                  have hbefore := (hfence o rfl).before
                  have hbytes := three_le_byteLen hmarker
                  show o.start + byteLen o.openLine + 4 ≤ pos + byteLen line
                  omega
              · exact scanFences_opened lines _ (some o) spans hrest (Or.inr hnext) hfence'
                  hspans'

/-- Spans that were found stay, and an open fence becomes a span or stays open. -/
theorem scanFences_keeps : ∀ (lines : List (List Char)) (pos : ℕ) (fence : Option OpenFence)
    (spans : List FenceSpan),
    (∀ s ∈ spans, s ∈ (scanFences pos fence spans lines).1) ∧
      ∀ o, fence = some o → (scanFences pos fence spans lines).2 = some o ∨
        ∃ s ∈ (scanFences pos fence spans lines).1, s.start = o.start
  | [], pos, fence, spans => ⟨fun _ hs => hs, fun o ho => Or.inl ho⟩
  | line :: lines, pos, fence, spans => by
      rw [scanFences]
      cases fenceMarker line with
      | none => exact scanFences_keeps lines _ fence spans
      | some found =>
          simp only
          cases fence with
          | none =>
              obtain ⟨hkept, -⟩ := scanFences_keeps lines (pos + byteLen line + 1)
                (some ⟨pos, found.1, found.2.1, found.2.2, line⟩) spans
              exact ⟨hkept, by simp⟩
          | some o =>
              simp only
              split
              · obtain ⟨hkept, -⟩ := scanFences_keeps lines (pos + byteLen line + 1) none
                  (spans ++ [⟨o.start, pos + byteLen line, o.openLine, o.marker, o.indent⟩])
                refine ⟨fun s hs => hkept s (List.mem_append_left _ hs), ?_⟩
                rintro _ ⟨⟩
                exact Or.inr ⟨_, hkept _ (List.mem_append_right _ (List.mem_singleton_self _)),
                  rfl⟩
              · exact scanFences_keeps lines _ (some o) spans

variable {rest : List Char} {s : FenceSpan} {o : OpenFence}

/-- The fence that is still open when `parse_fence_spans` has read the lines. -/
def leftOpen (text : List Char) : Option OpenFence :=
  (scanFences 0 none [] (splitLines text)).2

theorem parse_of_closed (h : leftOpen text = none) :
    parseFenceSpans text = (scanFences 0 none [] (splitLines text)).1 := by
  unfold leftOpen at h
  unfold parseFenceSpans
  simp only [h]

theorem parse_of_open (h : leftOpen text = some o) :
    parseFenceSpans text = (scanFences 0 none [] (splitLines text)).1 ++
      [⟨o.start, byteLen text, o.openLine, o.marker, o.indent⟩] := by
  unfold leftOpen at h
  unfold parseFenceSpans
  simp only [h]

/-- **Spec of `parse_fence_spans`.** A span was opened by the first line or further on, and
it was closed by a later line or extends to the end. -/
theorem parse_opened (hl : '\n' ∉ l) (htext : text = l ∨ ∃ rest, text = l ++ '\n' :: rest)
    (hs : s ∈ parseFenceSpans text) :
    SpanOpened l (byteLen text + 1) s ∧
      (s.start + byteLen s.openLine + 4 ≤ s.stop ∨ s.stop = byteLen text) := by
  have hhead : ∀ line, (splitLines text).head? = some line → line = l := by
    intro line hline
    rcases htext with rfl | ⟨rest, rfl⟩
    · rw [splitLines_last hl] at hline
      exact (Option.some.inj hline).symm
    · rw [splitLines_more hl] at hline
      exact (Option.some.inj hline).symm
  obtain ⟨hclosed, hopen⟩ := @scanFences_opened l (splitLines text) 0 none []
    (newline_notMem text) (Or.inl ⟨rfl, hhead⟩) (by simp) (by simp)
  rw [linesEnd_splitLines, Nat.zero_add] at hclosed hopen
  cases hfence : leftOpen text with
  | none =>
      rw [parse_of_closed hfence] at hs
      exact ⟨(hclosed s hs).1, Or.inl (hclosed s hs).2⟩
  | some o =>
      rw [parse_of_open hfence] at hs
      rcases List.mem_append.mp hs with hs | hs
      · exact ⟨(hclosed s hs).1, Or.inl (hclosed s hs).2⟩
      · rw [List.mem_singleton.mp hs]
        exact ⟨hopen o hfence, Or.inr rfl⟩

/-- The fence that is left open was opened by a line of the text. -/
theorem leftOpen_opens (h : leftOpen text = some o) :
    (∃ len, fenceMarker o.openLine = some (o.marker, len, o.indent)) ∧ '\n' ∉ o.openLine := by
  obtain ⟨l, hl, htext⟩ := firstLine_cases text
  have hs : ⟨o.start, byteLen text, o.openLine, o.marker, o.indent⟩ ∈ parseFenceSpans text := by
    rw [parse_of_open h]
    exact List.mem_append_right _ (List.mem_singleton_self _)
  obtain ⟨-, -, hopens, hsingle⟩ := (parse_opened hl htext hs).1
  exact ⟨hopens, hsingle⟩

/-- A first line that opens a fence starts a span. -/
theorem exists_span_zero (hl : '\n' ∉ l) (hmarker : (fenceMarker l).isSome = true)
    (htext : text = l ∨ ∃ rest, text = l ++ '\n' :: rest) :
    ∃ s ∈ parseFenceSpans text, s.start = 0 := by
  obtain ⟨⟨marker, markerLen, indent⟩, hm⟩ := Option.isSome_iff_exists.mp hmarker
  obtain ⟨lines, hlines⟩ : ∃ lines, splitLines text = l :: lines := by
    rcases htext with rfl | ⟨rest, rfl⟩
    · exact ⟨[], splitLines_last hl⟩
    · exact ⟨splitLines rest, splitLines_more hl rest⟩
  have hscan : scanFences 0 none [] (splitLines text) =
      scanFences (0 + byteLen l + 1) (some ⟨0, marker, markerLen, indent, l⟩) [] lines := by
    rw [hlines, scanFences, hm]
  obtain ⟨-, hkeeps⟩ := scanFences_keeps lines (0 + byteLen l + 1)
    (some ⟨0, marker, markerLen, indent, l⟩) []
  rw [← hscan] at hkeeps
  cases hfence : leftOpen text with
  | none =>
      rw [parse_of_closed hfence]
      rcases hkeeps _ rfl with hopen | hspan
      · unfold leftOpen at hfence
        rw [hfence] at hopen
        cases hopen
      · exact hspan
  | some o =>
      rw [parse_of_open hfence]
      rcases hkeeps _ rfl with hopen | ⟨s, hs, hstart⟩
      · unfold leftOpen at hfence
        rw [hfence] at hopen
        refine ⟨_, List.mem_append_right _ (List.mem_singleton_self _), ?_⟩
        rw [Option.some.inj hopen]
      · exact ⟨s, List.mem_append_left _ hs, hstart⟩

/-- One line that opens a fence, with or without its line feed. -/
theorem parse_openLine (hl : '\n' ∉ l) (hm : fenceMarker l = some (marker, len, indent))
    (htext : text = l ∨ text = l ++ ['\n']) :
    parseFenceSpans text = [⟨0, byteLen text, l, marker, indent⟩] := by
  have hscan : scanFences 0 none [] (splitLines text) = ([], some ⟨0, marker, len, indent, l⟩) := by
    rcases htext with rfl | rfl
    · rw [splitLines_last hl, scanFences, hm]
      rfl
    · rw [splitLines_more hl [], scanFences, hm]
      rfl
  unfold parseFenceSpans
  rw [hscan]
  rfl

end Oclaw.AgentCore.StreamChunker
