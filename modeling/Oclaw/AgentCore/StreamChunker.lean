import Mathlib.Logic.Relation
import Oclaw.Lib.Search

/-!
# The stream chunker

`crates/agent-core/src/stream_chunker.rs`. Texts are lists of characters; positions are byte
positions, and a slice is `none` where the program panics. One round of the loop of `drain`
is a function, and `drain` repeats it; rounds can be endless, so the number of rounds that
are looked at is an argument.
-/

namespace Oclaw.AgentCore

open Oclaw.Lib

/-! ## §1  Configuration and fences -/

inductive BreakPreference : Type where
  | paragraph
  | newline
  | sentence
deriving DecidableEq

structure ChunkingConfig : Type where
  minChars : ℕ
  maxChars : ℕ
  breakPreference : BreakPreference

structure FenceSpan : Type where
  start : ℕ
  stop : ℕ
  openLine : List Char
  marker : Char
  indent : List Char

/-- The fence that is open while the lines are read. -/
structure OpenFence : Type where
  start : ℕ
  marker : Char
  markerLen : ℕ
  indent : List Char
  openLine : List Char
deriving DecidableEq

namespace StreamChunker

def backtick : Char := Char.ofNat 0x60

/-- Marker, number of markers and indentation of a line that opens or closes a fence. -/
def fenceMarker (line : List Char) : Option (Char × ℕ × List Char) :=
  let trimmed := line.dropWhile isWhitespace
  let indentLen := byteLen line - byteLen trimmed
  if indentLen ≤ 3 then
    match trimmed with
    | [] => none
    | marker :: _ =>
        if marker = backtick ∨ marker = '~' then
          let markerLen := (trimmed.takeWhile (· = marker)).length
          if 3 ≤ markerLen then some (marker, markerLen, line.takeWhile isWhitespace) else none
        else none
  else none

/-- The loop of `parse_fence_spans` over the lines, from the byte position of the first. -/
def scanFences : ℕ → Option OpenFence → List FenceSpan → List (List Char) →
    List FenceSpan × Option OpenFence
  | _, fence, spans, [] => (spans, fence)
  | pos, fence, spans, line :: lines =>
      let next := pos + byteLen line + 1
      match fenceMarker line with
      | none => scanFences next fence spans lines
      | some (marker, markerLen, indent) =>
          match fence with
          | some o =>
              if marker = o.marker ∧ o.markerLen ≤ markerLen then
                scanFences next none
                  (spans ++ [⟨o.start, pos + byteLen line, o.openLine, o.marker, o.indent⟩]) lines
              else scanFences next fence spans lines
          | none => scanFences next (some ⟨pos, marker, markerLen, indent, line⟩) spans lines

def splitLines (text : List Char) : List (List Char) := splitAt (· == '\n') text

/-- An unclosed fence extends to the end. -/
def parseFenceSpans (text : List Char) : List FenceSpan :=
  let (spans, fence) := scanFences 0 none [] (splitLines text)
  match fence with
  | some o => spans ++ [⟨o.start, byteLen text, o.openLine, o.marker, o.indent⟩]
  | none => spans

def isSafeFenceBreak (spans : List FenceSpan) (index : ℕ) : Bool :=
  !spans.any (fun s => decide (s.start < index) && decide (index < s.stop))

/-! ## §2  Break points -/

variable (cfg : ChunkingConfig)

/-- The loop of `find_paragraph_break` and `find_newline_break`: search backwards for the
pattern, jumping past unsafe positions. The first argument bounds the number of jumps. -/
def findBreak (pat buf : List Char) (spans : List FenceSpan) : ℕ → ℕ → Option (Option ℕ)
  | 0, _ => some none
  | n + 1, i =>
      if cfg.minChars < i then
        (strTo buf i).bind fun head =>
          match rfind pat head with
          | some pos =>
              if pos < cfg.minChars then some none
              else if isSafeFenceBreak spans pos then some (some pos)
              else findBreak pat buf spans n pos
          | none => some none
      else some none

def findParagraphBreak (buf : List Char) (spans : List FenceSpan) : Option (Option ℕ) :=
  findBreak cfg ['\n', '\n'] buf spans (byteLen buf + 1) (byteLen buf)

def findNewlineBreak (buf : List Char) (spans : List FenceSpan) : Option (Option ℕ) :=
  findBreak cfg ['\n'] buf spans (byteLen buf + 1) (byteLen buf)

def isSentenceMark (c : Char) : Bool := c == '.' || c == '!' || c == '?'

/-- The loop of `find_sentence_break` over `char_indices`. -/
def findSentence (buf : List Char) (spans : List FenceSpan) :
    ℕ → Option ℕ → List Char → Option (Option ℕ)
  | _, last, [] => some last
  | i, last, c :: rest =>
      let next := i + c.utf8Size
      if i < cfg.minChars then findSentence buf spans next last rest
      else if isSentenceMark c then
        (strFrom buf next).bind fun tail =>
          if (byteLen buf ≤ next ∨ tail.head?.any isWhitespace = true) ∧
              isSafeFenceBreak spans next = true then
            findSentence buf spans next (some next) rest
          else findSentence buf spans next last rest
      else findSentence buf spans next last rest

def findSentenceBreak (buf : List Char) (spans : List FenceSpan) : Option (Option ℕ) :=
  findSentence cfg buf spans 0 none buf

/-- `Option::or_else` on searches that may panic. -/
def orElse (found other : Option (Option ℕ)) : Option (Option ℕ) :=
  match found with
  | none => none
  | some (some i) => some (some i)
  | some none => other

/-- Try the preferred break type first, then the fallback chain. -/
def preferredBreak (buf : List Char) (spans : List FenceSpan) : Option (Option ℕ) :=
  match cfg.breakPreference with
  | .paragraph => orElse (findParagraphBreak cfg buf spans)
      (orElse (findNewlineBreak cfg buf spans) (findSentenceBreak cfg buf spans))
  | .newline => orElse (findNewlineBreak cfg buf spans) (findSentenceBreak cfg buf spans)
  | .sentence => findSentenceBreak cfg buf spans

/-- The bytes of the buffer that a cut may use. -/
def window (buffer : List Char) : ℕ := min (byteLen buffer) cfg.maxChars

def pickBreakIndex (buffer : List Char) : Option (Option ℕ) :=
  (strTo buffer (window cfg buffer)).bind fun buf =>
    (preferredBreak cfg buf (parseFenceSpans buf)).map fun found =>
      found.or (some (window cfg buffer))

/-! ## §3  Draining -/

/-- What `split_at` returns, and the buffer it leaves. -/
structure Split : Type where
  chunk : List Char
  fenceClose : Option (List Char)
  fenceReopen : Option (List Char)
  buffer : List Char
deriving DecidableEq

def trimNewlines (text : List Char) : List Char := text.dropWhile (· == '\n')

/-- Handle the fence boundaries of a split into two sides: check if it is inside an unclosed
fence. -/
def splitSides (chunk rest : List Char) : Split :=
  match (parseFenceSpans chunk).getLast? with
  | some span =>
      if byteLen chunk ≤ span.stop then
        ⟨chunk, some ('\n' :: span.indent ++ List.replicate 3 span.marker),
          some (span.openLine ++ ['\n']), trimNewlines rest⟩
      else ⟨chunk, none, none, trimNewlines rest⟩
  | none => ⟨chunk, none, none, trimNewlines rest⟩

/-- Split buffer at index. -/
def splitAtIdx (buffer : List Char) (idx : ℕ) : Option Split :=
  (strTo buffer idx).bind fun chunk => (strFrom buffer idx).map (splitSides chunk)

/-- A chunk is trimmed, and an empty one is dropped. -/
def emitted (text : List Char) : List (List Char) :=
  if trimChars text = [] then [] else [trimChars text]

/-- What one round of the loop does: it ends the loop, it goes on, or it panics. -/
inductive Round : Type where
  | finished (chunks : List (List Char)) (buffer : List Char)
  | again (chunks : List (List Char)) (buffer : List Char)
  | panicked
deriving DecidableEq

/-- The buffer after a split, with the fence opened again. -/
def Split.rest (s : Split) : List Char :=
  match s.fenceReopen with
  | some reopen => reopen ++ trimNewlines s.buffer
  | none => s.buffer

def round (force : Bool) (buffer : List Char) : Round :=
  if trimChars buffer = [] then .finished [] (if force then [] else buffer)
  else if force = false ∧ byteLen buffer < cfg.minChars then .finished [] buffer
  else if force = true ∧ byteLen buffer ≤ cfg.maxChars then .finished (emitted buffer) []
  else
    match pickBreakIndex cfg buffer with
    | none => .panicked
    | some none => .finished [] buffer
    | some (some idx) =>
        match splitAtIdx buffer idx with
        | none => .panicked
        | some s => .again (emitted (s.chunk ++ s.fenceClose.getD [])) s.rest

inductive Drain : Type where
  | returned (chunks : List (List Char)) (buffer : List Char)
  | panicked
  | running
deriving DecidableEq

/-- Drain available chunks, in at most so many rounds. -/
def drain (force : Bool) : ℕ → List Char → Drain
  | 0, _ => .running
  | n + 1, buffer =>
      match round cfg force buffer with
      | .finished chunks buffer => .returned chunks buffer
      | .panicked => .panicked
      | .again chunks buffer =>
          match drain force n buffer with
          | .returned chunks' buffer => .returned (chunks ++ chunks') buffer
          | other => other

/-- The rounds of a drain that go on. -/
def Again (force : Bool) (b b' : List Char) : Prop := ∃ chunks, round cfg force b = .again chunks b'

/-- The buffers that the loop of a drain comes to. -/
abbrev Reaches (force : Bool) : List Char → List Char → Prop :=
  Relation.ReflTransGen (Again cfg force)

/-- The buffer is neither kept for later nor flushed as a whole, but cut. -/
def Cuts (force : Bool) (buffer : List Char) : Prop :=
  trimChars buffer ≠ [] ∧ (force = false → cfg.minChars ≤ byteLen buffer) ∧
    (force = true → cfg.maxChars < byteLen buffer)

/-! ## §4  Runs of a chunker -/

inductive Call : Type where
  | push (text : List Char)
  | drain (force : Bool)

/-- Calls from a buffer on: the chunks that the drains return, and the buffer at the end. -/
inductive Ran : List Char → List Call → List (List Char) → List Char → Prop where
  | done {b : List Char} : Ran b [] [] b
  | push {b b' text : List Char} {calls : List Call} {chunks : List (List Char)}
      (h : Ran (b ++ text) calls chunks b') : Ran b (.push text :: calls) chunks b'
  | drain {b b' rest : List Char} {calls : List Call} {chunks chunks' : List (List Char)}
      {force : Bool} {n : ℕ} (hdrain : drain cfg force n b = .returned chunks rest)
      (h : Ran rest calls chunks' b') : Ran b (.drain force :: calls) (chunks ++ chunks') b'

/-- A cut in the course of the calls: a drain comes to a buffer and splits it there. -/
inductive CutOf : List Char → List Call → Bool → List Char → List Char → Prop where
  | here {b chunk rest : List Char} {calls : List Call} {force : Bool}
      (hreach : Reaches cfg force b (chunk ++ rest)) (hcuts : Cuts cfg force (chunk ++ rest))
      (hpick : pickBreakIndex cfg (chunk ++ rest) = some (some (byteLen chunk))) :
      CutOf b (.drain force :: calls) force chunk rest
  | push {b text chunk rest : List Char} {calls : List Call} {force : Bool}
      (h : CutOf (b ++ text) calls force chunk rest) :
      CutOf b (.push text :: calls) force chunk rest
  | drain {b b' chunk rest : List Char} {calls : List Call} {chunks : List (List Char)}
      {force force' : Bool} {n : ℕ} (hdrain : drain cfg force' n b = .returned chunks b')
      (h : CutOf b' calls force chunk rest) : CutOf b (.drain force' :: calls) force chunk rest

/-! ## §5  The searches stay on boundaries -/

variable {cfg} {pat buf s buffer : List Char} {spans : List FenceSpan} {i n : ℕ} {force : Bool}

/-- **Spec of the backward searches.** They do not panic, and what they find is a safe
occurrence of the pattern at or after `min_chars`. -/
theorem findBreak_spec : ∀ (n i : ℕ) (head tail : List Char),
    buf = head ++ tail → byteLen head = i →
    ∃ found, findBreak cfg pat buf spans n i = some found ∧
      ∀ pos, found = some pos → cfg.minChars ≤ pos ∧ isSafeFenceBreak spans pos = true ∧
        ∃ p q, buf = p ++ pat ++ q ∧ byteLen p = pos
  | 0, i, head, tail, _, _ => ⟨none, rfl, by simp⟩
  | n + 1, i, head, tail, hbuf, hi => by
      rw [findBreak]
      split
      · have hslice : strTo buf i = some head := by
          rw [hbuf, ← hi]
          exact strTo_append head tail
        rw [hslice, Option.bind_some]
        cases hfind : rfind pat head with
        | none => exact ⟨none, rfl, by simp⟩
        | some pos =>
            obtain ⟨p, q, hhead, hp⟩ := rfind_eq_some hfind
            have hocc : buf = p ++ pat ++ (q ++ tail) := by
              rw [hbuf, hhead]
              simp only [List.append_assoc]
            simp only
            split
            · exact ⟨none, rfl, by simp⟩
            · rename_i hmin
              split
              · rename_i hsafe
                refine ⟨some pos, rfl, ?_⟩
                rintro _ ⟨⟩
                exact ⟨Nat.not_lt.mp hmin, hsafe, p, q ++ tail, hocc, hp⟩
              · refine findBreak_spec n pos p (pat ++ (q ++ tail)) ?_ hp
                rw [hocc, List.append_assoc]
      · exact ⟨none, rfl, by simp⟩

theorem findSentence_spec : ∀ (rest done : List Char) (last : Option ℕ),
    buf = done ++ rest →
    ∃ found, findSentence cfg buf spans (byteLen done) last rest = some found ∧
      (found = last ∨ ∃ p c q, rest = p ++ c :: q ∧ isSentenceMark c = true ∧
        found = some (byteLen (done ++ p ++ [c])) ∧ cfg.minChars ≤ byteLen (done ++ p) ∧
        isSafeFenceBreak spans (byteLen (done ++ p ++ [c])) = true ∧
        (q = [] ∨ q.head?.any isWhitespace = true))
  | [], done, last, _ => ⟨last, rfl, Or.inl rfl⟩
  | c :: rest, done, last, hbuf => by
      have hnext : byteLen done + c.utf8Size = byteLen (done ++ [c]) := by
        rw [byteLen_append, byteLen_cons, byteLen_nil, Nat.add_zero]
      have hbuf' : buf = (done ++ [c]) ++ rest := by
        rw [hbuf, List.append_assoc]
        rfl
      -- the rest of the text, whatever is known so far
      have hrest : ∀ last', ∃ found,
          findSentence cfg buf spans (byteLen (done ++ [c])) last' rest = some found ∧
          (found = last' ∨ ∃ p c' q, c :: rest = p ++ c' :: q ∧ isSentenceMark c' = true ∧
            found = some (byteLen (done ++ p ++ [c'])) ∧ cfg.minChars ≤ byteLen (done ++ p) ∧
            isSafeFenceBreak spans (byteLen (done ++ p ++ [c'])) = true ∧
            (q = [] ∨ q.head?.any isWhitespace = true)) := by
        intro last'
        obtain ⟨found, hfound, hspec⟩ := findSentence_spec rest (done ++ [c]) last' hbuf'
        refine ⟨found, hfound, hspec.imp_right ?_⟩
        rintro ⟨p, c', q, hsplit, hmark, heq, hmin, hsafe, hq⟩
        have hassoc : done ++ [c] ++ p = done ++ (c :: p) := by simp
        rw [hassoc] at heq hmin hsafe
        exact ⟨c :: p, c', q, by rw [hsplit]; rfl, hmark, heq, hmin, hsafe, hq⟩
      rw [findSentence]
      simp only [hnext]
      split
      · exact hrest last
      · rename_i hmin
        split
        · rename_i hmark
          rw [hbuf', strFrom_append, Option.bind_some, ← hbuf']
          split
          · rename_i hbreak
            obtain ⟨hend, hsafe⟩ := hbreak
            obtain ⟨found, hfound, hspec⟩ := hrest (some (byteLen (done ++ [c])))
            refine ⟨found, hfound, Or.inr ?_⟩
            rcases hspec with heq | hspec
            · refine ⟨[], c, rest, rfl, hmark, ?_, ?_, ?_, ?_⟩
              · rw [heq, List.append_nil]
              · rw [List.append_nil]
                exact Nat.not_lt.mp hmin
              · rw [List.append_nil]
                exact hsafe
              · rcases hend with hle | hspace
                · left
                  rw [hbuf', byteLen_append] at hle
                  cases rest with
                  | nil => rfl
                  | cons c' rest =>
                      have hpos := c'.utf8Size_pos
                      rw [byteLen_cons] at hle
                      omega
                · exact Or.inr hspace
            · exact hspec
          · exact hrest last
        · exact hrest last

/-- A break position of the buffer of a search: safe, at or after `min_chars`, and one at
which the buffer can be cut. -/
def BreakOf (cfg : ChunkingConfig) (buf : List Char) (spans : List FenceSpan) (pos : ℕ) : Prop :=
  cfg.minChars ≤ pos ∧ isSafeFenceBreak spans pos = true ∧ ∃ p q, buf = p ++ q ∧ byteLen p = pos

theorem findBreak_breakOf :
    ∃ found, findBreak cfg pat buf spans (byteLen buf + 1) (byteLen buf) = some found ∧
      ∀ pos, found = some pos → BreakOf cfg buf spans pos := by
  obtain ⟨found, hfound, hspec⟩ := @findBreak_spec cfg pat buf spans
    (byteLen buf + 1) (byteLen buf) buf [] (List.append_nil buf).symm rfl
  refine ⟨found, hfound, fun pos hpos => ?_⟩
  obtain ⟨hmin, hsafe, p, q, hocc, hp⟩ := hspec pos hpos
  exact ⟨hmin, hsafe, p, pat ++ q, by rw [hocc, List.append_assoc], hp⟩

theorem findSentenceBreak_breakOf :
    ∃ found, findSentenceBreak cfg buf spans = some found ∧
      ∀ pos, found = some pos → BreakOf cfg buf spans pos := by
  obtain ⟨found, hfound, hspec⟩ := @findSentence_spec cfg buf spans buf [] none rfl
  refine ⟨found, hfound, fun pos hpos => ?_⟩
  rcases hspec with hnone | ⟨p, c, q, hbuf, -, heq, hmin, hsafe, -⟩
  · rw [hnone] at hpos
    cases hpos
  · rw [heq] at hpos
    cases hpos
    refine ⟨?_, hsafe, p ++ [c], q, by simp [hbuf], by simp⟩
    rw [List.nil_append, byteLen_append]
    rw [List.nil_append] at hmin
    omega

theorem orElse_breakOf {found other : Option (Option ℕ)}
    (h : ∃ r, found = some r ∧ ∀ pos, r = some pos → BreakOf cfg buf spans pos)
    (h' : ∃ r, other = some r ∧ ∀ pos, r = some pos → BreakOf cfg buf spans pos) :
    ∃ r, orElse found other = some r ∧ ∀ pos, r = some pos → BreakOf cfg buf spans pos := by
  obtain ⟨r, rfl, hr⟩ := h
  cases r with
  | none => exact h'
  | some pos => exact ⟨some pos, rfl, hr⟩

theorem preferredBreak_breakOf (cfg : ChunkingConfig) (buf : List Char) (spans : List FenceSpan) :
    ∃ found, preferredBreak cfg buf spans = some found ∧
      ∀ pos, found = some pos → BreakOf cfg buf spans pos := by
  unfold preferredBreak
  cases cfg.breakPreference with
  | paragraph =>
      exact orElse_breakOf findBreak_breakOf
        (orElse_breakOf findBreak_breakOf findSentenceBreak_breakOf)
  | newline => exact orElse_breakOf findBreak_breakOf findSentenceBreak_breakOf
  | sentence => exact findSentenceBreak_breakOf

/-! ## §6  Rounds -/

/-- **Spec of `pick_break_index`** where the window can be cut off: the window as a whole, or
a break of it. -/
theorem pick_spec {tail : List Char} (hbuffer : buffer = buf ++ tail)
    (hwindow : byteLen buf = window cfg buffer) :
    ∃ p q, buf = p ++ q ∧ pickBreakIndex cfg buffer = some (some (byteLen p)) ∧
      (q = [] ∨ BreakOf cfg buf (parseFenceSpans buf) (byteLen p)) := by
  have hslice : strTo buffer (window cfg buffer) = some buf := by
    rw [hbuffer] at hwindow ⊢
    rw [← hwindow]
    exact strTo_append buf tail
  obtain ⟨found, hfound, hbreak⟩ := preferredBreak_breakOf cfg buf (parseFenceSpans buf)
  unfold pickBreakIndex
  rw [hslice, Option.bind_some, hfound]
  cases found with
  | none =>
      refine ⟨buf, [], (List.append_nil buf).symm, ?_, Or.inl rfl⟩
      rw [hwindow]
      rfl
  | some pos =>
      obtain ⟨hmin, hsafe, p, q, hcut, hp⟩ := hbreak pos rfl
      refine ⟨p, q, hcut, ?_, Or.inr ?_⟩
      · rw [hp]
        rfl
      · rw [hp]
        exact ⟨hmin, hsafe, p, q, hcut, hp⟩

theorem splitAtIdx_append (chunk rest : List Char) :
    splitAtIdx (chunk ++ rest) (byteLen chunk) = some (splitSides chunk rest) := by
  rw [splitAtIdx, strTo_append, strFrom_append]
  rfl

theorem splitSides_chunk (chunk rest : List Char) : (splitSides chunk rest).chunk = chunk := by
  unfold splitSides
  split
  · split <;> rfl
  · rfl

/-- The window can be cut off where it ends on a boundary. -/
theorem exists_window_iff :
    isCharBoundary buffer (window cfg buffer) = true ↔
      ∃ buf tail, buffer = buf ++ tail ∧ byteLen buf = window cfg buffer := by
  rw [isCharBoundary_iff]
  simp only [cutAt_eq_some_iff]

/-- A round that does not cut ends the loop: it keeps the buffer, or it flushes it. -/
theorem finishes_of_not_cuts (h : ¬ Cuts cfg force buffer) :
    (round cfg force buffer = .finished [] buffer ∧
      (trimChars buffer = [] ∨ byteLen buffer < cfg.minChars)) ∨
    (round cfg force buffer = .finished (emitted buffer) [] ∧
      (trimChars buffer = [] ∨ byteLen buffer ≤ cfg.maxChars)) := by
  unfold round
  by_cases hblank : trimChars buffer = []
  · rw [if_pos hblank]
    cases force with
    | true => exact Or.inr ⟨by rw [emitted, if_pos hblank]; rfl, Or.inl hblank⟩
    | false => exact Or.inl ⟨rfl, Or.inl hblank⟩
  · rw [if_neg hblank]
    by_cases hshort : force = false ∧ byteLen buffer < cfg.minChars
    · rw [if_pos hshort]
      exact Or.inl ⟨rfl, Or.inr hshort.2⟩
    · rw [if_neg hshort]
      by_cases hfits : force = true ∧ byteLen buffer ≤ cfg.maxChars
      · rw [if_pos hfits]
        exact Or.inr ⟨rfl, Or.inr hfits.2⟩
      · refine absurd ⟨hblank, ?_, ?_⟩ h
        · intro hforce
          exact Nat.not_lt.mp fun hlt => hshort ⟨hforce, hlt⟩
        · intro hforce
          exact Nat.not_le.mp fun hle => hfits ⟨hforce, hle⟩

theorem round_of_not_cuts (h : ¬ Cuts cfg force buffer) :
    ∃ chunks rest, round cfg force buffer = .finished chunks rest ∧
      (trimChars rest = [] ∨ byteLen rest < cfg.minChars) := by
  rcases finishes_of_not_cuts h with ⟨hround, hrest⟩ | ⟨hround, -⟩
  · exact ⟨_, _, hround, hrest⟩
  · exact ⟨_, _, hround, Or.inl rfl⟩

/-- A round that cuts is the rest of the loop body. -/
theorem round_of_cuts (h : Cuts cfg force buffer) :
    round cfg force buffer =
      match pickBreakIndex cfg buffer with
      | none => .panicked
      | some none => .finished [] buffer
      | some (some idx) =>
          match splitAtIdx buffer idx with
          | none => .panicked
          | some s => .again (emitted (s.chunk ++ s.fenceClose.getD [])) s.rest := by
  obtain ⟨hblank, hmin, hmax⟩ := h
  unfold round
  rw [if_neg hblank, if_neg, if_neg]
  · rintro ⟨hforce, hle⟩
    exact absurd (hmax hforce) (Nat.not_lt.mpr hle)
  · rintro ⟨hforce, hlt⟩
    exact absurd (hmin hforce) (Nat.not_le.mpr hlt)

/-- What a cut is, wherever it is made. -/
theorem CutOf.cuts {b chunk rest : List Char} {calls : List Call}
    (h : CutOf cfg b calls force chunk rest) :
    Cuts cfg force (chunk ++ rest) ∧
      pickBreakIndex cfg (chunk ++ rest) = some (some (byteLen chunk)) := by
  induction h with
  | here _ hcuts hpick => exact ⟨hcuts, hpick⟩
  | push _ ih => exact ih
  | drain _ _ ih => exact ih

/-- The cuts of one push and one drain. -/
theorem CutOf.of_push_drain {text chunk rest : List Char} {force' : Bool}
    (h : CutOf cfg [] [.push text, .drain force'] force chunk rest) :
    force = force' ∧ Reaches cfg force text (chunk ++ rest) := by
  cases h with
  | push h =>
      cases h with
      | here hreach _ _ => exact ⟨rfl, hreach⟩
      | drain _ h => cases h

theorem Reaches.head_cases {b b' x : List Char} {chunks : List (List Char)}
    (hround : round cfg force b = .again chunks b') (h : Reaches cfg force b x) :
    x = b ∨ Reaches cfg force b' x := by
  rcases Relation.ReflTransGen.cases_head h with rfl | ⟨next, ⟨chunks', hround'⟩, h⟩
  · exact Or.inl rfl
  · rw [hround] at hround'
    cases hround'
    exact Or.inr h

theorem Reaches.eq_of_not_cuts {b x : List Char} (hcuts : ¬ Cuts cfg force b)
    (h : Reaches cfg force b x) : x = b := by
  obtain ⟨chunks, rest, hround, -⟩ := round_of_not_cuts hcuts
  rcases Relation.ReflTransGen.cases_head h with rfl | ⟨next, ⟨chunks', hround'⟩, -⟩
  · rfl
  · rw [hround] at hround'
    cases hround'

/-- The round of a cut. -/
theorem round_of_cut {chunk rest : List Char} (h : Cuts cfg force (chunk ++ rest))
    (hpick : pickBreakIndex cfg (chunk ++ rest) = some (some (byteLen chunk))) :
    round cfg force (chunk ++ rest) =
      .again (emitted (chunk ++ (splitSides chunk rest).fenceClose.getD []))
        (splitSides chunk rest).rest := by
  rw [round_of_cuts h, hpick]
  simp only
  rw [splitAtIdx_append]
  simp only [splitSides_chunk]

/-- **Spec of a cut.** The chunk is the window or ends at a break of it. -/
theorem round_cut (h : Cuts cfg force buffer) {tail : List Char} (hbuffer : buffer = buf ++ tail)
    (hwindow : byteLen buf = window cfg buffer) :
    ∃ p q, buf = p ++ q ∧ (q = [] ∨ BreakOf cfg buf (parseFenceSpans buf) (byteLen p)) ∧
      pickBreakIndex cfg buffer = some (some (byteLen p)) ∧
      round cfg force buffer =
        .again (emitted (p ++ (splitSides p (q ++ tail)).fenceClose.getD []))
          (splitSides p (q ++ tail)).rest := by
  obtain ⟨p, q, hcut, hpick, hbreak⟩ := pick_spec hbuffer hwindow
  have hsides : buffer = p ++ (q ++ tail) := by rw [hbuffer, hcut, List.append_assoc]
  refine ⟨p, q, hcut, hbreak, hpick, ?_⟩
  rw [hsides] at h hpick ⊢
  exact round_of_cut h hpick

/-- **What a round panics for.** The window ends inside a character. -/
theorem round_panicked_iff :
    round cfg force buffer = .panicked ↔
      Cuts cfg force buffer ∧ ¬ isCharBoundary buffer (window cfg buffer) = true := by
  constructor
  · intro hpanic
    by_cases h : Cuts cfg force buffer
    · refine ⟨h, fun hboundary => ?_⟩
      obtain ⟨buf, tail, hbuffer, hwindow⟩ := exists_window_iff.mp hboundary
      obtain ⟨p, q, -, -, -, hround⟩ := round_cut h hbuffer hwindow
      rw [hround] at hpanic
      cases hpanic
    · obtain ⟨chunks, rest, hround, -⟩ := round_of_not_cuts h
      rw [hround] at hpanic
      cases hpanic
  · rintro ⟨h, hinside⟩
    have hslice : strTo buffer (window cfg buffer) = none := by
      cases hcut : cutAt buffer (window cfg buffer) with
      | none => rw [strTo, hcut]; rfl
      | some sides => exact absurd (isCharBoundary_iff.mpr ⟨sides.1, sides.2, hcut⟩) hinside
    rw [round_of_cuts h, pickBreakIndex, hslice]
    rfl

/-- **Spec of `drain`.** Its first round ends it, or goes on to the drain of the rest. -/
theorem drain_returned_cases {chunks : List (List Char)} {rest : List Char}
    (h : drain cfg force n buffer = .returned chunks rest) :
    ∃ m, n = m + 1 ∧ (round cfg force buffer = .finished chunks rest ∨
      ∃ first later b, chunks = first ++ later ∧ round cfg force buffer = .again first b ∧
        drain cfg force m b = .returned later rest) := by
  cases n with
  | zero => cases h
  | succ m =>
      refine ⟨m, rfl, ?_⟩
      rw [drain] at h
      cases hround : round cfg force buffer with
      | panicked => rw [hround] at h; cases h
      | finished chunks' rest' =>
          rw [hround] at h
          cases h
          exact Or.inl rfl
      | again first b =>
          simp only [hround] at h
          cases hdrain : drain cfg force m b with
          | panicked => rw [hdrain] at h; cases h
          | running => rw [hdrain] at h; cases h
          | returned later rest' =>
              rw [hdrain] at h
              cases h
              exact Or.inr ⟨first, later, b, rfl, rfl, hdrain⟩

/-- A panic of a drain is the panic of one of its rounds. -/
theorem drain_panicked_iff :
    (∃ n, drain cfg force n buffer = .panicked) ↔
      ∃ b, Reaches cfg force buffer b ∧ round cfg force b = .panicked := by
  constructor
  · rintro ⟨n, hn⟩
    induction n generalizing buffer with
    | zero => cases hn
    | succ n ih =>
        rw [drain] at hn
        cases hround : round cfg force buffer with
        | finished chunks rest => rw [hround] at hn; cases hn
        | panicked => exact ⟨buffer, .refl, hround⟩
        | again chunks b =>
            simp only [hround] at hn
            have hrest : drain cfg force n b = .panicked := by
              cases hdrain : drain cfg force n b with
              | returned chunks' rest => rw [hdrain] at hn; cases hn
              | panicked => rfl
              | running => rw [hdrain] at hn; cases hn
            obtain ⟨b', hreach, hpanic⟩ := ih hrest
            exact ⟨b', hreach.head ⟨chunks, hround⟩, hpanic⟩
  · rintro ⟨b, hreach, hpanic⟩
    induction hreach using Relation.ReflTransGen.head_induction_on with
    | refl => exact ⟨1, by rw [drain, hpanic]⟩
    | head hstep _ ih =>
        obtain ⟨chunks, hround⟩ := hstep
        obtain ⟨n, hn⟩ := ih
        exact ⟨n + 1, by simp only [drain, hround, hn]⟩

theorem window_boundary_iff (cfg : ChunkingConfig) (b : List Char) :
    isCharBoundary b (window cfg b) = true ↔
      byteLen b ≤ cfg.maxChars ∨ isCharBoundary b cfg.maxChars = true := by
  have hend : isCharBoundary b (byteLen b) = true :=
    isCharBoundary_iff.mpr ⟨b, [], cutAt_eq_some_iff.mpr ⟨(List.append_nil b).symm, rfl⟩⟩
  unfold window
  rcases Nat.le_total (byteLen b) cfg.maxChars with hle | hle
  · rw [Nat.min_eq_left hle]
    exact iff_of_true hend (Or.inl hle)
  · rw [Nat.min_eq_right hle]
    constructor
    · exact Or.inr
    · rintro (hle' | hboundary)
      · rw [Nat.le_antisymm hle hle']
        exact hend
      · exact hboundary

/-- **Slices.** Whatever the pushes and drains before have left in the buffer, a drain never
panics exactly when each buffer that its loop comes to cut is within `max_chars` bytes or has
a character boundary there. -/
theorem drain_panics_never_iff (cfg : ChunkingConfig) (force : Bool) (buffer : List Char) :
    (∀ n, drain cfg force n buffer ≠ .panicked) ↔
      ∀ b, Reaches cfg force buffer b → Cuts cfg force b →
        byteLen b ≤ cfg.maxChars ∨ isCharBoundary b cfg.maxChars = true := by
  constructor
  · intro hnever b hreach hcuts
    rw [← window_boundary_iff]
    by_contra hinside
    obtain ⟨n, hn⟩ := drain_panicked_iff.mpr
      ⟨b, hreach, round_panicked_iff.mpr ⟨hcuts, hinside⟩⟩
    exact hnever n hn
  · intro hall n hn
    obtain ⟨b, hreach, hpanic⟩ := drain_panicked_iff.mp ⟨n, hn⟩
    obtain ⟨hcuts, hinside⟩ := round_panicked_iff.mp hpanic
    exact hinside ((window_boundary_iff cfg b).mpr (hall b hreach hcuts))

/-- One byte is half of the first character. -/
theorem drain_cuts_character :
    drain ⟨1, 1, .paragraph⟩ false 1 ['é', 'a'] = .panicked := by
  decide

end StreamChunker

end Oclaw.AgentCore
