import Mathlib.Algebra.Group.Nat.Defs
import Oclaw.Lib.Delimited

/-!
# Chunks of a text

`chunk_by_chars` of `crates/memory-core/src/manager.rs`: a text is cut into overlapping
chunks, at the end of a paragraph when one ends in the last fifth of a chunk. Positions
are byte positions. The id of a chunk has its number and the position of its end.
-/

namespace Oclaw.MemoryCore

open Oclaw.Lib

/-! ## §1  Text -/

/-- A `str`: the bytes of its UTF-8 form. -/
abbrev Text : Type := List UInt8

/-- Arithmetic on `usize` panics when it overflows. -/
def usize (n : ℕ) : Option ℕ := if n < 2 ^ 64 then some n else none

def isCharBoundary (text : Text) (i : ℕ) : Bool :=
  i = 0 ||
    match text[i]? with
    | some b => b < 0x80 || 0xC0 ≤ b
    | none => i = text.length

def ceilCharBoundarySafe (text : Text) (idx : ℕ) : ℕ :=
  if text.length ≤ idx then text.length
  else idx + ((List.range' idx (text.length - idx)).takeWhile
    (fun i => !isCharBoundary text i)).length

/-- `&text[a..b]`, which panics inside a character. -/
def slice (text : Text) (a b : ℕ) : Option Text :=
  if a ≤ b ∧ isCharBoundary text a = true ∧ isCharBoundary text b = true then
    some ((text.take b).drop a)
  else none

/-- `text.find("\n\n")` -/
def findParagraph : Text → Option ℕ
  | [] => none
  | b :: rest =>
      if b = 10 ∧ rest.head? = some 10 then some 0 else (findParagraph rest).map (· + 1)

/-- `text.lines().count()` -/
def lineCount (text : Text) : ℕ :=
  text.count 10 + if text.getLast?.all (· = 10) then 0 else 1

/-! ## §2  Chunks -/

/-- The sizes of the manager. -/
structure Chunking : Type where
  chunkChars : ℕ
  overlapChars : ℕ

def Chunking.default : Chunking := ⟨1600, 320⟩

structure MemoryChunk (E : Type) : Type where
  id : String
  path : String
  startLine : ℕ
  endLine : ℕ
  content : Text
  source : String
  embedding : Option E
  updatedAtMs : ℕ
deriving DecidableEq

def chunkId (path : String) (chunkIdx actualEnd : ℕ) : String :=
  s!"{path}:{chunkIdx}:{actualEnd}"

/-- Where the chunk that starts here ends. -/
def chunkEnd (cfg : Chunking) (text : Text) (start : ℕ) : Option ℕ := do
  let far ← usize (start + cfg.chunkChars)
  let stop := ceilCharBoundarySafe text (min far text.length)
  let fourFold ← usize (cfg.chunkChars * 4)
  let snapZoneStart ← usize (start + fourFold / 5)
  if stop < text.length ∧ snapZoneStart < stop then
    let zone ← slice text snapZoneStart stop
    match findParagraph zone with
    | some rel => return min (snapZoneStart + rel + 2) text.length
    | none => return min stop text.length
  else return min stop text.length

/-- Where the next chunk starts. -/
def nextStart (cfg : Chunking) (start actualEnd : ℕ) : ℕ :=
  let next := actualEnd - min cfg.overlapChars (cfg.chunkChars - 1)
  if next ≤ start then actualEnd else next

section Chunking

variable {E : Type} {cfg : Chunking} {text body : Text} {path path' source : String}
variable {now fuel k k' a a' e e' : ℕ} {chunk : MemoryChunk E} {chunks : List (MemoryChunk E)}

def mkChunk (E : Type) (text : Text) (path source : String) (now chunkIdx start actualEnd : ℕ)
    (chunkText : Text) : MemoryChunk E :=
  let startLine := lineCount (text.take start) + 1
  { id := chunkId path chunkIdx actualEnd
    path := path
    startLine := startLine
    endLine := startLine + (lineCount chunkText - 1)
    content := chunkText
    source := source
    embedding := none
    updatedAtMs := now }

/-- The loop. Nothing comes out when a slice panics; with chunks of no characters the
loop never ends. -/
def chunkLoop (E : Type) (cfg : Chunking) (text : Text) (path source : String) (now : ℕ) :
    ℕ → ℕ → ℕ → Option (List (MemoryChunk E))
  | 0, _, _ => none
  | fuel + 1, chunkIdx, start =>
      if start < text.length then do
        let actualEnd ← chunkEnd cfg text start
        let chunkText ← slice text start actualEnd
        let chunk := mkChunk E text path source now chunkIdx start actualEnd chunkText
        if text.length ≤ actualEnd then return [chunk]
        else
          let rest ← chunkLoop E cfg text path source now fuel (chunkIdx + 1)
            (nextStart cfg start actualEnd)
          return chunk :: rest
      else some []

def chunkByChars (E : Type) (cfg : Chunking) (text : Text) (path source : String) (now : ℕ) :
    Option (List (MemoryChunk E)) :=
  if text = [] then some [] else chunkLoop E cfg text path source now (text.length + 1) 0 0

/-! ## §3  The loop ends -/

theorem le_ceilCharBoundarySafe {idx : ℕ} (h : idx ≤ text.length) :
    idx ≤ ceilCharBoundarySafe text idx := by
  rw [ceilCharBoundarySafe]
  split
  · exact h
  · exact Nat.le_add_right ..

/-- A chunk is not empty. -/
theorem lt_chunkEnd (hpos : 0 < cfg.chunkChars) (hstart : a < text.length)
    (h : chunkEnd cfg text a = some e) : a < e := by
  simp only [chunkEnd, usize, Option.bind_eq_bind, Option.bind_eq_some_iff] at h
  obtain ⟨far, hfar, fourFold, -, snap, hsnap, h⟩ := h
  obtain ⟨-, hfar⟩ := Option.ite_none_right_eq_some.mp hfar
  obtain ⟨-, hsnap⟩ := Option.ite_none_right_eq_some.mp hsnap
  cases hfar
  cases hsnap
  have hstop : min (a + cfg.chunkChars) text.length ≤
      ceilCharBoundarySafe text (min (a + cfg.chunkChars) text.length) :=
    le_ceilCharBoundarySafe (Nat.min_le_right ..)
  split at h
  · obtain ⟨zone, -, h⟩ := Option.bind_eq_some_iff.mp h
    split at h
    · cases h
      omega
    · cases h
      omega
  · cases h
    omega

theorem lt_nextStart (h : a < e) : a < nextStart cfg a e := by
  simp only [nextStart]
  split
  · exact h
  · omega

/-- As many rounds as there are bytes, and one, are enough. -/
theorem chunkLoop_fuel (hpos : 0 < cfg.chunkChars) (h : text.length ≤ fuel + a) :
    chunkLoop E cfg text path source now (fuel + 2) k a =
      chunkLoop E cfg text path source now (fuel + 1) k a := by
  induction fuel generalizing k a with
  | zero =>
      have hdone : ¬ a < text.length := by omega
      simp [chunkLoop, hdone]
  | succ fuel ih =>
      rw [chunkLoop, chunkLoop]
      split
      · rename_i hstart
        simp only [Option.bind_eq_bind]
        cases hend : chunkEnd cfg text a with
        | none => rfl
        | some e =>
            have hlt : a < nextStart cfg a e := lt_nextStart (lt_chunkEnd hpos hstart hend)
            have hnext := ih (k := k + 1) (a := nextStart cfg a e) (by omega)
            simp only [Option.bind_some, hnext]
      · rfl

/-! ## §4  Cuts -/

/-- Chunk `k` starts here. -/
inductive Starts (cfg : Chunking) (text : Text) : ℕ → ℕ → Prop where
  | first : 0 < text.length → Starts cfg text 0 0
  | next {k a e : ℕ} : Starts cfg text k a → chunkEnd cfg text a = some e → e < text.length →
      Starts cfg text (k + 1) (nextStart cfg a e)

/-- Chunk `k` is the text between these two positions. -/
def Cut (cfg : Chunking) (text : Text) (k a e : ℕ) : Prop :=
  Starts cfg text k a ∧ chunkEnd cfg text a = some e

theorem Starts.unique (h : Starts cfg text k a) (h' : Starts cfg text k a') : a' = a := by
  induction h generalizing a' with
  | first _ =>
      cases h'
      rfl
  | next _ hend _ ih =>
      cases h' with
      | next h' hend' _ =>
          obtain rfl := ih h'
          rw [hend] at hend'
          cases hend'
          rfl

/-- A later chunk follows on the end of an earlier one inside the text. -/
theorem Starts.of_later (h : Starts cfg text k a) (hstart : Starts cfg text k' a')
    (hlt : k' < k) : ∃ e, chunkEnd cfg text a' = some e ∧ e < text.length := by
  induction h with
  | first _ => exact absurd hlt (Nat.not_lt_zero _)
  | @next k a e h hend hinside ih =>
      rcases Nat.lt_succ_iff_lt_or_eq.mp hlt with hlt | rfl
      · exact ih hlt
      · obtain rfl := hstart.unique h
        exact ⟨e, hend, hinside⟩

theorem nextStart_le : nextStart cfg a e ≤ e := by
  simp only [nextStart]
  split
  · exact Nat.le_refl _
  · exact Nat.sub_le ..

theorem Starts.lt (h : Starts cfg text k a) : a < text.length := by
  cases h with
  | first hpos => exact hpos
  | next _ _ hinside => exact Nat.lt_of_le_of_lt nextStart_le hinside

/-- What one round of the loop does. -/
theorem chunkLoop_succ (hstart : a < text.length)
    (hloop : chunkLoop E cfg text path source now (fuel + 1) k a = some chunks) :
    ∃ e body, chunkEnd cfg text a = some e ∧ slice text a e = some body ∧
      ((text.length ≤ e ∧ chunks = [mkChunk E text path source now k a e body]) ∨
        (e < text.length ∧ ∃ rest,
          chunkLoop E cfg text path source now fuel (k + 1) (nextStart cfg a e) = some rest ∧
          chunks = mkChunk E text path source now k a e body :: rest)) := by
  rw [chunkLoop, if_pos hstart] at hloop
  obtain ⟨e, hend, hloop⟩ := Option.bind_eq_some_iff.mp hloop
  obtain ⟨body, hslice, hloop⟩ := Option.bind_eq_some_iff.mp hloop
  refine ⟨e, body, hend, hslice, ?_⟩
  split at hloop
  · rename_i hlast
    exact Or.inl ⟨hlast, (Option.some.inj hloop).symm⟩
  · rename_i hmore
    obtain ⟨rest, hrest, hchunks⟩ := Option.bind_eq_some_iff.mp hloop
    exact Or.inr ⟨Nat.lt_of_not_le hmore, rest, hrest, (Option.some.inj hchunks).symm⟩

/-- The loop makes the chunks of the cuts. -/
theorem chunkLoop_cuts (h : Starts cfg text k a)
    (hloop : chunkLoop E cfg text path source now fuel k a = some chunks) :
    (∀ chunk ∈ chunks, ∃ k' a' e' body, Cut cfg text k' a' e' ∧ slice text a' e' = some body ∧
      chunk = mkChunk E text path source now k' a' e' body) ∧
    ∀ k' a' e', k ≤ k' → Cut cfg text k' a' e' →
      ∃ chunk ∈ chunks, chunk.id = chunkId path k' e' := by
  induction fuel generalizing k a chunks with
  | zero => cases hloop
  | succ fuel ih =>
      obtain ⟨e, body, hend, hslice, hrest⟩ := chunkLoop_succ h.lt hloop
      have hcut : Cut cfg text k a e := ⟨h, hend⟩
      have hfirst {k' a' e' : ℕ} (hk : k' = k) (hcut' : Cut cfg text k' a' e') :
          chunkId path k e = chunkId path k' e' := by
        subst hk
        obtain ⟨hstart', hend'⟩ := hcut'
        obtain rfl := h.unique hstart'
        rw [hend] at hend'
        cases hend'
        rfl
      rcases hrest with ⟨hlast, rfl⟩ | ⟨hinside, rest, hrest, rfl⟩
      · constructor
        · intro chunk hchunk
          exact ⟨k, a, e, body, hcut, hslice, List.mem_singleton.mp hchunk⟩
        · intro k' a' e' hle hcut'
          rcases Nat.eq_or_lt_of_le hle with rfl | hlt
          · exact ⟨_, List.mem_singleton_self _, hfirst rfl hcut'⟩
          · -- the text ends with this chunk
            obtain ⟨e₁, hend₁, hinside⟩ := hcut'.1.of_later h hlt
            rw [hend] at hend₁
            cases hend₁
            exact absurd hinside (Nat.not_lt.mpr hlast)
      · obtain ⟨hmade, hall⟩ := ih (h.next hend hinside) hrest
        constructor
        · intro chunk hchunk
          rcases List.mem_cons.mp hchunk with rfl | hchunk
          · exact ⟨k, a, e, body, hcut, hslice, rfl⟩
          · exact hmade chunk hchunk
        · intro k' a' e' hle hcut'
          rcases Nat.eq_or_lt_of_le hle with rfl | hlt
          · exact ⟨_, List.mem_cons_self, hfirst rfl hcut'⟩
          · obtain ⟨chunk, hchunk, hid⟩ := hall k' a' e' hlt hcut'
            exact ⟨chunk, List.mem_cons_of_mem _ hchunk, hid⟩

/-- The chunks of a text: one for each cut. -/
theorem chunkByChars_cuts (h : chunkByChars E cfg text path source now = some chunks) :
    (∀ chunk ∈ chunks, ∃ k a e body, Cut cfg text k a e ∧ slice text a e = some body ∧
      chunk = mkChunk E text path source now k a e body) ∧
    ∀ k a e, Cut cfg text k a e → ∃ chunk ∈ chunks, chunk.id = chunkId path k e := by
  rw [chunkByChars] at h
  split at h
  · rename_i hempty
    cases h
    refine ⟨by simp, ?_⟩
    rintro k a e ⟨hstart, -⟩
    have hlt := hstart.lt
    simp [hempty] at hlt
  · rename_i hne
    have hfirst : Starts cfg text 0 0 := .first (List.length_pos_iff.mpr hne)
    obtain ⟨hmade, hall⟩ := chunkLoop_cuts hfirst h
    exact ⟨hmade, fun k a e => hall k a e (Nat.zero_le k)⟩

/-! ## §5  Ids -/

theorem not_colon_mem_repr (n : ℕ) : ':' ∉ n.repr.toList := by
  rw [Nat.toList_repr]
  intro hmem
  exact absurd (Nat.isDigit_of_mem_toDigits (by decide) (by decide) hmem) (by decide)

theorem repr_inj {m n : ℕ} (h : m.repr.toList = n.repr.toList) : m = n := by
  rw [Nat.toList_repr, Nat.toList_repr] at h
  have hvalue := congrArg (fun ds => Nat.ofDigitChars 10 ds 0) h
  simpa using hvalue

/-- An id tells path, number and end: what stands behind its last two colons are the
numbers. -/
theorem chunkId_inj (h : chunkId path k e = chunkId path' k' e') :
    path = path' ∧ k = k' ∧ e = e' := by
  have hlist (path : String) (k e : ℕ) : (chunkId path k e).toList =
      (path.toList ++ ':' :: k.repr.toList) ++ ':' :: e.repr.toList := by
    simp [chunkId, toString]
  have heq := congrArg String.toList h
  rw [hlist, hlist, joined_eq_iff] at heq
  obtain ⟨hfront, hend⟩ := heq.resolve_right fun hcut => by
    rcases hcut with hcut | hcut
    · exact not_colon_mem_repr e hcut.mem.2
    · exact not_colon_mem_repr e' hcut.mem.2
  rw [joined_eq_iff] at hfront
  obtain ⟨hpath, hnumber⟩ := hfront.resolve_right fun hcut => by
    rcases hcut with hcut | hcut
    · exact not_colon_mem_repr k hcut.mem.2
    · exact not_colon_mem_repr k' hcut.mem.2
  exact ⟨String.toList_inj.mp hpath, repr_inj hnumber, repr_inj hend⟩

/-- One chunk of both texts has the same number and the same end. -/
def SharedCut (cfg : Chunking) (text text' : Text) : Prop :=
  ∃ k a a' e, Cut cfg text k a e ∧ Cut cfg text' k a' e

end Chunking

end Oclaw.MemoryCore
