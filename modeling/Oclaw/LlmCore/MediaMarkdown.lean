import Oclaw.Lib.Delimited
import Oclaw.Lib.Search

/-!
# Inline images in messages

`media_markdown.rs` of `crates/llm-core/src/providers`: a message is cut into texts and
images, which stand in it as markdown images with a base64 data URL. The cursor of the
parser is the part of the input that is still ahead. An image segment is kept together with
the span of the input that it was parsed from, to compare the segments with the input.
-/

namespace Oclaw.LlmCore.MediaMarkdown

open Oclaw.Lib

/-! ## §1  Data URLs -/

structure ParsedImageDataUrl : Type where
  altText : List Char
  mimeType : List Char
  base64Data : List Char
deriving DecidableEq

inductive ParsedMarkdownSegment : Type where
  | text (text : List Char)
  | image (image : ParsedImageDataUrl)
deriving DecidableEq

def asciiLower (s : List Char) : List Char := s.map Char.toLower

/-- `starts_with` -/
def startsWithText (pat : String) (s : List Char) : Bool := pat.toList.isPrefixOf s

/-- `strip_prefix` -/
def stripText (pat : String) (s : List Char) : Option (List Char) :=
  if startsWithText pat s then some (s.drop pat.toList.length) else none

def parseImageDataUrl (url altText : List Char) : Option ParsedImageDataUrl := do
  let trimmed := trimChars url
  guard (startsWithText "data:" (asciiLower trimmed))
  let (meta_, payload) ← splitOnce ',' trimmed
  guard (containsChars ";base64".toList (asciiLower meta_))
  let rest ← stripText "data:" meta_
  let mime := trimChars (rest.takeWhile (· != ';'))
  guard (mime ≠ [])
  let mimeType := asciiLower mime
  guard (startsWithText "image/" mimeType)
  let base64Data := trimChars payload
  guard (base64Data ≠ [])
  return ⟨altText, mimeType, base64Data⟩

/-! ## §2  The parser -/

def imageOpen : List Char := ['!', '[']

def altClose : List Char := [']', '(']

/-- A segment as it stands in the input. -/
inductive Located : Type where
  | text (text : List Char)
  | image (image : ParsedImageDataUrl) (span : List Char)
deriving DecidableEq

def Located.segment : Located → ParsedMarkdownSegment
  | .text t => .text t
  | .image i _ => .image i

/-- A text stands as it is; an image stands as its span. -/
def Located.source : Located → List Char
  | .text t => t
  | .image _ span => span

/-- The image whose `![` is right before this text, its span and what follows it. -/
def imageAfter (ahead : List Char) : Option (Located × List Char) := do
  let (alt, rest) ← splitOnceText altClose ahead
  let (url, after) ← splitOnceText [')'] rest
  let image ← parseImageDataUrl url alt
  return (.image image (imageOpen ++ alt ++ altClose ++ url ++ [')']), after)

/-- What one round of the loop finds ahead of the cursor. -/
inductive Round : Type where
  | done
  /-- The cursor moves behind the `![`, and what is before it is not kept. -/
  | skip (after : List Char)
  | found (before : List Char) (image : Located) (after : List Char)

def round (ahead : List Char) : Round :=
  match splitOnceText imageOpen ahead with
  | none => .done
  | some (before, rest) =>
      match imageAfter rest with
      | some (image, after) => .found before image after
      | none => .skip rest

/-- Pending text, unless there is none. -/
def pending (text : List Char) : List Located := if text = [] then [] else [.text text]

section

variable {ahead before after alt url rest : List Char} {image : Located}

theorem imageAfter_eq_some (h : imageAfter ahead = some (image, after)) :
    imageOpen ++ ahead = image.source ++ after := by
  simp only [imageAfter, Option.bind_eq_bind, Option.bind_eq_some_iff, Option.pure_def,
    Option.some.injEq, Prod.mk.injEq, Prod.exists] at h
  obtain ⟨alt, rest, halt, url, after', hurl, image', -, rfl, rfl⟩ := h
  rw [splitOnceText_eq_some halt, splitOnceText_eq_some hurl]
  simp [Located.source]

theorem round_skip (h : round ahead = .skip after) :
    ∃ before, splitOnceText imageOpen ahead = some (before, after) ∧ imageAfter after = none := by
  unfold round at h
  split at h
  · cases h
  · rename_i before' rest hsplit
    split at h
    · cases h
    · rename_i hnone
      cases h
      exact ⟨before', hsplit, hnone⟩

theorem round_found (h : round ahead = .found before image after) :
    ∃ rest, splitOnceText imageOpen ahead = some (before, rest) ∧
      imageAfter rest = some (image, after) := by
  unfold round at h
  split at h
  · cases h
  · rename_i before' rest hsplit
    split at h
    · rename_i image' after' himage
      cases h
      exact ⟨rest, hsplit, himage⟩
    · cases h

theorem length_skip (h : round ahead = .skip after) : after.length < ahead.length := by
  obtain ⟨before, hsplit, -⟩ := round_skip h
  rw [splitOnceText_eq_some hsplit]
  simp [imageOpen]
  omega

theorem eq_found (h : round ahead = .found before image after) :
    ahead = before ++ image.source ++ after := by
  obtain ⟨rest, hsplit, himage⟩ := round_found h
  rw [splitOnceText_eq_some hsplit, List.append_assoc, List.append_assoc,
    imageAfter_eq_some himage]

theorem source_ne_nil (h : imageAfter ahead = some (image, after)) : image.source ≠ [] := by
  simp only [imageAfter, Option.bind_eq_bind, Option.bind_eq_some_iff, Option.pure_def,
    Option.some.injEq, Prod.mk.injEq, Prod.exists] at h
  obtain ⟨alt, rest, -, url, after', -, image', -, rfl, -⟩ := h
  simp [Located.source, imageOpen]

theorem length_found (h : round ahead = .found before image after) :
    after.length < ahead.length := by
  obtain ⟨rest, -, himage⟩ := round_found h
  have hpos := List.length_pos_iff.mpr (source_ne_nil himage)
  rw [eq_found h, List.length_append, List.length_append]
  omega

end

/-- The loop of the parser: the segments so far and what is left ahead of the cursor. -/
def scan (ahead : List Char) : List Located × List Char :=
  match _h : round ahead with
  | .done => ([], ahead)
  | .skip after => scan after
  | .found before image after =>
      (pending before ++ image :: (scan after).1, (scan after).2)
termination_by ahead.length
decreasing_by
  · exact length_skip _h
  · exact length_found _h

/-- The segments of the input, with their spans. -/
def located (input : List Char) : List Located :=
  if input = [] then [.text []]
  else
    let segments := (scan input).1 ++ pending (scan input).2
    if segments = [] then [.text input] else segments

def parseMarkdownDataUrlSegments (input : String) : List ParsedMarkdownSegment :=
  (located input.toList).map Located.segment

def markdownContainsDataUrlImage (input : String) : Bool :=
  (parseMarkdownDataUrlSegments input).any (fun seg =>
    match seg with
    | .image _ => true
    | .text _ => false)

/-- The content of a user message to Anthropic: blocks, or the text as it is. A block keeps
its span here, as a segment does. -/
inductive UserContent : Type where
  | blocks (segments : List Located)
  | plain (content : String)

/-- The branch of `anthropic_message` for user messages. -/
def userContent (content : String) : UserContent :=
  if markdownContainsDataUrlImage content then
    let blocks := (located content.toList).filter (· ≠ .text [])
    if blocks ≠ [] then .blocks blocks else .plain content
  else .plain content

def UserContent.source : UserContent → List Char
  | .blocks segments => segments.flatMap Located.source
  | .plain content => content.toList

/-- The segments put together again. -/
def restored (input : List Char) : List Char := (located input).flatMap Located.source

/-! ## §3  What the scan keeps -/

/-- Every `![` that the scan meets opens an image. -/
inductive OnlyImages : List Char → Prop where
  | done {ahead : List Char} : round ahead = .done → OnlyImages ahead
  | found {ahead before after : List Char} {image : Located} :
      round ahead = .found before image after → OnlyImages after → OnlyImages ahead

/-- The text ends in `![`, and no `![` in it opens an image. -/
def EndsInOpening (input : List Char) : Prop :=
  (∃ before, input = before ++ imageOpen) ∧
    ∀ before after, input = before ++ imageOpen ++ after → imageAfter after = none

/-- The segments of a scan and what it leaves, put together. -/
def kept (ahead : List Char) : List Char :=
  (scan ahead).1.flatMap Located.source ++ (scan ahead).2

section

variable {ahead before after input : List Char} {image : Located}

theorem scan_done (h : round ahead = .done) : scan ahead = ([], ahead) := by
  rw [scan]
  split <;> simp_all

theorem scan_skip (h : round ahead = .skip after) : scan ahead = scan after := by
  rw [scan]
  split <;> simp_all

theorem scan_found (h : round ahead = .found before image after) :
    scan ahead = (pending before ++ image :: (scan after).1, (scan after).2) := by
  rw [scan]
  split <;> simp_all

theorem flatMap_pending (text : List Char) : (pending text).flatMap Located.source = text := by
  unfold pending
  split
  · rename_i hnil
    exact hnil.symm
  · simp [Located.source]

theorem kept_found (h : round ahead = .found before image after) :
    kept ahead = before ++ image.source ++ kept after := by
  unfold kept
  rw [scan_found h, List.flatMap_append, flatMap_pending, List.flatMap_cons]
  simp only [List.append_assoc]

theorem kept_of_onlyImages (h : OnlyImages ahead) : kept ahead = ahead := by
  induction h with
  | done hround => rw [kept, scan_done hround]; rfl
  | found hround _ ih => rw [kept_found hround, ih, eq_found hround]

/-- A scan adds nothing, and what it skips is missing for good. -/
theorem length_kept (ahead : List Char) : (kept ahead).length ≤ ahead.length ∧
    ((kept ahead).length = ahead.length → OnlyImages ahead) := by
  induction ahead using scan.induct with
  | case1 ahead hround =>
      have hkept := kept_of_onlyImages (.done hround)
      exact ⟨by rw [hkept], fun _ => .done hround⟩
  | case2 ahead after hround ih =>
      have hkept : kept ahead = kept after := by rw [kept, kept, scan_skip hround]
      have hlt := length_skip hround
      rw [hkept]
      exact ⟨by omega, fun heq => by omega⟩
  | case3 ahead before image after hround ih =>
      have hlength : ahead.length = (before ++ image.source).length + after.length := by
        rw [eq_found hround, List.length_append]
      rw [kept_found hround, List.length_append, hlength]
      exact ⟨by omega, fun heq => .found hround (ih.2 (by omega))⟩

theorem kept_eq_iff : kept ahead = ahead ↔ OnlyImages ahead :=
  ⟨fun h => (length_kept ahead).2 (by rw [h]), kept_of_onlyImages⟩

/-! ## §4  Scans that find nothing and leave nothing -/

theorem EndsInOpening.skip (h : EndsInOpening ahead) :
    ∃ after, round ahead = .skip after ∧ (after = [] ∨ EndsInOpening after) := by
  obtain ⟨⟨start, hstart⟩, hnone⟩ := h
  unfold round
  cases hsplit : splitOnceText imageOpen ahead with
  | none =>
      rw [hstart, ← List.append_nil (start ++ imageOpen)] at hsplit
      exact absurd hsplit (splitOnceText_ne_none (by decide) start [])
  | some sides =>
      obtain ⟨before, rest⟩ := sides
      have heq := splitOnceText_eq_some hsplit
      simp only [hnone before rest heq]
      refine ⟨rest, rfl, ?_⟩
      -- the one at the end is the first one or behind it
      rw [hstart, ← List.append_nil (start ++ imageOpen)] at hsplit
      rcases occurrence_cases (by decide) hsplit with ⟨-, hnil⟩ | ⟨middle, hmiddle⟩
      · exact Or.inl hnil.symm
      · refine Or.inr ⟨⟨middle, by rw [hmiddle, List.append_nil]; rfl⟩, ?_⟩
        rintro p q rfl
        apply hnone (before ++ imageOpen ++ p) q
        rw [heq]
        simp only [List.append_assoc]

theorem endsInOpening_of_skip (h : round ahead = .skip after)
    (hafter : after = [] ∨ EndsInOpening after) : EndsInOpening ahead := by
  obtain ⟨before, hsplit, hnone⟩ := round_skip h
  have heq := splitOnceText_eq_some hsplit
  constructor
  · rcases hafter with rfl | ⟨⟨middle, rfl⟩, -⟩
    · exact ⟨before, by rw [heq, List.append_nil]⟩
    · exact ⟨before ++ imageOpen ++ middle, by rw [heq]; simp only [List.append_assoc]⟩
  · rintro p q rfl
    rcases occurrence_cases (by decide) hsplit with ⟨-, rfl⟩ | ⟨middle, hmiddle⟩
    · exact hnone
    · rcases hafter with rfl | ⟨-, hbehind⟩
      · simp at hmiddle
      · exact hbehind middle q hmiddle

theorem scan_empty_iff (h : ahead ≠ []) : scan ahead = ([], []) ↔ EndsInOpening ahead := by
  induction ahead using scan.induct with
  | case1 ahead hround =>
      rw [scan_done hround]
      refine iff_of_false (fun heq => h (Prod.mk.inj heq).2) ?_
      intro hends
      obtain ⟨after, hskip, -⟩ := hends.skip
      rw [hround] at hskip
      cases hskip
  | case2 ahead after hround ih =>
      rw [scan_skip hround]
      constructor
      · intro hscan
        apply endsInOpening_of_skip hround
        by_cases hnil : after = []
        · exact Or.inl hnil
        · exact Or.inr ((ih hnil).mp hscan)
      · intro hends
        obtain ⟨after', hskip, hafter⟩ := hends.skip
        rw [hround] at hskip
        cases hskip
        rcases hafter with rfl | hbehind
        · exact scan_done rfl
        · have hnil : after ≠ [] := by
            rintro rfl
            obtain ⟨⟨before, hbefore⟩, -⟩ := hbehind
            simp [imageOpen] at hbefore
          exact (ih hnil).mpr hbehind
  | case3 ahead before image after hround ih =>
      rw [scan_found hround]
      refine iff_of_false (fun heq => by simp at heq) ?_
      intro hends
      obtain ⟨after', hskip, -⟩ := hends.skip
      rw [hround] at hskip
      cases hskip

/-! ## §5  The whole parser -/

theorem restored_of_scan (h : input ≠ []) :
    restored input = if scan input = ([], []) then input else kept input := by
  have hempty : (scan input).1 ++ pending (scan input).2 = [] ↔ scan input = ([], []) := by
    rw [List.append_eq_nil_iff, Prod.ext_iff]
    apply and_congr_right
    intro _
    unfold pending
    split <;> simp_all
  unfold restored located
  rw [if_neg h]
  by_cases hscan : scan input = ([], [])
  · rw [if_pos hscan]
    simp [hscan, pending, Located.source]
  · rw [if_neg hscan]
    simp only [hempty, hscan, if_false]
    rw [List.flatMap_append, flatMap_pending, kept]

theorem restored_eq_iff (input : List Char) :
    restored input = input ↔ OnlyImages input ∨ EndsInOpening input := by
  by_cases hnil : input = []
  · subst hnil
    exact iff_of_true rfl (Or.inl (.done rfl))
  · rw [restored_of_scan hnil, ← scan_empty_iff hnil]
    split
    · rename_i hscan
      exact iff_of_true rfl (Or.inr hscan)
    · rename_i hscan
      rw [kept_eq_iff, or_iff_left hscan]

end

theorem flatMap_filter_source (segments : List Located) :
    (segments.filter (· ≠ .text [])).flatMap Located.source =
      segments.flatMap Located.source := by
  induction segments with
  | nil => rfl
  | cons seg segments ih =>
      by_cases hseg : seg = .text []
      · subst hseg
        rw [List.filter_cons_of_neg (by simp), List.flatMap_cons, ih]
        rfl
      · rw [List.filter_cons_of_pos (by simpa using hseg), List.flatMap_cons, List.flatMap_cons,
          ih]

/-- A text in which the scan finds nothing has no image. -/
theorem not_contains_of_endsInOpening {content : String} (h : EndsInOpening content.toList) :
    markdownContainsDataUrlImage content = false := by
  have hne : content.toList ≠ [] := by
    obtain ⟨⟨before, hbefore⟩, -⟩ := h
    rw [hbefore]
    simp [imageOpen]
  have hscan := (scan_empty_iff hne).mpr h
  simp [markdownContainsDataUrlImage, parseMarkdownDataUrlSegments, located, hne, hscan, pending,
    Located.segment]

/-- A user message goes out whole if it has no image, or else if its `![` all open one. -/
theorem userContent_whole_iff (content : String) :
    (userContent content).source = content.toList ↔
      (markdownContainsDataUrlImage content = true → OnlyImages content.toList) := by
  unfold userContent
  split
  · rename_i himage
    have hblocks : (located content.toList).filter (· ≠ .text []) ≠ [] := by
      intro hnil
      rw [List.filter_eq_nil_iff] at hnil
      simp only [markdownContainsDataUrlImage, parseMarkdownDataUrlSegments, List.any_map,
        List.any_eq_true] at himage
      obtain ⟨seg, hseg, hisImage⟩ := himage
      have htext : seg = .text [] := by simpa using hnil seg hseg
      subst htext
      cases hisImage
    have hopening : ¬ EndsInOpening content.toList := by
      intro hends
      rw [not_contains_of_endsInOpening hends] at himage
      cases himage
    simp only [hblocks, ne_eq, not_false_eq_true, if_true, UserContent.source]
    have hwhole := restored_eq_iff content.toList
    rw [or_iff_left hopening] at hwhole
    rw [flatMap_filter_source, ← restored, hwhole]
    exact ⟨fun h _ => h, fun h => h himage⟩
  · rename_i himage
    exact iff_of_true rfl (fun h => absurd h himage)

/-- **No text is lost** if and only if every `![` that the parser meets opens an image, or
the text ends in `![` and none opens one: the parser then returns the text whole. -/
theorem no_text_lost_iff (input : String) :
    restored input.toList = input.toList ↔
      OnlyImages input.toList ∨ EndsInOpening input.toList :=
  restored_eq_iff input.toList

/-- A markdown image with an ordinary URL: what is before it is gone, and its `![`. -/
theorem ordinary_image_loses_text :
    parseMarkdownDataUrlSegments "see ![plan](plan.png) there" =
      [.text "plan](plan.png) there".toList] ∧
    restored "see ![plan](plan.png) there".toList ≠ "see ![plan](plan.png) there".toList := by
  have hskip : round "see ![plan](plan.png) there".toList =
      .skip "plan](plan.png) there".toList := by rfl
  have hdone : round "plan](plan.png) there".toList = .done := by rfl
  have hscan := (scan_skip hskip).trans (scan_done hdone)
  constructor
  · rw [parseMarkdownDataUrlSegments, located, hscan]
    decide
  · rw [restored, located, hscan]
    decide

end Oclaw.LlmCore.MediaMarkdown
