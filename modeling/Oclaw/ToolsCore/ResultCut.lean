import Mathlib.Algebra.Group.Nat.Defs
import Oclaw.Lib.Search
import Oclaw.ToolsCore.Workspace

/-!
# Cutting what tools return

`crates/tools-core/src/truncation.rs` cuts a result to a number of bytes that stands for its
limits in bytes and in lines, at the last line end before. `WebFetchTool::fetch_direct` and
`LinkReaderTool::execute` (`tool.rs`) cut what they read at a number of bytes. None of them
looks whether a character goes across the cut.
-/

namespace Oclaw.ToolsCore

open Oclaw.Lib

/-! ## §1  Truncating a result -/

structure TruncationConfig : Type where
  maxChars : ℕ
  maxLines : ℕ
  truncationMessage : String

def TruncationConfig.default : TruncationConfig := ⟨50000, 500, "[truncated]"⟩

/-- How a build treats a product that is too large. -/
inductive Build : Type where
  | checked
  | wrapping

/-- `a * b` on `usize`; `none` is a panic, as everywhere below. -/
def usizeMul (build : Build) (a b : ℕ) : Option ℕ :=
  if a * b < 2 ^ 64 then some (a * b)
  else
    match build with
    | .checked => none
    | .wrapping => some (a * b % 2 ^ 64)

def truncationNotice (cut total : ℕ) : String :=
  "\n\n[truncated, showing first " ++ toString cut ++ " of " ++ toString total ++ " chars]"

/-- Truncate at the nearest line boundary. -/
def smartTruncate (result : String) (maxChars : ℕ) : Option String :=
  if byteLen result.toList ≤ maxChars then some result
  else do
    let slice ← strTo result.toList maxChars
    let cut := (rfind ['\n'] slice).getD maxChars
    let kept ← strTo result.toList cut
    some (String.ofList kept ++ truncationNotice cut (byteLen result.toList))

def truncateToolResult (build : Build) (result : String) (config : TruncationConfig) :
    Option String :=
  if byteLen result.toList ≤ config.maxChars ∧ (lines result.toList).length ≤ config.maxLines then
    some result
  else do
    let product ← usizeMul build config.maxLines 200
    smartTruncate result (min config.maxChars product)

/-! ## §2  Reading pages -/

/-- What is used of a response. The content type is there when it is text. -/
structure Response : Type where
  status : UInt16
  contentType : Option String
  text : Except String String

/-- The client: how building it and sending a request end. -/
structure Http : Type where
  build : ℕ → Except String Unit
  send : String → List (String × String) → Except String Response

structure FetchReply : Type where
  url : String
  status : UInt16
  body : String
  truncated : Bool
  backend : String

/-- `if truncated { &text[..max_chars] } else { &text }`, and whether it was. -/
def cutText (maxChars : ℕ) (text : String) : Option (String × Bool) :=
  if maxChars < byteLen text.toList then
    (strTo text.toList maxChars).map (fun start => (String.ofList start, true))
  else some (text, false)

/-- `WebFetchTool::fetch_direct` -/
def fetchDirect (http : Http) (timeoutSeconds : ℕ) (url : String)
    (headers : Option (List (String × String))) : Option (Except ToolError FetchReply) :=
  match http.build timeoutSeconds with
  | .error e => some (.error (.executionFailed e))
  | .ok () =>
      match http.send url (headers.getD []) with
      | .error e => some (.error (.executionFailed e))
      | .ok resp =>
          match resp.text with
          | .error e => some (.error (.executionFailed e))
          | .ok body =>
              (cutText 50000 body).map
                (fun cut => .ok ⟨url, resp.status, cut.1, cut.2, "direct"⟩)

/-- `str::find` for a text that is not empty. -/
def find (pat s : List Char) : Option ℕ := (splitOnceText pat s).map (fun sides => byteLen sides.1)

/-- `String::replace_range(a..b, "")` -/
def removeRange (s : List Char) (a b : ℕ) : Option (List Char) :=
  if a ≤ b then
    match cutAt s a, cutAt s b with
    | some (p, _), some (_, q) => some (p ++ q)
    | _, _ => none
  else none

/-- `String::truncate` -/
def truncateTo (s : List Char) (n : ℕ) : Option (List Char) :=
  if n ≤ byteLen s then strTo s n else some s

theorem length_removeRange {s t : List Char} {a b : ℕ} (h : removeRange s a b = some t)
    (hlt : a < b) : t.length < s.length := by
  rw [removeRange, if_pos (Nat.le_of_lt hlt)] at h
  split at h
  next p p' q' q hp hq =>
    obtain rfl := Option.some.inj h
    obtain ⟨rfl, hplen⟩ := cutAt_eq_some_iff.mp hp
    obtain ⟨hs, hqlen⟩ := cutAt_eq_some_iff.mp hq
    -- the second cut is behind the first one
    have hshort : p <+: q' := by
      refine (List.prefix_or_prefix_of_prefix (List.prefix_append p p')
        (hs ▸ List.prefix_append q' q)).resolve_right fun h => ?_
      have hle := byteLen_le_of_isPrefix h
      omega
    obtain ⟨m, rfl⟩ := hshort
    have hm : m ≠ [] := by
      rintro rfl
      rw [List.append_nil] at hqlen
      omega
    rw [hs]
    have := List.length_pos_iff.mpr hm
    simp only [List.length_append]
    omega
  next => cases h

section Pages

variable (lowercase : List Char → List Char)

def openTag (tag : String) : List Char := '<' :: tag.toList

def closeTag (tag : String) : List Char := '<' :: '/' :: (tag.toList ++ ['>'])

/-- The loop for one tag. The positions in the text in lower case are used in the text. -/
def stripTag (tag : String) (result : List Char) : Option (List Char) :=
  let lower := lowercase result
  match find (openTag tag) lower with
  | none => some result
  | some start =>
      match (strFrom lower start).map (find (closeTag tag)) with
      | none => none
      | some none => truncateTo result start
      | some (some endRel) =>
          match _hrest : removeRange result start
              (start + endRel + byteLen (closeTag tag)) with
          | none => none
          | some rest => stripTag tag rest
termination_by result.length
decreasing_by
  refine length_removeRange _hrest ?_
  have : 0 < byteLen (closeTag tag) := byteLen_pos_iff.mpr (List.cons_ne_nil _ _)
  omega

/-- Remove all script and style blocks. -/
def stripScriptStyle (html : List Char) : Option (List Char) := do
  let result ← stripTag lowercase "script" html
  stripTag lowercase "style" result

/-- What is not in a tag, with one space for each run of whitespace. -/
def plainText (inTag lastWasSpace : Bool) : List Char → List Char
  | [] => []
  | c :: cs =>
      if c = '<' then plainText true lastWasSpace cs
      else if c = '>' then plainText false lastWasSpace cs
      else if inTag then plainText inTag lastWasSpace cs
      else if isWhitespace c then
        if lastWasSpace then plainText inTag lastWasSpace cs else ' ' :: plainText inTag true cs
      else c :: plainText inTag false cs

def htmlToText (html : String) : Option String := do
  let stripped ← stripScriptStyle lowercase html.toList
  some (String.ofList (trimChars (plainText false false stripped)))

structure LinkArgs : Type where
  url : String
  maxChars : Option ℕ

structure LinkReply : Type where
  url : String
  status : UInt16
  content : String
  truncated : Bool
  contentType : String

def linkText (contentType body : String) : Option String :=
  if contains contentType "html" then htmlToText lowercase body else some body

def linkHeaders : List (String × String) :=
  [("User-Agent", "Mozilla/5.0 (compatible; oclaw/1.0)")]

/-- `LinkReaderTool::execute`, with the arguments as `serde_json` reads them. -/
def executeLinkReader (http : Http) (timeoutSeconds : ℕ) (arguments : Except String LinkArgs) :
    Option (Except ToolError LinkReply) :=
  match arguments with
  | .error e => some (.error (.invalidInput e))
  | .ok args =>
      let maxChars := args.maxChars.getD 6000
      match http.build timeoutSeconds with
      | .error e => some (.error (.executionFailed e))
      | .ok () =>
          match http.send args.url linkHeaders with
          | .error e => some (.error (.executionFailed ("Fetch failed: " ++ e)))
          | .ok resp =>
              let contentType := resp.contentType.getD ""
              match resp.text with
              | .error e => some (.error (.executionFailed e))
              | .ok body => do
                  let text ← linkText lowercase contentType body
                  let (content, truncated) ← cutText maxChars text
                  some (.ok ⟨args.url, resp.status, content, truncated, contentType⟩)

end Pages

/-! ## §3  What cutting should do -/

def Fits (result : String) (config : TruncationConfig) : Prop :=
  byteLen result.toList ≤ config.maxChars ∧ (lines result.toList).length ≤ config.maxLines

/-- What fits is returned as it is, of the rest a start that fits, and the notice. -/
structure Truncates (result : String) (config : TruncationConfig) (out : String) : Prop where
  same_iff : out = result ↔ Fits result config
  start : ¬ Fits result config → ∃ kept, kept <+: result.toList ∧
    byteLen kept ≤ config.maxChars ∧ (lines kept).length ≤ config.maxLines ∧
    out = String.ofList kept ++ truncationNotice (byteLen kept) (byteLen result.toList)

def TruncatesRight (build : Build) (result : String) (config : TruncationConfig) : Prop :=
  ∃ out, truncateToolResult build result config = some out ∧ Truncates result config out

/-- The limits of a configuration as one limit in bytes. -/
def byteLimit (build : Build) (config : TruncationConfig) : Option ℕ :=
  (usizeMul build config.maxLines 200).map (min config.maxChars)

/-- The first `n` bytes of a text up to their last line feed, if there is one. -/
def startTo (n : ℕ) (s : List Char) : List Char :=
  (beforeLast '\n' (floorStart n s)).getD (floorStart n s)

/-- The limit is less than the text and between two characters of it, what is before it has
few enough lines, and the text is not just that with the notice. -/
structure CutFits (result : String) (config : TruncationConfig) (limit : ℕ) : Prop where
  shorter : limit < byteLen result.toList
  boundary : isCharBoundary result.toList limit = true
  lines : (lines (startTo limit result.toList)).length ≤ config.maxLines
  differs : String.ofList (startTo limit result.toList) ++ truncationNotice
    (byteLen (startTo limit result.toList)) (byteLen result.toList) ≠ result

/-- A cut at `maxChars` is not inside a character. -/
def Sliceable (maxChars : ℕ) (text : String) : Prop :=
  byteLen text.toList ≤ maxChars ∨ isCharBoundary text.toList maxChars = true

/-- The body that `fetch_direct` reads. -/
def Fetched (http : Http) (timeoutSeconds : ℕ) (url : String)
    (headers : Option (List (String × String))) (body : String) : Prop :=
  http.build timeoutSeconds = .ok () ∧
    ∃ resp, http.send url (headers.getD []) = .ok resp ∧ resp.text = .ok body

/-- The text that `LinkReaderTool::execute` reads, and the number of bytes to keep of it. -/
def LinkRead (lowercase : List Char → List Char) (http : Http) (timeoutSeconds : ℕ)
    (arguments : Except String LinkArgs) (maxChars : ℕ) (text : String) : Prop :=
  ∃ args resp body, arguments = .ok args ∧ http.build timeoutSeconds = .ok () ∧
    http.send args.url linkHeaders = .ok resp ∧ resp.text = .ok body ∧
    linkText lowercase (resp.contentType.getD "") body = some text ∧
    maxChars = args.maxChars.getD 6000

/-! ## §4  Slices -/

section Slices

variable {s p q t : List Char} {n i : ℕ} {result out : String} {build : Build}
  {config : TruncationConfig}

/-- A slice is there just up to a boundary. -/
theorem strTo_eq_none_iff : strTo s i = none ↔ ¬ isCharBoundary s i = true := by
  rw [isCharBoundary_iff, strTo, Option.map_eq_none_iff, Option.eq_none_iff_forall_ne_some]
  constructor
  · rintro h ⟨p, q, hcut⟩
    exact h (p, q) hcut
  · rintro h ⟨p, q⟩ hcut
    exact h ⟨p, q, hcut⟩

theorem strTo_of_boundary (h : isCharBoundary s i = true) :
    strTo s i = some (floorStart i s) ∧ byteLen (floorStart i s) = i := by
  obtain ⟨p, q, hcut⟩ := isCharBoundary_iff.mp h
  obtain ⟨rfl, rfl⟩ := cutAt_eq_some_iff.mp hcut
  have hfloor : floorStart (byteLen p) (p ++ q) = p := by
    have hpre := isPrefix_floorStart (List.prefix_append p q) (Nat.le_refl _)
    obtain ⟨r, hr⟩ := hpre
    have hle := byteLen_floorStart_le (byteLen p) (p ++ q)
    rw [← hr, byteLen_append] at hle
    have hnil : r = [] := by
      by_contra hne
      have := byteLen_pos_iff.mpr hne
      omega
    rw [← hr, hnil, List.append_nil]
  rw [hfloor]
  exact ⟨strTo_append p q, rfl⟩

theorem rfind_newline (s : List Char) : rfind ['\n'] s = (beforeLast '\n' s).map byteLen := by
  induction s with
  | nil => rfl
  | cons c s ih =>
      rw [rfind, beforeLast, ih]
      cases beforeLast '\n' s with
      | some start => rfl
      | none =>
          have hhead : List.isPrefixOf ['\n'] (c :: s) = true ↔ c = '\n' := by
            rw [List.isPrefixOf_iff_prefix, List.cons_prefix_cons]
            exact ⟨fun h => h.1.symm, fun h => ⟨h.symm, List.nil_prefix⟩⟩
          simp only [Option.map_none, hhead]
          split <;> rfl

theorem startTo_isPrefix (n : ℕ) (s : List Char) : startTo n s <+: floorStart n s := by
  rw [startTo]
  cases hline : beforeLast '\n' (floorStart n s) with
  | none => exact List.prefix_refl _
  | some start => exact (List.prefix_append start _).trans (beforeLast_isPrefix hline)

theorem smartTruncate_of_boundary (hlt : n < byteLen result.toList)
    (h : isCharBoundary result.toList n = true) :
    smartTruncate result n = some (String.ofList (startTo n result.toList) ++
      truncationNotice (byteLen (startTo n result.toList)) (byteLen result.toList)) := by
  obtain ⟨hslice, hlen⟩ := strTo_of_boundary h
  have hcut : (rfind ['\n'] (floorStart n result.toList)).getD n =
      byteLen (startTo n result.toList) := by
    rw [rfind_newline, startTo]
    cases beforeLast '\n' (floorStart n result.toList) with
    | none => exact hlen.symm
    | some start => rfl
  have hkept : strTo result.toList (byteLen (startTo n result.toList)) =
      some (startTo n result.toList) := by
    obtain ⟨r, hr⟩ := (startTo_isPrefix n result.toList).trans (floorStart_isPrefix n result.toList)
    calc strTo result.toList (byteLen (startTo n result.toList))
        = strTo (startTo n result.toList ++ r) (byteLen (startTo n result.toList)) := by rw [hr]
      _ = some (startTo n result.toList) := strTo_append _ _
  rw [smartTruncate, if_neg (Nat.not_le.mpr hlt), hslice]
  simp only [Option.bind_eq_bind, Option.bind_some, hcut, hkept]

theorem smartTruncate_inside (hlt : n < byteLen result.toList)
    (h : ¬ isCharBoundary result.toList n = true) : smartTruncate result n = none := by
  rw [smartTruncate, if_neg (Nat.not_le.mpr hlt), strTo_eq_none_iff.mpr h]
  rfl

/-! ## §5  The notice -/

theorem digits_mono {m n : ℕ} (h : m ≤ n) :
    byteLen (toString m).toList ≤ byteLen (toString n).toList := by
  rw [byteLen_toString, byteLen_toString,
    Nat.length_toDigits_le_iff (by decide) Nat.length_toDigits_pos]
  refine Nat.lt_of_le_of_lt h ?_
  exact (Nat.length_toDigits_le_iff (by decide) Nat.length_toDigits_pos).mp (Nat.le_refl _)

/-- The notice takes 39 bytes and the digits of its numbers. -/
theorem byteLen_notice (cut total : ℕ) : byteLen (truncationNotice cut total).toList =
    byteLen (toString cut).toList + byteLen (toString total).toList + 39 := by
  have hopen : byteLen "\n\n[truncated, showing first ".toList = 28 := by decide
  have hof : byteLen " of ".toList = 4 := by decide
  have hclose : byteLen " chars]".toList = 7 := by decide
  -- for any two texts, since two numbers are not to be compared digit by digit
  have hlen : ∀ s t : String, byteLen ("\n\n[truncated, showing first " ++ s ++ " of " ++ t ++
      " chars]").toList = byteLen s.toList + byteLen t.toList + 39 := by
    intro s t
    simp only [String.toList_append, byteLen_append, hopen, hof, hclose]
    omega
  exact hlen _ _

/-- The notice with a larger number is at least as long. -/
theorem notice_mono {m n : ℕ} (total : ℕ) (h : m ≤ n) :
    byteLen (truncationNotice m total).toList ≤ byteLen (truncationNotice n total).toList := by
  rw [byteLen_notice, byteLen_notice]
  exact Nat.add_le_add_right (Nat.add_le_add_right (digits_mono h) _) _

/-- A text with the notice shows which start of the result it keeps. -/
theorem kept_unique {total : ℕ} (hp : p <+: s) (hq : q <+: s)
    (h : String.ofList p ++ truncationNotice (byteLen p) total =
      String.ofList q ++ truncationNotice (byteLen q) total) : p = q := by
  have hlen := congrArg (fun out => byteLen out.toList) h
  simp only [String.toList_append, String.toList_ofList, byteLen_append] at hlen
  have hsame : byteLen p = byteLen q := by
    rcases Nat.lt_trichotomy (byteLen p) (byteLen q) with hlt | heq | hgt
    · have := notice_mono total (Nat.le_of_lt hlt)
      omega
    · exact heq
    · have := notice_mono total (Nat.le_of_lt hgt)
      omega
  obtain ⟨r, rfl⟩ := hp
  obtain ⟨r', hr⟩ := hq
  have hcut := cutAt_append p r
  rw [← hr, hsame, cutAt_append] at hcut
  exact (congrArg Prod.fst (Option.some.inj hcut)).symm

/-! ## §6  When the cuts are right -/

theorem byteLen_startTo_le (n : ℕ) (s : List Char) : byteLen (startTo n s) ≤ n :=
  (byteLen_le_of_isPrefix (startTo_isPrefix n s)).trans (byteLen_floorStart_le n s)

theorem truncate_of_fits (h : Fits result config) :
    truncateToolResult build result config = some result :=
  if_pos h

theorem truncate_of_not_fits (h : ¬ Fits result config) :
    truncateToolResult build result config =
      (byteLimit build config).bind (smartTruncate result) := by
  have hcond : ¬ (byteLen result.toList ≤ config.maxChars ∧
      (lines result.toList).length ≤ config.maxLines) := h
  rw [truncateToolResult, if_neg hcond, byteLimit, Option.bind_map]
  rfl

theorem byteLimit_le {limit : ℕ} (h : byteLimit build config = some limit) :
    limit ≤ config.maxChars := by
  obtain ⟨product, -, rfl⟩ := Option.map_eq_some_iff.mp h
  exact Nat.min_le_left _ _

theorem truncates_of_cutFits {limit : ℕ} (hfits : ¬ Fits result config)
    (hlimit : byteLimit build config = some limit) (h : CutFits result config limit) :
    TruncatesRight build result config := by
  refine ⟨_, ?_, ⟨?_, fun _ => ⟨startTo limit result.toList, ?_, ?_, h.lines, rfl⟩⟩⟩
  · rw [truncate_of_not_fits hfits, hlimit, Option.bind_some,
      smartTruncate_of_boundary h.shorter h.boundary]
  · exact iff_of_false h.differs hfits
  · exact (startTo_isPrefix _ _).trans (floorStart_isPrefix _ _)
  · exact (byteLen_startTo_le _ _).trans (byteLimit_le hlimit)

theorem cutFits_of_truncates (hfits : ¬ Fits result config)
    (h : TruncatesRight build result config) :
    ∃ limit, byteLimit build config = some limit ∧ CutFits result config limit := by
  obtain ⟨out, hout, hright⟩ := h
  rw [truncate_of_not_fits hfits] at hout
  obtain ⟨limit, hlimit, hout⟩ := Option.bind_eq_some_iff.mp hout
  have hne : out ≠ result := fun heq => hfits (hright.same_iff.mp heq)
  have hshorter : limit < byteLen result.toList := by
    by_contra hle
    rw [smartTruncate, if_pos (Nat.not_lt.mp hle)] at hout
    exact hne (Option.some.inj hout).symm
  have hboundary : isCharBoundary result.toList limit = true := by
    by_contra hinside
    rw [smartTruncate_inside hshorter hinside] at hout
    cases hout
  rw [smartTruncate_of_boundary hshorter hboundary] at hout
  obtain ⟨kept, hpre, -, hlines, hkept⟩ := hright.start hfits
  have hsame := kept_unique ((startTo_isPrefix _ _).trans (floorStart_isPrefix _ _)) hpre
    ((Option.some.inj hout).trans hkept)
  refine ⟨limit, hlimit, hshorter, hboundary, hsame ▸ hlines, fun heq => ?_⟩
  exact hne ((Option.some.inj hout).symm.trans heq)

theorem truncatesRight_iff : TruncatesRight build result config ↔
    Fits result config ∨
      ∃ limit, byteLimit build config = some limit ∧ CutFits result config limit := by
  by_cases hfits : Fits result config
  · refine iff_of_true ⟨result, truncate_of_fits hfits, ⟨?_, ?_⟩⟩ (Or.inl hfits)
    · exact iff_of_true rfl hfits
    · exact fun hno => absurd hfits hno
  · constructor
    · exact fun h => Or.inr (cutFits_of_truncates hfits h)
    · rintro (h | ⟨limit, hlimit, h⟩)
      · exact absurd h hfits
      · exact truncates_of_cutFits hfits hlimit h

theorem cutText_ne_none_iff {maxChars : ℕ} {text : String} :
    cutText maxChars text ≠ none ↔ Sliceable maxChars text := by
  rw [cutText, Sliceable]
  by_cases hle : byteLen text.toList ≤ maxChars
  · rw [if_neg (Nat.not_lt.mpr hle)]
    exact iff_of_true (Option.some_ne_none _) (Or.inl hle)
  · rw [if_pos (Nat.not_le.mp hle), Ne, Option.map_eq_none_iff, strTo_eq_none_iff, not_not]
    exact ⟨Or.inr, fun h => h.resolve_left hle⟩

theorem fetchDirect_ne_none_iff {http : Http} {timeoutSeconds : ℕ} {url : String}
    {headers : Option (List (String × String))} :
    fetchDirect http timeoutSeconds url headers ≠ none ↔
      ∀ body, Fetched http timeoutSeconds url headers body → Sliceable 50000 body := by
  have hreached (body : String) (h : Fetched http timeoutSeconds url headers body) :
      fetchDirect http timeoutSeconds url headers ≠ none ↔ Sliceable 50000 body := by
    obtain ⟨hbuild, resp, hsend, htext⟩ := h
    rw [← cutText_ne_none_iff, fetchDirect, hbuild]
    simp only [hsend, htext, ne_eq, Option.map_eq_none_iff]
  constructor
  · exact fun h body hbody => (hreached body hbody).mp h
  · intro h
    by_cases hany : ∃ body, Fetched http timeoutSeconds url headers body
    · obtain ⟨body, hbody⟩ := hany
      exact (hreached body hbody).mpr (h body hbody)
    · -- no body is read, and an error is returned
      rw [fetchDirect]
      split
      · exact Option.some_ne_none _
      next hbuild =>
        split
        · exact Option.some_ne_none _
        next resp hsend =>
          split
          · exact Option.some_ne_none _
          next body htext => exact absurd ⟨body, hbuild, resp, hsend, htext⟩ hany

theorem executeLinkReader_ne_none_iff {lowercase : List Char → List Char} {http : Http}
    {timeoutSeconds maxChars : ℕ} {arguments : Except String LinkArgs} {text : String}
    (h : LinkRead lowercase http timeoutSeconds arguments maxChars text) :
    executeLinkReader lowercase http timeoutSeconds arguments ≠ none ↔
      Sliceable maxChars text := by
  obtain ⟨args, resp, body, rfl, hbuild, hsend, hbody, htext, rfl⟩ := h
  rw [← cutText_ne_none_iff, executeLinkReader]
  simp only [hbuild, hsend, hbody, htext, Option.bind_eq_bind, Option.bind_some]
  cases cutText (args.maxChars.getD 6000) text with
  | none => exact iff_of_false (fun h => h rfl) (fun h => h rfl)
  | some cut => exact iff_of_true (Option.some_ne_none _) (Option.some_ne_none _)

end Slices

/-- **Cutting.** A result is truncated as it should be just when it fits, or the cut at the
limit in bytes is between characters and keeps few enough lines; and what the pages give is cut
without a panic just when the cut is between characters. -/
theorem cuts_iff (build : Build) (lowercase : List Char → List Char) (http : Http)
    (timeoutSeconds : ℕ) :
    (∀ result config, TruncatesRight build result config ↔ Fits result config ∨
      ∃ limit, byteLimit build config = some limit ∧ CutFits result config limit) ∧
    (∀ url headers, fetchDirect http timeoutSeconds url headers ≠ none ↔
      ∀ body, Fetched http timeoutSeconds url headers body → Sliceable 50000 body) ∧
    ∀ arguments maxChars text, LinkRead lowercase http timeoutSeconds arguments maxChars text →
      (executeLinkReader lowercase http timeoutSeconds arguments ≠ none ↔
        Sliceable maxChars text) :=
  ⟨fun _ _ => truncatesRight_iff, fun _ _ => fetchDirect_ne_none_iff,
    fun _ _ _ => executeLinkReader_ne_none_iff⟩

/-- A page with one accented letter, of which the first byte is asked for. -/
theorem cuts_iff_accent :
    let http : Http := ⟨fun _ => .ok (), fun _ _ => .ok ⟨200, none, .ok "é"⟩⟩
    executeLinkReader id http 20 (.ok ⟨"https://a.b", some 1⟩) ≠ none ↔ Sliceable 1 "é" := by
  intro http
  exact (cuts_iff .checked id http 20).2.2 _ _ _
    ⟨_, _, _, rfl, rfl, rfl, rfl, by decide, rfl⟩

/-- Two short lines are left as they are, where one is the limit, and a cut in an accented
letter is a panic. -/
theorem not_truncatesRight_lines :
    truncateToolResult .checked "a\nb" ⟨100, 1, ""⟩ = some "a\nb" ∧
      truncateToolResult .checked "é" ⟨1, 1, ""⟩ = none ∧
      ¬ ∀ build result config, TruncatesRight build result config := by
  have hsame : truncateToolResult .checked "a\nb" ⟨100, 1, ""⟩ = some "a\nb" := by
    decide
  refine ⟨hsame, by decide, fun h => ?_⟩
  obtain ⟨out, hout, hright⟩ := h .checked "a\nb" ⟨100, 1, ""⟩
  rw [hsame] at hout
  obtain rfl := Option.some.inj hout
  have hlines := (hright.same_iff.mp rfl).2
  exact absurd hlines (by decide)

end Oclaw.ToolsCore
