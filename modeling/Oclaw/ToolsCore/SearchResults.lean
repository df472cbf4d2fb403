import Oclaw.Lib.Delimited
import Oclaw.ToolsCore.ResultCut

/-!
# Search results of a page

`parse_ddg_results` (`crates/tools-core/src/tool.rs`) goes from one `class="result__a"` to the
next. It takes the last `href` of the 200 bytes before it, the text of the tag that it is in,
and the text of the next tag with `class="result__snippet"`. The 200 bytes may begin inside a
character, and so may the rest of the page one byte behind the marker.
-/

namespace Oclaw.ToolsCore

open Oclaw.Lib

/-! ## §1  The scan -/

def linkMarker : List Char := "class=\"result__a\"".toList

def snippetMarker : List Char := "class=\"result__snippet\"".toList

def attrPattern (attr : String) : List Char := attr.toList ++ ['=', '"']

/-- The slices at the ends of what is found are between characters, here as below. -/
def extractAttr (before : List Char) (attr : String) : Option (List Char) := do
  let start ← rfind (attrPattern attr) before
  let rest ← strFrom before (start + byteLen (attrPattern attr))
  let (value, _) ← splitOnce '"' rest
  some value

def extractTagText (html : List Char) : Option (List Char) := do
  let (_, rest) ← splitOnce '>' html
  let (text, _) ← splitOnce '<' rest
  some (trimChars text)

def stripTagsFrom (inTag : Bool) : List Char → List Char
  | [] => []
  | c :: cs =>
      if c = '<' then stripTagsFrom true cs
      else if c = '>' then stripTagsFrom false cs
      else if inTag then stripTagsFrom inTag cs
      else c :: stripTagsFrom inTag cs

def stripHtmlTags (s : List Char) : List Char := stripTagsFrom false s

/-- The first piece of `str::split` for a text. -/
def firstPiece (pat s : List Char) : List Char :=
  match splitOnceText pat s with
  | none => s
  | some (start, _) => start

structure SearchHit : Type where
  title : String
  url : String
  snippet : String
deriving DecidableEq

section Scan

variable (decode : List Char → Option (List Char))

/-- The target of a redirect of the search engine, or the address itself; `decode` is
`urlencoding::decode`. -/
def resolveUrl (href : List Char) : List Char :=
  match splitOnceText "uddg=".toList href with
  | none => href
  | some (_, rest) => (decode (firstPiece ['&'] (firstPiece "uddg=".toList rest))).getD href

def snippetOf (behind : List Char) : List Char :=
  match splitOnceText snippetMarker behind with
  | none => []
  | some (_, rest) => (extractTagText rest).getD []

/-- What is made of a marker: from the bytes before it, and from what is behind it. -/
def hitAt (before behind : List Char) : Option SearchHit :=
  let href := (extractAttr before "href").getD []
  let title := (extractTagText behind).getD []
  let snippet := snippetOf behind
  let url := resolveUrl decode href
  if url ≠ [] ∧ title ≠ [] then
    some ⟨String.ofList (stripHtmlTags title), String.ofList url,
      String.ofList (stripHtmlTags snippet)⟩
  else none

/-- `&s[a..b]` -/
def slice (s : List Char) (a b : ℕ) : Option (List Char) := (strTo s b).bind (strFrom · a)

theorem le_of_strFrom {s t : List Char} {n : ℕ} (h : strFrom s n = some t) : n ≤ byteLen s := by
  obtain ⟨⟨p, q⟩, hcut, rfl⟩ := Option.map_eq_some_iff.mp h
  obtain ⟨rfl, rfl⟩ := cutAt_eq_some_iff.mp hcut
  exact byteLen_le_of_isPrefix (List.prefix_append p q)

/-- The loop; `none` is a panic. -/
def parseFrom (html : List Char) (max pos : ℕ) (results : List SearchHit) :
    Option (List SearchHit) :=
  if results.length < max then
    match _hrest : strFrom html pos with
    | none => none
    | some rest =>
        match find linkMarker rest with
        | none => some results
        | some rel =>
            let linkStart := pos + rel
            let afterTag := linkStart + byteLen linkMarker
            match slice html (linkStart - 200) linkStart, strFrom html afterTag with
            | some before, some behind =>
                parseFrom html max (afterTag + 1) (results ++ (hitAt decode before behind).toList)
            | _, _ => none
  else some results
termination_by byteLen html + 1 - pos
decreasing_by
  have hle := le_of_strFrom _hrest
  omega

def parseDdgResults (html : String) (max : ℕ) : Option (List SearchHit) :=
  parseFrom decode html.toList max 0 []

end Scan

/-! ## §2  The markers that it comes to -/

/-- The last 200 bytes of a text, or all of it. -/
def window (before : List Char) : Option (List Char) := strFrom before (byteLen before - 200)

/-- The marker that is next behind `seen`, and those after it: what is before each and what
is behind. The search goes on behind a one-byte character. -/
inductive Visits : List Char → List Char → List Char → List Char → Prop where
  | here {seen rest b a : List Char} (h : splitOnceText linkMarker rest = some (b, a)) :
      Visits seen rest (seen ++ b) a
  | later {seen rest b a before behind : List Char} {c : Char}
      (h : splitOnceText linkMarker rest = some (b, c :: a)) (hc : c.utf8Size = 1)
      (hv : Visits (seen ++ b ++ linkMarker ++ [c]) a before behind) :
      Visits seen rest before behind

/-- Every marker that the scan comes to has its 200 bytes begin between characters, and a
one-byte character behind it. -/
def SlicesOk (seen rest : List Char) : Prop :=
  ∀ before behind, Visits seen rest before behind →
    isCharBoundary before (byteLen before - 200) = true ∧
      ∃ c a, behind = c :: a ∧ c.utf8Size = 1

/-- The scan of a page to its end, marker by marker. -/
inductive Scans (decode : List Char → Option (List Char)) :
    List Char → List Char → List (Option SearchHit) → Prop where
  | done {seen rest : List Char} (h : splitOnceText linkMarker rest = none) :
      Scans decode seen rest []
  | link {seen rest b a w : List Char} {c : Char} {es : List (Option SearchHit)}
      (h : splitOnceText linkMarker rest = some (b, c :: a)) (hc : c.utf8Size = 1)
      (hw : window (seen ++ b) = some w)
      (hs : Scans decode (seen ++ b ++ linkMarker ++ [c]) a es) :
      Scans decode seen rest (hitAt decode w (c :: a) :: es)

/-! ## §3  One round -/

variable {decode : List Char → Option (List Char)} {max : ℕ} {results out : List SearchHit}
variable {seen rest a b w before behind s t : List Char} {c : Char} {es : List (Option SearchHit)}

theorem linkMarker_ne_nil : linkMarker ≠ [] := by decide

theorem slice_window (s t : List Char) :
    slice (s ++ t) (byteLen s - 200) (byteLen s) = window s := by
  rw [slice, strTo_append, Option.bind_some, window]

theorem window_eq_none_iff : window s = none ↔ ¬ isCharBoundary s (byteLen s - 200) = true := by
  rw [isCharBoundary_iff, window, strFrom, Option.map_eq_none_iff,
    Option.eq_none_iff_forall_ne_some]
  constructor
  · rintro h ⟨p, q, hcut⟩
    exact h (p, q) hcut
  · rintro h ⟨p, q⟩ hcut
    exact h ⟨p, q, hcut⟩

/-- One round, on the text that is seen and the rest. -/
theorem parseFrom_eq (seen rest : List Char) :
    parseFrom decode (seen ++ rest) max (byteLen seen) results =
      if results.length < max then
        match splitOnceText linkMarker rest with
        | none => some results
        | some (b, a) =>
            match window (seen ++ b) with
            | none => none
            | some w => parseFrom decode (seen ++ rest) max
                (byteLen (seen ++ b ++ linkMarker) + 1) (results ++ (hitAt decode w a).toList)
      else some results := by
  rw [parseFrom]
  split
  · rw [strFrom_append]
    cases hsides : splitOnceText linkMarker rest with
    | none => simp [find, hsides]
    | some sides =>
        obtain ⟨b, a⟩ := sides
        have hrest : rest = b ++ (linkMarker ++ a) := by
          rw [← List.append_assoc]
          exact splitOnceText_eq_some hsides
        have hslice : slice (seen ++ rest) (byteLen seen + byteLen b - 200)
            (byteLen seen + byteLen b) = window (seen ++ b) := by
          rw [hrest, ← List.append_assoc, ← byteLen_append, slice_window]
        have hbehind : strFrom (seen ++ rest) (byteLen seen + byteLen b + byteLen linkMarker) =
            some a := by
          rw [hrest, ← byteLen_append, ← byteLen_append, ← List.append_assoc, ← List.append_assoc,
            strFrom_append]
        have hlen : byteLen seen + byteLen b + byteLen linkMarker =
            byteLen (seen ++ b ++ linkMarker) := by
          rw [byteLen_append, byteLen_append]
        simp only [find, hsides, Option.map_some, hslice, hbehind]
        rw [hlen]
        cases window (seen ++ b) <;> rfl
  · rfl

/-- One byte behind a place there is a boundary just when a one-byte character is there. -/
theorem strFrom_succ_eq_some_iff :
    strFrom (s ++ a) (byteLen s + 1) = some t ↔ ∃ c, a = c :: t ∧ c.utf8Size = 1 := by
  constructor
  · intro h
    obtain ⟨⟨p, q⟩, hcut, rfl⟩ := Option.map_eq_some_iff.mp h
    obtain ⟨heq, hlen⟩ := cutAt_eq_some_iff.mp hcut
    rcases List.append_eq_append_iff.mp heq with ⟨d, rfl, rfl⟩ | ⟨d, rfl, -⟩
    · rw [byteLen_append] at hlen
      cases d with
      | nil => simp at hlen
      | cons c d =>
          have hpos := c.utf8Size_pos
          rw [byteLen_cons] at hlen
          have hd : d = [] := by
            by_contra hne
            have := byteLen_pos_iff.mpr hne
            omega
          subst hd
          exact ⟨c, rfl, by rw [byteLen_nil] at hlen; omega⟩
    · rw [byteLen_append] at hlen
      omega
  · rintro ⟨c, rfl, hc⟩
    have hsplit : s ++ c :: t = (s ++ [c]) ++ t := by simp
    have hlen : byteLen s + 1 = byteLen (s ++ [c]) := by simp [hc]
    rw [hsplit, hlen, strFrom_append]

/-- A round goes on behind the one-byte character at its marker. -/
theorem parseFrom_link (h : splitOnceText linkMarker rest = some (b, c :: a))
    (hc : c.utf8Size = 1) (hw : window (seen ++ b) = some w) (hlt : results.length < max) :
    parseFrom decode (seen ++ rest) max (byteLen seen) results =
      parseFrom decode (seen ++ b ++ linkMarker ++ [c] ++ a) max
        (byteLen (seen ++ b ++ linkMarker ++ [c]))
        (results ++ (hitAt decode w (c :: a)).toList) := by
  have htext : seen ++ rest = seen ++ b ++ linkMarker ++ [c] ++ a := by
    rw [splitOnceText_eq_some h]
    simp
  have hlen : byteLen (seen ++ b ++ linkMarker ++ [c]) = byteLen (seen ++ b ++ linkMarker) + 1 := by
    rw [byteLen_append, byteLen_cons, hc, byteLen_nil]
  rw [parseFrom_eq, if_pos hlt, h]
  simp only [hw]
  rw [hlen, htext]

theorem scans_done_iff (h : splitOnceText linkMarker rest = none) :
    Scans decode seen rest es ↔ es = [] := by
  constructor
  · intro hscan
    cases hscan with
    | done => rfl
    | link hsome => rw [h] at hsome; cases hsome
  · rintro rfl
    exact .done h

theorem scans_link_iff (h : splitOnceText linkMarker rest = some (b, c :: a))
    (hc : c.utf8Size = 1) :
    Scans decode seen rest es ↔
      ∃ w es', window (seen ++ b) = some w ∧
        Scans decode (seen ++ b ++ linkMarker ++ [c]) a es' ∧
        es = hitAt decode w (c :: a) :: es' := by
  constructor
  · intro hscan
    cases hscan with
    | done hnone => rw [h] at hnone; cases hnone
    | link hsome _ hw hs =>
        rw [h] at hsome
        cases hsome
        exact ⟨_, _, hw, hs, rfl⟩
  · rintro ⟨w, es', hw, hs, rfl⟩
    exact .link h hc hw hs

/-- A scan to the end gives the hits in order, as many as are asked for. -/
theorem Scans.parseFrom_eq (h : Scans decode seen rest es) (hle : results.length ≤ max) :
    parseFrom decode (seen ++ rest) max (byteLen seen) results =
      some (results ++ (es.filterMap id).take (max - results.length)) := by
  induction h generalizing results with
  | done h =>
      rw [ToolsCore.parseFrom_eq, h]
      simp
  | @link seen rest b a w c es h hc hw _ ih =>
      by_cases hlt : results.length < max
      · rw [parseFrom_link h hc hw hlt]
        cases hhit : hitAt decode w (c :: a) with
        | none =>
            rw [Option.toList_none, List.append_nil, ih hle]
            rfl
        | some hit =>
            have hone : (results ++ (some hit).toList).length = results.length + 1 := by simp
            have hroom : max - results.length = (max - (results.length + 1)) + 1 := by omega
            rw [ih (by omega), hone, List.filterMap_cons, hroom]
            simp
      · rw [ToolsCore.parseFrom_eq, if_neg hlt, Nat.sub_eq_zero_of_le (by omega), List.take_zero,
          List.append_nil]

/-! ## §4  Panics -/

theorem scans_of_slicesOk (decode : List Char → Option (List Char)) (h : SlicesOk seen rest) :
    ∃ es, Scans decode seen rest es := by
  generalize hn : rest.length = n
  induction n using Nat.strongRecOn generalizing seen rest with
  | ind n ih =>
      cases hsides : splitOnceText linkMarker rest with
      | none => exact ⟨[], .done hsides⟩
      | some sides =>
          obtain ⟨b, behind⟩ := sides
          obtain ⟨hb, c, a, rfl, hc⟩ := h _ _ (.here hsides)
          obtain ⟨w, hw⟩ := Option.ne_none_iff_exists'.mp
            (fun hnone => window_eq_none_iff.mp hnone hb)
          have hlen := congrArg List.length (splitOnceText_eq_some hsides)
          simp only [List.length_append, List.length_cons] at hlen
          have hrest : SlicesOk (seen ++ b ++ linkMarker ++ [c]) a :=
            fun before behind hv => h before behind (.later hsides hc hv)
          obtain ⟨es, hes⟩ := ih a.length (by omega) hrest rfl
          exact ⟨_, .link hsides hc hw hes⟩

theorem Scans.slicesOk (h : Scans decode seen rest es) : SlicesOk seen rest := by
  induction h with
  | done h =>
      intro before behind hv
      cases hv with
      | here h' => rw [h] at h'; cases h'
      | later h' _ _ => rw [h] at h'; cases h'
  | link h hc hw _ ih =>
      intro before behind hv
      cases hv with
      | here h' =>
          rw [h] at h'
          cases h'
          refine ⟨?_, _, _, rfl, hc⟩
          by_contra hb
          rw [window_eq_none_iff.mpr hb] at hw
          cases hw
      | later h' _ hv =>
          rw [h] at h'
          cases h'
          exact ih before behind hv

/-- Where enough is asked for, a scan that does not panic goes to the end. -/
theorem scans_of_parseFrom
    (h : parseFrom decode (seen ++ rest) max (byteLen seen) results ≠ none)
    (hmax : results.length + rest.length < max) : ∃ es, Scans decode seen rest es := by
  generalize hn : rest.length = n
  induction n using Nat.strongRecOn generalizing seen rest results with
  | ind n ih =>
      have hlt : results.length < max := by omega
      cases hsides : splitOnceText linkMarker rest with
      | none => exact ⟨[], .done hsides⟩
      | some sides =>
          obtain ⟨b, behind⟩ := sides
          have hrest := splitOnceText_eq_some hsides
          have hlen := congrArg List.length hrest
          simp only [List.length_append] at hlen
          have hmarker : linkMarker.length = 17 := by decide
          have hgo := h
          rw [parseFrom_eq, if_pos hlt, hsides] at hgo
          cases hw : window (seen ++ b) with
          | none => simp [hw] at hgo
          | some w =>
              simp only [hw] at hgo
              have hmore : (results ++ (hitAt decode w behind).toList).length ≤
                  results.length + 1 := by
                cases hitAt decode w behind <;> simp
              -- the search goes on, so there is a boundary one byte behind the marker
              have hnext : ∃ a, strFrom (seen ++ rest)
                  (byteLen (seen ++ b ++ linkMarker) + 1) = some a := by
                rw [parseFrom, if_pos (by omega)] at hgo
                refine Option.ne_none_iff_exists'.mp (fun hnone => ?_)
                rw [hnone] at hgo
                exact hgo rfl
              obtain ⟨a, ha⟩ := hnext
              have htext : seen ++ rest = seen ++ b ++ linkMarker ++ behind := by
                rw [hrest]
                simp
              rw [htext, strFrom_succ_eq_some_iff] at ha
              obtain ⟨c, rfl, hc⟩ := ha
              rw [List.length_cons] at hlen
              rw [parseFrom_link hsides hc hw hlt] at h
              obtain ⟨es, hes⟩ := ih a.length (by omega) h (by omega) rfl
              exact ⟨_, .link hsides hc hw hes⟩

/-- A page is scanned without a panic, whatever is asked for, just when the slices at every
marker that the scan comes to are between characters. -/
theorem parseDdgResults_total_iff {html : String} :
    (∀ max, ∃ out, parseDdgResults decode html max = some out ∧ out.length ≤ max) ↔
      SlicesOk [] html.toList := by
  constructor
  · intro h
    obtain ⟨out, hout, -⟩ := h (html.toList.length + 1)
    have hsome : parseFrom decode ([] ++ html.toList) (html.toList.length + 1) (byteLen [])
        [] ≠ none := by
      rw [List.nil_append]
      change parseDdgResults decode html _ ≠ none
      rw [hout]
      exact Option.some_ne_none _
    obtain ⟨es, hes⟩ := scans_of_parseFrom hsome (by simp)
    exact hes.slicesOk
  · intro h max
    obtain ⟨es, hes⟩ := scans_of_slicesOk decode h
    refine ⟨_, hes.parseFrom_eq (Nat.zero_le max), ?_⟩
    rw [List.nil_append, List.length_take]
    exact Nat.min_le_left _ _

end Oclaw.ToolsCore
