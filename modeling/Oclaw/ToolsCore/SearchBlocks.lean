import Mathlib.Data.List.Nodup
import Oclaw.Lib.Marked
import Oclaw.ToolsCore.SearchResults

/-!
# Result blocks and their entries

A page of results is a sequence of blocks, each with the anchor of a title and perhaps that
of a snippet. `parse_ddg_results` finds the three parts of an entry on its own: the title
behind the class, the address in the 200 bytes before it, and the snippet behind the next
`class="result__snippet"`, in whatever block that is. So an address that is behind the class,
as in the comment on the function, is not found, and the last one before it is taken.
-/

namespace Oclaw.ToolsCore

open Oclaw.Lib

/-! ## §1  Pages of blocks -/

/-- Attributes of a tag. If there are any, they begin with whitespace. -/
structure Attributes : Type where
  text : List Char
  spaced : ∀ c ∈ text.head?, c ∈ [' ', '\t', '\n', '\r', Char.ofNat 12]

structure SnippetAnchor : Type where
  gap : List Char
  pre : Attributes
  post : Attributes
  content : List Char

def SnippetAnchor.before (s : SnippetAnchor) : List Char := s.gap ++ ("<a".toList ++ s.pre.text)

def SnippetAnchor.behind (s : SnippetAnchor) : List Char :=
  s.post.text ++ '>' :: (s.content ++ "</a>".toList)

/-- A result: an anchor with the class and an `href`, whichever is first, a title without
tags, and perhaps the anchor of a snippet. -/
structure Block : Type where
  lead : List Char
  pre : Attributes
  mid : Attributes
  post : Attributes
  hrefFirst : Bool
  url : List Char
  title : List Char
  snippet : Option SnippetAnchor
  quoted : '"' ∉ url
  tagFree : '<' ∉ title

namespace Block

def href (b : Block) : List Char := attrPattern "href" ++ (b.url ++ ['"'])

/-- What is before the class. -/
def opening (b : Block) : List Char :=
  b.lead ++ ("<a".toList ++ (b.pre.text ++ if b.hrefFirst then b.href ++ b.mid.text else []))

/-- What is behind the class in its tag. -/
def tagRest (b : Block) : List Char :=
  if b.hrefFirst then b.post.text else b.mid.text ++ (b.href ++ b.post.text)

/-- What is behind the class in the anchor. -/
def anchorRest (b : Block) : List Char := b.tagRest ++ '>' :: (b.title ++ "</a>".toList)

/-- What is behind the class. -/
def closing (b : Block) : List Char :=
  match b.snippet with
  | none => b.anchorRest
  | some s => b.anchorRest ++ (s.before ++ (snippetMarker ++ s.behind))

/-- The text of the snippet, if there is one. -/
def content (b : Block) : List Char := (b.snippet.map SnippetAnchor.content).getD []

def render (b : Block) : List Char := b.opening ++ (linkMarker ++ b.closing)

/-- The text between the two classes of a block. -/
def inner (b : Block) : List (List Char) :=
  match b.snippet with
  | none => []
  | some s => [b.anchorRest ++ s.before]

/-- What is behind the last class of a block. -/
def last (b : Block) : List Char :=
  match b.snippet with
  | none => b.anchorRest
  | some s => s.behind

end Block

def renderAll (bs : List Block) : List Char := bs.flatMap Block.render

/-- The texts between the classes of the anchors. -/
def stretches (trail carried : List Char) : List Block → List (List Char)
  | [] => [carried ++ trail]
  | b :: bs => (carried ++ b.opening) :: (b.inner ++ stretches trail b.last bs)

def Quiet (s : List Char) : Prop := FreeOf linkMarker s ∧ FreeOf snippetMarker s

/-- A sequence of blocks. The classes are those of their anchors and nowhere else. -/
structure Page : Type where
  blocks : List Block
  trail : List Char
  quiet : ∀ s ∈ stretches trail [] blocks, Quiet s

def Page.text (page : Page) : List Char := renderAll page.blocks ++ page.trail

/-! ## §2  What an entry is taken from -/

/-- The value of the last `href` of a text. -/
def LastHref (w v : List Char) : Prop :=
  ∃ a b, w = a ++ (attrPattern "href" ++ (v ++ '"' :: b)) ∧ '"' ∉ v ∧
    FreeOf (attrPattern "href") (v ++ '"' :: b)

def Block.titleText (b : Block) : List Char := (extractTagText b.anchorRest).getD []

def SnippetAnchor.shown (s : SnippetAnchor) : List Char := (extractTagText s.behind).getD []

/-- What the first of the snippets shows. -/
def snippetText (bs : List Block) : List Char :=
  ((bs.findSome? Block.snippet).map SnippetAnchor.shown).getD []

section Entries

variable (decode : List Char → Option (List Char))

/-- The entry with the title, the address and the snippet of the block, the two texts trimmed
and without tags. -/
def Block.entry (b : Block) : SearchHit where
  title := String.ofList (stripHtmlTags (trimChars b.title))
  url := String.ofList (resolveUrl decode b.url)
  snippet := String.ofList (stripHtmlTags (trimChars b.content))

/-- There is an entry for a block, from the bytes before its class. -/
def Listed (w : List Char) (b : Block) : Prop :=
  b.titleText ≠ [] ∧ ∃ v, LastHref w v ∧ resolveUrl decode v ≠ []

/-- The entry for `b`, with `bs` behind it, shows the title, the address and the snippet of
`b'`: its own title is that of `b'`, the last `href` of the bytes before its class leads where
that of `b'` does, and the first snippet from it on is that of `b'`. -/
structure Bears (w : List Char) (b : Block) (bs : List Block) (b' : Block) : Prop where
  listed : b.titleText ≠ []
  title : stripHtmlTags b.titleText = stripHtmlTags (trimChars b'.title)
  url : ∃ v, LastHref w v ∧ resolveUrl decode v ≠ [] ∧
    resolveUrl decode v = resolveUrl decode b'.url
  snippet : stripHtmlTags (snippetText (b :: bs)) = stripHtmlTags (trimChars b'.content)

/-- The blocks behind `seen` that have an entry bear those of blocks of the second list, in
order, and the 200 bytes before each class begin between characters. -/
inductive Shows : List Char → List Block → List Block → Prop where
  | done {seen : List Char} {bs' : List Block} : Shows seen [] bs'
  | skip {seen : List Char} {bs bs' : List Block} {b' : Block} (h : Shows seen bs bs') :
      Shows seen bs (b' :: bs')
  | hidden {seen w : List Char} {bs bs' : List Block} {b : Block}
      (hw : window (seen ++ b.opening) = some w) (hb : ¬ Listed decode w b)
      (h : Shows (seen ++ b.render) bs bs') : Shows seen (b :: bs) bs'
  | borne {seen w : List Char} {bs bs' : List Block} {b b' : Block}
      (hw : window (seen ++ b.opening) = some w) (hb : Bears decode w b bs b')
      (h : Shows (seen ++ b.render) bs bs') : Shows seen (b :: bs) (b' :: bs')

/-- A property of every block behind `seen`, with the 200 bytes before its class and the
blocks behind it. -/
def EachBlock (P : List Char → Block → List Block → Prop) : List Char → List Block → Prop
  | _, [] => True
  | seen, b :: bs =>
      (∃ w, window (seen ++ b.opening) = some w ∧ P w b bs) ∧ EachBlock P (seen ++ b.render) bs

/-- **Entries are attributed**: each of them is that of a block, in the order of the page. -/
def Attributed (page : Page) : Prop :=
  ∀ max, ∃ out, parseDdgResults decode (String.ofList page.text) max = some out ∧
    out.length ≤ max ∧ ∃ bs : List Block, bs.Sublist page.blocks ∧ out = bs.map (Block.entry decode)

/-- Every block has its entry. -/
def EachReturned (page : Page) : Prop :=
  ∀ max, parseDdgResults decode (String.ofList page.text) max =
    some ((page.blocks.map (Block.entry decode)).take max)

end Entries

/-! ## §3  Texts of tags -/

variable {decode : List Char → Option (List Char)} {max : ℕ}
variable {s t u v w x carried trail seen : List Char} {b b' : Block} {bs bs' : List Block}
variable {es : List (Option SearchHit)} {c : Char}

/-- The text of a tag is there as soon as it is closed and followed by another tag. -/
theorem extractTagText_append (h : extractTagText s = some t) (u : List Char) :
    extractTagText (s ++ u) = some t := by
  obtain ⟨⟨a, rest⟩, hopen, h⟩ := Option.bind_eq_some_iff.mp h
  obtain ⟨⟨text, c⟩, hclose, heq⟩ := Option.bind_eq_some_iff.mp h
  obtain ⟨ha, rfl⟩ := splitOnce_eq_some hopen
  obtain ⟨htext, rfl⟩ := splitOnce_eq_some hclose
  have hsplit : a ++ '>' :: (text ++ '<' :: c) ++ u = a ++ '>' :: (text ++ '<' :: (c ++ u)) := by
    simp
  rw [hsplit, extractTagText]
  simp only [splitOnce_joined ha, splitOnce_joined htext, Option.bind_eq_bind, Option.bind_some]
  exact heq

theorem exists_extractTagText (x y z : List Char) :
    ∃ t, extractTagText (x ++ '>' :: (y ++ '<' :: z)) = some t := by
  cases hopen : splitOnce '>' (x ++ '>' :: (y ++ '<' :: z)) with
  | none => exact absurd (by simp) (not_mem_of_splitOnce hopen)
  | some sides =>
      obtain ⟨a, rest⟩ := sides
      obtain ⟨ha, heq⟩ := splitOnce_eq_some hopen
      -- what is behind the first `>` still has the `<`
      have hmem : '<' ∈ rest := by
        rcases List.append_eq_append_iff.mp heq with ⟨d, hd, hrest⟩ | ⟨d, -, hrest⟩
        · cases d with
          | nil =>
              obtain ⟨-, rfl⟩ := List.cons.inj hrest
              simp
          | cons c d =>
              obtain ⟨rfl, -⟩ := List.cons.inj hrest
              exact absurd (by simp [hd]) ha
        · cases d with
          | nil =>
              obtain ⟨-, rfl⟩ := List.cons.inj hrest
              simp
          | cons c d =>
              obtain ⟨-, rfl⟩ := List.cons.inj hrest
              simp
      cases hclose : splitOnce '<' rest with
      | none => exact absurd hmem (not_mem_of_splitOnce hclose)
      | some pieces =>
          refine ⟨trimChars pieces.1, ?_⟩
          rw [extractTagText]
          simp [hopen, hclose]

theorem Block.extractTagText_anchorRest (b : Block) (u : List Char) :
    extractTagText (b.anchorRest ++ u) = some b.titleText := by
  obtain ⟨t, ht⟩ := exists_extractTagText b.tagRest b.title "/a>".toList
  have hrest : extractTagText b.anchorRest = some t := ht
  rw [extractTagText_append hrest, titleText, hrest]
  rfl

theorem SnippetAnchor.extractTagText_behind (s : SnippetAnchor) (u : List Char) :
    extractTagText (s.behind ++ u) = some s.shown := by
  obtain ⟨t, ht⟩ := exists_extractTagText s.post.text s.content "/a>".toList
  have hrest : extractTagText s.behind = some t := ht
  rw [extractTagText_append hrest, shown, hrest]
  rfl

theorem Attributes.exists_cons (a : Attributes) {c : Char} (hc : c.utf8Size = 1)
    (t : List Char) : ∃ d u, a.text ++ c :: t = d :: u ∧ d.utf8Size = 1 := by
  obtain ⟨text, spaced⟩ := a
  cases text with
  | nil => exact ⟨c, t, rfl, hc⟩
  | cons d u =>
      refine ⟨d, u ++ c :: t, rfl, ?_⟩
      have hd := spaced d rfl
      simp only [List.mem_cons, List.not_mem_nil, or_false] at hd
      rcases hd with rfl | rfl | rfl | rfl | rfl <;> rfl

/-- A one-byte character is behind a class. -/
theorem Block.exists_cons_closing (b : Block) : ∃ c t, b.closing = c :: t ∧ c.utf8Size = 1 := by
  have hrest : ∃ c t, b.anchorRest = c :: t ∧ c.utf8Size = 1 := by
    rw [anchorRest, tagRest]
    split
    · exact b.post.exists_cons (by decide) _
    · obtain ⟨c, t, ht, hc⟩ := b.mid.exists_cons (c := 'h') (by decide)
        ("ref=\"".toList ++ (b.url ++ ['"']) ++ b.post.text)
      have hhref : b.mid.text ++ (b.href ++ b.post.text) = c :: t := ht
      rw [hhref]
      exact ⟨c, _, rfl, hc⟩
  obtain ⟨c, t, ht, hc⟩ := hrest
  rw [closing]
  cases b.snippet with
  | none => exact ⟨c, t, ht, hc⟩
  | some s => exact ⟨c, t ++ (s.before ++ (snippetMarker ++ s.behind)), by simp [ht], hc⟩

/-! ## §4  The scan of a page -/

theorem linkMarker_marked : MarkedBy 'c' linkMarker :=
  ⟨"lass=\"result__a\"".toList, by decide, by decide⟩

theorem snippetMarker_marked : MarkedBy 'c' snippetMarker :=
  ⟨"lass=\"result__snippet\"".toList, by decide, by decide⟩

theorem link_not_prefix : ¬ linkMarker <+: snippetMarker := by decide

theorem snippet_not_prefix : ¬ snippetMarker <+: linkMarker := by decide

theorem quiet_cons_iff : (∀ s ∈ stretches trail carried (b :: bs), Quiet s) ↔
    Quiet (carried ++ b.opening) ∧ (∀ s ∈ b.inner, Quiet s) ∧
      ∀ s ∈ stretches trail b.last bs, Quiet s := by
  simp [stretches, or_imp, forall_and]

@[simp] theorem renderAll_cons :
    renderAll (b :: bs) = b.opening ++ (linkMarker ++ (b.closing ++ renderAll bs)) := by
  simp [renderAll, Block.render]

/-! ### Snippets -/

theorem snippetOf_of_free (h : FreeOf snippetMarker s) : snippetOf s = [] := by
  rw [snippetOf, (splitOnceText_eq_none_iff snippetMarker_marked.ne_nil).mpr h]

theorem snippetOf_at (h : FreeOf snippetMarker s) (t : List Char) :
    snippetOf (s ++ (snippetMarker ++ t)) = (extractTagText t).getD [] := by
  rw [snippetOf, snippetMarker_marked.splitOnceText_eq h]

theorem snippetOf_past (h : FreeOf snippetMarker s) (t : List Char) :
    snippetOf (s ++ (linkMarker ++ t)) = snippetOf t := by
  rw [snippetOf, snippetMarker_marked.splitOnceText_past linkMarker_marked snippet_not_prefix
    link_not_prefix h, snippetOf]
  cases splitOnceText snippetMarker t <;> rfl

/-- Behind a class, the first snippet is that of its block or else that of a later one. -/
theorem snippetOf_closing (hinner : ∀ s ∈ b.inner, Quiet s)
    (hlast : snippetOf (b.last ++ t) = snippetText bs) :
    snippetOf (b.closing ++ t) = snippetText (b :: bs) := by
  rw [Block.closing]
  rw [Block.last] at hlast
  rw [Block.inner] at hinner
  cases hs : b.snippet with
  | none =>
      rw [hs] at hlast
      rw [snippetText, List.findSome?_cons, hs]
      exact hlast
  | some s =>
      rw [hs] at hinner
      have hfree := (hinner _ List.mem_cons_self).2
      rw [snippetText, List.findSome?_cons, hs]
      have htext : b.anchorRest ++ (s.before ++ (snippetMarker ++ s.behind)) ++ t =
          b.anchorRest ++ s.before ++ (snippetMarker ++ (s.behind ++ t)) := by simp
      rw [htext, snippetOf_at hfree, s.extractTagText_behind]
      rfl

theorem snippetOf_rest (h : ∀ s ∈ stretches trail carried bs, Quiet s) :
    snippetOf (carried ++ (renderAll bs ++ trail)) = snippetText bs := by
  induction bs generalizing carried with
  | nil => exact snippetOf_of_free (h _ List.mem_cons_self).2
  | cons b bs ih =>
      obtain ⟨hopening, hinner, hrest⟩ := quiet_cons_iff.mp h
      have htext : carried ++ (renderAll (b :: bs) ++ trail) =
          carried ++ b.opening ++ (linkMarker ++ (b.closing ++ (renderAll bs ++ trail))) := by
        simp
      rw [htext, snippetOf_past hopening.2]
      exact snippetOf_closing hinner (ih hrest)

/-! ### Entries -/

/-- What is made of a block, with `bs` behind it, from the bytes before its class. -/
def made (decode : List Char → Option (List Char)) (w : List Char) (b : Block)
    (bs : List Block) : Option SearchHit :=
  let href := (extractAttr w "href").getD []
  if resolveUrl decode href ≠ [] ∧ b.titleText ≠ [] then
    some ⟨String.ofList (stripHtmlTags b.titleText), String.ofList (resolveUrl decode href),
      String.ofList (stripHtmlTags (snippetText (b :: bs)))⟩
  else none

/-- What is made of the blocks behind `seen`. -/
inductive Takes (decode : List Char → Option (List Char)) :
    List Char → List Block → List (Option SearchHit) → Prop where
  | nil {seen : List Char} : Takes decode seen [] []
  | cons {seen w : List Char} {b : Block} {bs : List Block} {es : List (Option SearchHit)}
      (hw : window (seen ++ b.opening) = some w) (h : Takes decode (seen ++ b.render) bs es) :
      Takes decode seen (b :: bs) (made decode w b bs :: es)

theorem takes_nil_iff : Takes decode seen [] es ↔ es = [] := by
  constructor
  · intro h
    cases h
    rfl
  · rintro rfl
    exact .nil

theorem takes_cons_iff :
    Takes decode seen (b :: bs) es ↔
      ∃ w es', window (seen ++ b.opening) = some w ∧ Takes decode (seen ++ b.render) bs es' ∧
        es = made decode w b bs :: es' := by
  constructor
  · intro h
    cases h with
    | cons hw h => exact ⟨_, _, hw, h, rfl⟩
  · rintro ⟨w, es', hw, h, rfl⟩
    exact .cons hw h

theorem Block.extractTagText_closing (b : Block) (u : List Char) :
    extractTagText (b.closing ++ u) = some b.titleText := by
  rw [closing]
  cases b.snippet with
  | none => exact b.extractTagText_anchorRest u
  | some s =>
      rw [List.append_assoc]
      exact b.extractTagText_anchorRest _

theorem hitAt_closing (hinner : ∀ s ∈ b.inner, Quiet s)
    (h : ∀ s ∈ stretches trail b.last bs, Quiet s) :
    hitAt decode w (b.closing ++ (renderAll bs ++ trail)) = made decode w b bs := by
  rw [hitAt, b.extractTagText_closing, snippetOf_closing hinner (snippetOf_rest h)]
  rfl

/-- There is no class in a block behind its own. -/
theorem Block.freeOf_closing {y : List Char} (hinner : ∀ s ∈ b.inner, Quiet s)
    (hy : FreeOf linkMarker (b.last ++ y)) : FreeOf linkMarker (b.closing ++ y) := by
  rw [closing]
  rw [last] at hy
  rw [inner] at hinner
  cases hs : b.snippet with
  | none =>
      rw [hs] at hy
      exact hy
  | some s =>
      rw [hs] at hy hinner
      have htext : b.anchorRest ++ (s.before ++ (snippetMarker ++ s.behind)) ++ y =
          b.anchorRest ++ s.before ++ (snippetMarker ++ (s.behind ++ y)) := by simp
      rw [htext]
      exact linkMarker_marked.freeOf_between snippetMarker_marked link_not_prefix
        snippet_not_prefix (hinner _ List.mem_cons_self).1 hy

/-- **The scan of a page** comes to the class of each block in turn. The text `x` is that
behind the last class, which brings no other one together. -/
theorem scans_iff_takes (hx : ∀ y, FreeOf linkMarker (carried ++ y) → FreeOf linkMarker (x ++ y))
    (h : ∀ s ∈ stretches trail carried bs, Quiet s) :
    Scans decode seen (x ++ (renderAll bs ++ trail)) es ↔ Takes decode (seen ++ x) bs es := by
  induction bs generalizing seen x carried es with
  | nil =>
      have hnone : splitOnceText linkMarker (x ++ (renderAll [] ++ trail)) = none :=
        (splitOnceText_eq_none_iff linkMarker_ne_nil).mpr (hx _ (h _ List.mem_cons_self).1)
      rw [scans_done_iff hnone, takes_nil_iff]
  | cons b bs ih =>
      obtain ⟨hopening, hinner, hrest⟩ := quiet_cons_iff.mp h
      obtain ⟨c, cl, hclosing, hc⟩ := b.exists_cons_closing
      have hsides : splitOnceText linkMarker (x ++ (renderAll (b :: bs) ++ trail)) =
          some (x ++ b.opening, c :: (cl ++ (renderAll bs ++ trail))) := by
        rw [← linkMarker_marked.splitOnceText_eq (hx _ hopening.1), renderAll_cons, hclosing]
        simp
      have hhit : ∀ w, hitAt decode w (c :: (cl ++ (renderAll bs ++ trail))) =
          made decode w b bs := by
        intro w
        rw [← hitAt_closing hinner hrest, hclosing]
        rfl
      have hbehind : ∀ y, FreeOf linkMarker (b.last ++ y) → FreeOf linkMarker (cl ++ y) := by
        intro y hy
        have hfree := Block.freeOf_closing hinner hy
        rw [hclosing] at hfree
        exact hfree.of_part (List.suffix_cons c _).isInfix
      have hseen : seen ++ (x ++ b.opening) ++ linkMarker ++ [c] ++ cl = seen ++ x ++ b.render := by
        rw [Block.render, hclosing]
        simp
      rw [scans_link_iff hsides hc, takes_cons_iff, List.append_assoc seen x b.opening]
      simp only [hhit, ih hbehind hrest, hseen]

/-! ## §5  What an entry bears -/

theorem href_marked : MarkedBy 'h' (attrPattern "href") :=
  ⟨"ref=\"".toList, by decide, by decide⟩

/-- What is found is the last `href`, if it is closed. -/
theorem extractAttr_href_iff : extractAttr w "href" = some v ↔ LastHref w v := by
  constructor
  · intro h
    obtain ⟨start, hstart, h⟩ := Option.bind_eq_some_iff.mp h
    obtain ⟨p, q, rfl, rfl, hlast⟩ := href_marked.rfind_eq_some_iff.mp hstart
    obtain ⟨rest, hrest, h⟩ := Option.bind_eq_some_iff.mp h
    rw [← byteLen_append, ← List.append_assoc, strFrom_append] at hrest
    cases hrest
    obtain ⟨⟨value, b⟩, hvalue, heq⟩ := Option.bind_eq_some_iff.mp h
    cases heq
    obtain ⟨hquote, rfl⟩ := splitOnce_eq_some hvalue
    exact ⟨p, b, rfl, hquote, hlast⟩
  · rintro ⟨a, b, rfl, hquote, hlast⟩
    have hstart := href_marked.rfind_eq_some_iff.mpr ⟨a, v ++ '"' :: b, rfl, rfl, hlast⟩
    rw [extractAttr, hstart]
    simp only [Option.bind_eq_bind, Option.bind_some]
    rw [← byteLen_append, ← List.append_assoc, strFrom_append]
    simp only [Option.bind_some, splitOnce_joined hquote]

theorem resolveUrl_nil : resolveUrl decode [] = [] := rfl

/-- What is resolved is that of the last `href`, or else it is empty. -/
theorem resolve_found_iff {P : List Char → Prop} (hP : ¬ P []) :
    P (resolveUrl decode ((extractAttr w "href").getD [])) ↔
      ∃ v, LastHref w v ∧ P (resolveUrl decode v) := by
  simp only [← extractAttr_href_iff]
  cases extractAttr w "href" with
  | none => simpa [resolveUrl_nil] using hP
  | some v => simp

theorem made_eq_none_iff : made decode w b bs = none ↔ ¬ Listed decode w b := by
  have hfound : resolveUrl decode ((extractAttr w "href").getD []) ≠ [] ↔
      ∃ v, LastHref w v ∧ resolveUrl decode v ≠ [] :=
    resolve_found_iff (P := (· ≠ [])) (by simp)
  rw [Listed, ← hfound, made]
  simp only [ite_eq_right_iff, reduceCtorEq, imp_false]
  rw [and_comm]

theorem made_eq_entry_iff : made decode w b bs = some (b'.entry decode) ↔
    Bears decode w b bs b' := by
  have hfound : (resolveUrl decode ((extractAttr w "href").getD []) ≠ [] ∧
      resolveUrl decode ((extractAttr w "href").getD []) = resolveUrl decode b'.url) ↔
      ∃ v, LastHref w v ∧ resolveUrl decode v ≠ [] ∧
        resolveUrl decode v = resolveUrl decode b'.url :=
    resolve_found_iff (P := fun u => u ≠ [] ∧ u = resolveUrl decode b'.url) (by simp)
  constructor
  · intro h
    rw [made] at h
    split at h
    · rename_i hlisted
      obtain ⟨htitle, hurl, hsnippet⟩ := SearchHit.mk.inj (Option.some.inj h)
      rw [String.ofList_inj] at htitle hurl hsnippet
      exact ⟨hlisted.2, htitle, hfound.mp ⟨hlisted.1, hurl⟩, hsnippet⟩
    · cases h
  · rintro ⟨hlisted, htitle, hurl, hsnippet⟩
    obtain ⟨hne, hurl⟩ := hfound.mpr hurl
    rw [made, if_pos ⟨hne, hlisted⟩, Block.entry, htitle, hurl, hsnippet]

/-! ### Entries of blocks -/

theorem Takes.length_eq (h : Takes decode seen bs es) : es.length = bs.length := by
  induction h with
  | nil => rfl
  | cons _ _ ih => rw [List.length_cons, List.length_cons, ih]

/-- The entries that are listed are those of blocks, in order, just when the blocks show
them. -/
theorem shows_iff : Shows decode seen bs bs' ↔
    ∃ es, Takes decode seen bs es ∧
      (es.filterMap id).Sublist (bs'.map (Block.entry decode)) := by
  constructor
  · intro h
    induction h with
    | done => exact ⟨[], .nil, List.nil_sublist _⟩
    | skip _ ih =>
        obtain ⟨es, hes, hsub⟩ := ih
        exact ⟨es, hes, hsub.cons _⟩
    | hidden hw hb _ ih =>
        obtain ⟨es, hes, hsub⟩ := ih
        refine ⟨_, .cons hw hes, ?_⟩
        rw [made_eq_none_iff.mpr hb]
        exact hsub
    | borne hw hb _ ih =>
        obtain ⟨es, hes, hsub⟩ := ih
        refine ⟨_, .cons hw hes, ?_⟩
        rw [made_eq_entry_iff.mpr hb]
        exact hsub.cons_cons _
  · rintro ⟨es, hes, hsub⟩
    induction hes generalizing bs' with
    | nil => exact .done
    | @cons seen w b bs es hw _ ih =>
        cases hmade : made decode w b bs with
        | none =>
            rw [hmade] at hsub
            exact .hidden hw (made_eq_none_iff.mp hmade) (ih hsub)
        | some hit =>
            rw [hmade] at hsub
            -- the blocks of the second list up to the one with this entry have none
            induction bs' with
            | nil => cases hsub
            | cons b' bs' ihs =>
                change (hit :: es.filterMap id).Sublist (b'.entry decode :: _) at hsub
                cases hsub with
                | cons _ hsub => exact .skip (ihs hsub)
                | cons_cons _ hsub => exact .borne hw (made_eq_entry_iff.mp hmade) (ih hsub)

/-- Where as many are listed as there are blocks, nothing is left out. -/
theorem eq_map_some (h : (es.filterMap id).length = es.length) :
    es = (es.filterMap id).map some := by
  have hsome := List.filterMap_length_eq_length.mp h
  induction es with
  | nil => rfl
  | cons e es ih =>
      obtain ⟨hit, rfl⟩ := Option.isSome_iff_exists.mp (hsome e List.mem_cons_self)
      have hrest := ih (Nat.succ.inj h) fun e he => hsome e (List.mem_cons_of_mem _ he)
      exact congrArg (some hit :: ·) hrest

theorem takes_own_iff :
    Takes decode seen bs (bs.map fun b => some (b.entry decode)) ↔
      EachBlock (fun w b bs => Bears decode w b bs b) seen bs := by
  induction bs generalizing seen with
  | nil => exact ⟨fun _ => trivial, fun _ => .nil⟩
  | cons b bs ih =>
      rw [EachBlock, ← ih, List.map_cons, takes_cons_iff]
      constructor
      · rintro ⟨w, es, hw, h, heq⟩
        obtain ⟨hmade, rfl⟩ := List.cons.inj heq
        exact ⟨⟨w, hw, made_eq_entry_iff.mp hmade.symm⟩, h⟩
      · rintro ⟨⟨w, hw, hb⟩, h⟩
        exact ⟨w, _, hw, h, by rw [made_eq_entry_iff.mpr hb]⟩

/-! ## §6  Attribution -/

variable {page : Page}

theorem scans_page_iff : Scans decode [] page.text es ↔ Takes decode [] page.blocks es := by
  have hquiet := page.quiet
  rw [Page.text]
  generalize page.trail = trail at hquiet ⊢
  exact scans_iff_takes (x := []) (fun _ hy => hy) hquiet

theorem parse_of_takes (h : Takes decode [] page.blocks es) :
    parseDdgResults decode (String.ofList page.text) max = some ((es.filterMap id).take max) := by
  rw [parseDdgResults, String.toList_ofList]
  exact (scans_page_iff.mpr h).parseFrom_eq (Nat.zero_le max)

theorem exists_takes
    (h : ∀ max, parseDdgResults decode (String.ofList page.text) max ≠ none) :
    ∃ es, Takes decode [] page.blocks es := by
  have hall := h (page.text.length + 1)
  rw [parseDdgResults, String.toList_ofList] at hall
  have hscan : ∃ es, Scans decode [] page.text es :=
    scans_of_parseFrom hall (by rw [List.length_nil]; omega)
  obtain ⟨es, hes⟩ := hscan
  exact ⟨es, scans_page_iff.mp hes⟩

theorem attributed_iff_shows :
    Attributed decode page ↔ Shows decode [] page.blocks page.blocks := by
  rw [shows_iff]
  constructor
  · intro h
    have hnever : ∀ max, parseDdgResults decode (String.ofList page.text) max ≠ none := by
      intro max
      obtain ⟨out, hout, -⟩ := h max
      rw [hout]
      exact Option.some_ne_none out
    obtain ⟨es, hes⟩ := exists_takes hnever
    obtain ⟨out, hout, -, bs, hsub, rfl⟩ := h (es.filterMap id).length
    rw [parse_of_takes hes, List.take_length] at hout
    refine ⟨es, hes, ?_⟩
    rw [Option.some.inj hout]
    exact hsub.map _
  · rintro ⟨es, hes, hsub⟩ max
    refine ⟨_, parse_of_takes hes, List.length_take_le _ _, ?_⟩
    exact List.sublist_map_iff.mp ((List.take_sublist max _).trans hsub)

theorem eachReturned_iff : EachReturned decode page ↔
    EachBlock (fun w b bs => Bears decode w b bs b) [] page.blocks := by
  rw [← takes_own_iff]
  constructor
  · intro h
    have hnever : ∀ max, parseDdgResults decode (String.ofList page.text) max ≠ none := by
      intro max
      rw [h max]
      exact Option.some_ne_none _
    obtain ⟨es, hes⟩ := exists_takes hnever
    have hout := h ((es.filterMap id).length + page.blocks.length)
    rw [parse_of_takes hes, List.take_of_length_le (by omega),
      List.take_of_length_le (by simp)] at hout
    have hall := Option.some.inj hout
    have hlen : (es.filterMap id).length = es.length := by
      rw [hall, List.length_map, hes.length_eq]
    have hown := eq_map_some hlen
    rw [hall, List.map_map] at hown
    rw [hown] at hes
    exact hes
  · intro h max
    rw [parse_of_takes h, List.filterMap_map]
    congr 2
    exact congrFun List.filterMap_eq_map page.blocks

/-! ### Titles that are all different -/

theorem extractTagText_eq (hs : '>' ∉ s) (ht : '<' ∉ t) (u : List Char) :
    extractTagText (s ++ '>' :: (t ++ '<' :: u)) = some (trimChars t) := by
  rw [extractTagText]
  simp only [splitOnce_joined hs, splitOnce_joined ht, Option.bind_eq_bind, Option.bind_some]

/-- In a tag without a `>` of its own, the title is what is taken for it. -/
theorem Block.titleText_eq (h : '>' ∉ b.tagRest) : b.titleText = trimChars b.title := by
  have htitle : extractTagText b.anchorRest = some (trimChars b.title) :=
    extractTagText_eq h b.tagFree "/a>".toList
  rw [titleText, htitle]
  rfl

theorem Shows.eachBlock (h : Shows decode seen bs bs')
    (hsame : ∀ b ∈ bs, ∀ b' ∈ bs',
      stripHtmlTags b.titleText = stripHtmlTags (trimChars b'.title) → b' = b) :
    EachBlock (fun w b bs => Listed decode w b → Bears decode w b bs b) seen bs := by
  induction h with
  | done => trivial
  | skip _ ih => exact ih fun b hb b' hb' => hsame b hb b' (List.mem_cons_of_mem _ hb')
  | hidden hw hb _ ih =>
      refine ⟨⟨_, hw, fun hlisted => absurd hlisted hb⟩, ih fun b hb b' hb' => ?_⟩
      exact hsame b (List.mem_cons_of_mem _ hb) b' hb'
  | borne hw hb _ ih =>
      have heq := hsame _ List.mem_cons_self _ List.mem_cons_self hb.title
      refine ⟨⟨_, hw, fun _ => by rw [heq] at hb; exact hb⟩, ih fun b hb b' hb' => ?_⟩
      exact hsame b (List.mem_cons_of_mem _ hb) b' (List.mem_cons_of_mem _ hb')

theorem shows_of_eachBlock
    (h : EachBlock (fun w b bs => Listed decode w b → Bears decode w b bs b) seen bs) :
    Shows decode seen bs bs := by
  induction bs generalizing seen with
  | nil => exact .done
  | cons b bs ih =>
      obtain ⟨⟨w, hw, hb⟩, hrest⟩ := h
      by_cases hlisted : Listed decode w b
      · exact .borne hw (hb hlisted) (ih hrest)
      · exact .skip (.hidden hw hlisted (ih hrest))

/-- Where the titles are all different, a block that has an entry bears its own. -/
theorem attributed_iff_of_nodup (htags : ∀ b ∈ page.blocks, '>' ∉ b.tagRest)
    (hnodup : (page.blocks.map fun b => stripHtmlTags (trimChars b.title)).Nodup) :
    Attributed decode page ↔
      EachBlock (fun w b bs => Listed decode w b → Bears decode w b bs b) [] page.blocks := by
  rw [attributed_iff_shows]
  refine ⟨fun h => h.eachBlock fun b hb b' hb' htitle => ?_, shows_of_eachBlock⟩
  rw [Block.titleText_eq (htags b hb)] at htitle
  exact List.inj_on_of_nodup_map hnodup hb' hb htitle.symm

/-! ### Usual pages -/

/-- A whole block with its `href` first and near the class, and with a snippet that is one
text. -/
structure Usual (decode : List Char → Option (List Char)) (b : Block) : Prop where
  hrefFirst : b.hrefFirst = true
  near : byteLen (b.href ++ b.mid.text) ≤ 200
  only : FreeOf (attrPattern "href") (b.url ++ '"' :: b.mid.text)
  plain : '>' ∉ b.post.text
  title : trimChars b.title ≠ []
  url : resolveUrl decode b.url ≠ []
  snippet : ∃ s, b.snippet = some s ∧ '>' ∉ s.post.text ∧ '<' ∉ s.content

/-- The last 200 bytes of a text are all that is no longer. -/
theorem isSuffix_window (h : window (s ++ t) = some w) (hle : byteLen t ≤ 200) : t <:+ w := by
  obtain ⟨⟨p, q⟩, hcut, rfl⟩ := Option.map_eq_some_iff.mp h
  obtain ⟨heq, hlen⟩ := cutAt_eq_some_iff.mp hcut
  rw [byteLen_append] at hlen
  rcases List.append_eq_append_iff.mp heq with ⟨d, rfl, rfl⟩ | ⟨d, -, hd⟩
  · have hd : d = [] := by
      by_contra hne
      have hpos := byteLen_pos_iff.mpr hne
      simp only [byteLen_append] at hlen hle
      omega
    rw [hd]
    exact List.suffix_rfl
  · exact ⟨d, hd.symm⟩

theorem Usual.bears (h : Usual decode b) (hw : window (seen ++ b.opening) = some w)
    (bs : List Block) : Bears decode w b bs b := by
  have htag : '>' ∉ b.tagRest := by
    rw [Block.tagRest, if_pos h.hrefFirst]
    exact h.plain
  obtain ⟨s, hs, hpost, hcontent⟩ := h.snippet
  have hshown : s.shown = trimChars s.content := by
    have htext : extractTagText s.behind = some (trimChars s.content) :=
      extractTagText_eq hpost hcontent "/a>".toList
    rw [SnippetAnchor.shown, htext]
    rfl
  have hlast : LastHref w b.url := by
    have hopening : seen ++ b.opening =
        seen ++ (b.lead ++ ("<a".toList ++ b.pre.text)) ++ (b.href ++ b.mid.text) := by
      rw [Block.opening, if_pos h.hrefFirst]
      simp
    rw [hopening] at hw
    obtain ⟨d, rfl⟩ := isSuffix_window hw h.near
    exact ⟨d, b.mid.text, by simp [Block.href], b.quoted, h.only⟩
  refine ⟨?_, ?_, ⟨b.url, hlast, h.url, rfl⟩, ?_⟩
  · rw [Block.titleText_eq htag]
    exact h.title
  · rw [Block.titleText_eq htag]
  · rw [snippetText, List.findSome?_cons, Block.content, hs]
    exact congrArg stripHtmlTags hshown

/-- A usual page has the entry of every block. -/
theorem eachReturned_of_usual (h : ∀ b ∈ page.blocks, Usual decode b)
    (hw : EachBlock (fun _ _ _ => True) [] page.blocks) : EachReturned decode page := by
  rw [eachReturned_iff]
  generalize page.blocks = bs at h hw
  generalize ([] : List Char) = seen at hw ⊢
  induction bs generalizing seen with
  | nil => trivial
  | cons b bs ih =>
      obtain ⟨⟨w, hwindow, -⟩, hrest⟩ := hw
      refine ⟨⟨w, hwindow, (h b List.mem_cons_self).bears hwindow bs⟩, ?_⟩
      exact ih (fun b hb => h b (List.mem_cons_of_mem _ hb)) _ hrest

instance : DecidablePred Quiet := fun s =>
  inferInstanceAs (Decidable (¬ linkMarker <:+: s ∧ ¬ snippetMarker <:+: s))

/-- The anchor of the comment on the function. -/
def commentBlock (url title : List Char) (quoted : '"' ∉ url) (tagFree : '<' ∉ title) : Block where
  lead := []
  pre := ⟨[' '], by simp⟩
  mid := ⟨[' '], by simp⟩
  post := ⟨[], by simp⟩
  hrefFirst := false
  url := url
  title := title
  snippet := none
  quoted := quoted
  tagFree := tagFree

def commentPage : Page where
  blocks := [commentBlock "https://a.example".toList ['A'] (by decide) (by decide),
    commentBlock "https://b.example".toList ['B'] (by decide) (by decide)]
  trail := []
  quiet := by decide

theorem takes_commentPage :
    Takes some [] commentPage.blocks [none, some ⟨"B", "https://a.example", ""⟩] := by
  have hfirst : window ([] ++ commentPage.blocks[0].opening) = some "<a ".toList := by
    decide
  have hsecond : window ([] ++ commentPage.blocks[0].render ++ commentPage.blocks[1].opening) =
      some "<a class=\"result__a\" href=\"https://a.example\">A</a><a ".toList := by
    decide
  have hnone : made some "<a ".toList commentPage.blocks[0] [commentPage.blocks[1]] = none := by
    decide
  have hsome : made some
      "<a class=\"result__a\" href=\"https://a.example\">A</a><a ".toList
      commentPage.blocks[1] [] = some ⟨"B", "https://a.example", ""⟩ := by
    decide
  rw [← hnone, ← hsome]
  exact .cons hfirst (.cons hsecond .nil)

end Oclaw.ToolsCore
