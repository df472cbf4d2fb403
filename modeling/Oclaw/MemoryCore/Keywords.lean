import Mathlib.Data.List.SplitBy
import Oclaw.Lib.CharBoundary
import Oclaw.MemoryCore.FtsQuery

/-!
# Keywords of a query

`extract_keywords` of `crates/memory-core/src/query_expand.rs`: a query is cut into segments,
a segment with Chinese characters into single characters, pairs and words, a Korean one is
taken with and without its particle, and stop words are left out.
-/

namespace Oclaw.MemoryCore

open Oclaw.Lib

/-! ## §1  Characters -/

/-- CJK Unified Ideographs. -/
def isCjk (c : Char) : Bool :=
  let n := c.toNat
  (0x3400 ≤ n && n ≤ 0x9FFF) || (0xF900 ≤ n && n ≤ 0xFAFF) || (0x20000 ≤ n && n ≤ 0x2A6DF)

/-- Hangul syllables and Jamo. -/
def isHangul (c : Char) : Bool :=
  let n := c.toNat
  (0xAC00 ≤ n && n ≤ 0xD7AF) || (0x3131 ≤ n && n ≤ 0x3163)

/-- `char::is_ascii_punctuation` -/
def isAsciiPunctuation (c : Char) : Bool :=
  let n := c.toNat
  (0x21 ≤ n && n ≤ 0x2F) || (0x3A ≤ n && n ≤ 0x40) || (0x5B ≤ n && n ≤ 0x60) ||
    (0x7B ≤ n && n ≤ 0x7E)

/-- Whitespace and punctuation. -/
def isSeparator (c : Char) : Bool :=
  let n := c.toNat
  isWhitespace c || (isAsciiPunctuation c && c ≠ '_') || (0x3000 ≤ n && n ≤ 0x303F) ||
    (0xFF00 ≤ n && n ≤ 0xFFEF) || (0x2000 ≤ n && n ≤ 0x206F)

/-! ## §2  Stop words -/

def stopWordsEn : List String :=
  ["a", "an", "the", "this", "that", "these", "those", "i", "me", "my", "we", "our", "you",
    "your", "he", "she", "it", "they", "them", "is", "are", "was", "were", "be", "been", "being",
    "have", "has", "had", "do", "does", "did", "will", "would", "could", "should", "can", "may",
    "might", "in", "on", "at", "to", "for", "of", "with", "by", "from", "about", "into",
    "through", "during", "before", "after", "above", "below", "between", "under", "over", "and",
    "or", "but", "if", "then", "because", "as", "while", "when", "where", "what", "which", "who",
    "how", "why", "yesterday", "today", "tomorrow", "earlier", "later", "recently", "ago", "just",
    "now", "thing", "things", "stuff", "something", "anything", "everything", "nothing", "please",
    "help", "find", "show", "get", "tell", "give"]

def stopWordsZh : List String :=
  ["我", "我们", "你", "你们", "他", "她", "它", "他们", "这", "那", "这个", "那个", "这些", "那些", "的", "了", "着",
    "过", "得", "地", "吗", "呢", "吧", "啊", "呀", "嘛", "啦", "是", "有", "在", "被", "把", "给", "让", "用", "到",
    "去", "来", "做", "说", "看", "找", "想", "要", "能", "会", "可以", "和", "与", "或", "但", "但是", "因为", "所以",
    "如果", "虽然", "而", "也", "都", "就", "还", "又", "再", "才", "只", "之前", "以前", "之后", "以后", "刚才", "现在",
    "昨天", "今天", "明天", "最近", "东西", "事情", "事", "什么", "哪个", "哪些", "怎么", "为什么", "多少", "请", "帮", "帮忙",
    "告诉"]

def stopWordsKo : List String :=
  ["은", "는", "이", "가", "을", "를", "의", "에", "에서", "로", "으로", "와", "과", "도", "만", "까지", "부터", "한테",
    "에게", "께", "처럼", "같이", "보다", "마다", "밖에", "대로", "나", "나는", "내가", "나를", "너", "우리", "저", "저희",
    "그", "그녀", "그들", "이것", "저것", "그것", "여기", "저기", "거기", "있다", "없다", "하다", "되다", "이다", "아니다",
    "보다", "주다", "오다", "가다", "것", "거", "등", "수", "때", "곳", "중", "분", "잘", "더", "또", "매우", "정말",
    "아주", "많이", "너무", "좀", "그리고", "하지만", "그래서", "그런데", "그러나", "또는", "그러면", "왜", "어떻게", "뭐", "언제",
    "어디", "누구", "무엇", "어떤", "어제", "오늘", "내일", "최근", "지금", "아까", "나중", "전에", "제발", "부탁"]

/-- Longer ones first. -/
def koTrailingParticles : List String :=
  ["에서", "으로", "에게", "한테", "처럼", "같이", "보다", "까지", "부터", "마다", "밖에", "대로", "은", "는", "이", "가",
    "을", "를", "의", "에", "로", "와", "과", "도", "만"]

def isStopWord (token : String) : Bool :=
  stopWordsEn.contains token || stopWordsZh.contains token || stopWordsKo.contains token

/-! ## §3  Tokens -/

section Model

variable (u : Alphanumeric)

def stripKoreanTrailingParticle (token : List Char) : Option (List Char) :=
  koTrailingParticles.findSome? fun particle =>
    if byteLen particle.toList < byteLen token && particle.toList.isSuffixOf token then
      some (token.take (token.length - particle.length))
    else none

def isUsefulKoreanStem (stem : List Char) : Bool :=
  if stem.any isHangul then 2 ≤ stem.length
  else stem.all (fun c => c.isAlphanum || c = '_')

def isValidKeyword (token : String) : Bool :=
  let cs := token.toList
  if cs.isEmpty then false
  else if cs.all Char.isAlpha && byteLen cs < 3 then false
  else if cs.all Char.isDigit then false
  else if cs.all (fun c =>
      isAsciiPunctuation c || (!u.isAlphanumeric c && !(c.toNat < 128 : Bool))) then
    cs.any (isUnicodeLetterOrDigit u)
  else true

def splitSegments (lower : String → String) (text : String) : List (List Char) :=
  runsOf (fun c => !isSeparator c) (lower text).toList

/-- The characters of a run and its pairs of neighbours. -/
def flushCjk (run : List Char) : List String :=
  run.map (fun c => String.ofList [c]) ++
    List.zipWith (fun a b => String.ofList [a, b]) run run.tail

def flushAscii (run : List Char) : List String := if run.isEmpty then [] else [String.ofList run]

/-- The loop over a segment with Chinese characters, with its two buffers. -/
def mixedTokens : List Char → List Char → List Char → List String
  | cjkRun, asciiRun, [] => flushCjk cjkRun ++ flushAscii asciiRun
  | cjkRun, asciiRun, c :: cs =>
      if isCjk c then flushAscii asciiRun ++ mixedTokens (cjkRun ++ [c]) [] cs
      else if u.isAlphanumeric c || c = '_' then
        flushCjk cjkRun ++ mixedTokens [] (asciiRun ++ [c]) cs
      else flushCjk cjkRun ++ (flushAscii asciiRun ++ mixedTokens [] [] cs)

def koreanTokens (segment : List Char) : List String :=
  let stem := stripKoreanTrailingParticle segment
  let stemIsStop := stem.any (fun s => stopWordsKo.contains (String.ofList s))
  (if !stopWordsKo.contains (String.ofList segment) && !stemIsStop then [String.ofList segment]
    else []) ++
  match stem with
  | some s =>
      if !stopWordsKo.contains (String.ofList s) && isUsefulKoreanStem s then [String.ofList s]
      else []
  | none => []

def segmentTokens (segment : List Char) : List String :=
  if segment.any isCjk then mixedTokens u [] [] segment
  else if segment.any isHangul then koreanTokens segment
  else [String.ofList segment]

def tokenize (lower : String → String) (text : String) : List String :=
  (splitSegments lower text).flatMap (segmentTokens u)

/-- The filter over the tokens, with those seen. -/
def keepKeywords : List String → List String → List String
  | _, [] => []
  | seen, token :: tokens =>
      if isStopWord token then keepKeywords seen tokens
      else if !isValidKeyword u token then keepKeywords seen tokens
      else if seen.contains token then keepKeywords seen tokens
      else token :: keepKeywords (token :: seen) tokens

def extractKeywords (lower : String → String) (query : String) : List String :=
  keepKeywords u [] (tokenize u lower query)

/-! ## §4  The runs of a segment -/

inductive Script : Type where
  | cjk | word | other
deriving DecidableEq

def script (c : Char) : Script :=
  if isCjk c then .cjk else if u.isAlphanumeric c || c = '_' then .word else .other

/-- The longest stretches of one script. -/
def scriptRuns (segment : List Char) : List (List Char) :=
  segment.splitBy (fun a b => script u a == script u b)

/-- What a run adds to the tokens. -/
def contribution (run : List Char) : List String :=
  match run.head?.map (script u) with
  | some .cjk => flushCjk run
  | some .word => [String.ofList run]
  | _ => []

variable {u} {run l : List Char} {c : Char} {k : Script}

/-- All characters of the run are of this script. -/
def Uniform (u : Alphanumeric) (k : Script) (run : List Char) : Prop :=
  run ≠ [] ∧ ∀ c ∈ run, script u c = k

theorem Uniform.head (h : Uniform u k run) : run.head?.map (script u) = some k := by
  obtain ⟨hne, hall⟩ := h
  cases run with
  | nil => exact absurd rfl hne
  | cons c run => exact congrArg some (hall c List.mem_cons_self)

theorem Uniform.extend (h : Uniform u k run) (hc : script u c = k) : Uniform u k (run ++ [c]) := by
  refine ⟨by simp, fun d hd => ?_⟩
  rcases List.mem_append.mp hd with hd | hd
  · exact h.2 d hd
  · rw [List.mem_singleton.mp hd, hc]

theorem uniform_singleton (hc : script u c = k) : Uniform u k [c] :=
  ⟨by simp, by simpa using hc⟩

theorem Uniform.splitBy (h : Uniform u k run) : scriptRuns u run = [run] := by
  refine List.splitBy_of_isChain h.1 (List.Pairwise.isChain ?_)
  refine List.pairwise_of_forall_mem_list fun a ha b hb => ?_
  rw [h.2 a ha, h.2 b hb]
  exact beq_self_eq_true k

/-- A character of another script starts the next run. -/
theorem Uniform.splitBy_append (h : Uniform u k run) (hc : script u c ≠ k) :
    scriptRuns u (run ++ c :: l) = run :: scriptRuns u (c :: l) := by
  have hsplit : scriptRuns u (run ++ c :: l) = scriptRuns u run ++ scriptRuns u (c :: l) := by
    refine List.splitBy_append_cons l fun a ha => ?_
    rw [h.2 a (List.mem_of_getLast? ha)]
    simpa using Ne.symm hc
  rw [hsplit, h.splitBy]
  rfl

/-- The buffers in the middle of a run. -/
def buffers (k : Script) (run : List Char) : List Char × List Char :=
  match k with
  | .cjk => (run, [])
  | .word => ([], run)
  | .other => ([], [])

theorem flush_buffers (h : Uniform u k run) :
    flushCjk (buffers k run).1 ++ flushAscii (buffers k run).2 = contribution u run := by
  have hopen : run.isEmpty = false := by simpa using h.1
  rw [contribution, h.head]
  cases k with
  | cjk => simp [buffers, flushAscii]
  | word => simp [buffers, flushCjk, flushAscii, hopen]
  | other => simp [buffers, flushCjk, flushAscii]

/-- One round of the loop: the run goes on, or it is flushed and the next one starts. -/
theorem mixedTokens_cons (k : Script) (run : List Char) :
    mixedTokens u (buffers k run).1 (buffers k run).2 (c :: l) =
      if script u c = k then
        mixedTokens u (buffers k (run ++ [c])).1 (buffers k (run ++ [c])).2 l
      else flushCjk (buffers k run).1 ++ flushAscii (buffers k run).2 ++
        mixedTokens u (buffers (script u c) [c]).1 (buffers (script u c) [c]).2 l := by
  rw [mixedTokens]
  -- by the script of the character, and then that of the run
  by_cases hcjk : isCjk c = true
  · have hc : script u c = .cjk := by rw [script, if_pos hcjk]
    rw [if_pos hcjk, hc]
    cases k with
    | cjk | word | other => simp [buffers, flushCjk, flushAscii]
  · by_cases hword : (u.isAlphanumeric c || decide (c = '_')) = true
    · have hc : script u c = .word := by rw [script, if_neg hcjk, if_pos hword]
      rw [if_neg hcjk, if_pos hword, hc]
      cases k with
      | cjk | word | other => simp [buffers, flushCjk, flushAscii]
    · have hc : script u c = .other := by rw [script, if_neg hcjk, if_neg hword]
      rw [if_neg hcjk, if_neg hword, hc]
      cases k with
      | cjk | word | other => simp [buffers, flushCjk, flushAscii]

theorem mixedTokens_run (h : Uniform u k run) :
    mixedTokens u (buffers k run).1 (buffers k run).2 l =
      (scriptRuns u (run ++ l)).flatMap (contribution u) := by
  induction l generalizing k run with
  | nil => rw [mixedTokens, flush_buffers h, List.append_nil, h.splitBy]; simp
  | cons c l ih =>
      rw [mixedTokens_cons, flush_buffers h]
      split
      · rename_i hc
        rw [ih (h.extend hc), ← List.append_cons]
      · rename_i hc
        rw [ih (uniform_singleton rfl), h.splitBy_append hc, List.flatMap_cons]
        rfl

/-- The tokens of a segment with Chinese characters are those of its runs. -/
theorem segmentTokens_mixed {segment : List Char} (h : segment.any isCjk = true) :
    segmentTokens u segment = (scriptRuns u segment).flatMap (contribution u) := by
  rw [segmentTokens, if_pos h]
  cases segment with
  | nil => cases h
  | cons c l =>
      have hstart : mixedTokens u [] [] (c :: l) =
          mixedTokens u (buffers (script u c) [c]).1 (buffers (script u c) [c]).2 l := by
        refine (mixedTokens_cons .other []).trans ?_
        split
        · rename_i hc
          rw [hc]
          rfl
        · rfl
      rw [hstart, mixedTokens_run (uniform_singleton rfl)]
      rfl

theorem script_eq_cjk_iff : script u c = .cjk ↔ isCjk c = true := by
  rw [script]
  split
  · simp_all
  · split <;> simp_all

theorem Uniform.any_isCjk (h : Uniform u k run) : run.any isCjk = decide (k = .cjk) := by
  rw [Bool.eq_iff_iff, List.any_eq_true, decide_eq_true_eq]
  constructor
  · rintro ⟨c, hc, hcjk⟩
    rw [← h.2 c hc]
    exact script_eq_cjk_iff.mpr hcjk
  · rintro rfl
    obtain ⟨c, hc⟩ := List.exists_mem_of_ne_nil run h.1
    exact ⟨c, hc, script_eq_cjk_iff.mp (h.2 c hc)⟩

theorem collectRuns_cons (k : Script) (run : List Char) :
    collectRuns isCjk (buffers k run).1 (c :: l) =
      if script u c = k then collectRuns isCjk (buffers k (run ++ [c])).1 l
      else (if (buffers k run).1.isEmpty then [] else [(buffers k run).1]) ++
        collectRuns isCjk (buffers (script u c) [c]).1 l := by
  rw [collectRuns]
  by_cases hcjk : isCjk c = true
  · rw [if_pos hcjk, script_eq_cjk_iff.mpr hcjk]
    cases k with
    | cjk | word | other => simp [buffers]
  · have hc : script u c ≠ .cjk := fun h => hcjk (script_eq_cjk_iff.mp h)
    rw [if_neg hcjk]
    cases hscript : script u c with
    | cjk => exact absurd hscript hc
    | word | other =>
        cases k with
        | cjk =>
            cases run with
            | nil | cons _ _ => simp [buffers]
        | word | other => simp [buffers]

theorem Uniform.filter_cjk (h : Uniform u k run) : [run].filter (fun r => r.any isCjk) =
    if (buffers k run).1.isEmpty then [] else [(buffers k run).1] := by
  have hopen : run.isEmpty = false := by simpa using h.1
  rw [List.filter_singleton, h.any_isCjk]
  cases k with
  | cjk => simp [buffers, hopen]
  | word | other => simp [buffers]

theorem cjkRuns_of_run (h : Uniform u k run) :
    (scriptRuns u (run ++ l)).filter (fun r => r.any isCjk) =
      collectRuns isCjk (buffers k run).1 l := by
  induction l generalizing k run with
  | nil => rw [List.append_nil, h.splitBy, h.filter_cjk, collectRuns]
  | cons c l ih =>
      rw [@collectRuns_cons u]
      split
      · rename_i hc
        rw [← ih (h.extend hc), ← List.append_cons]
      · rename_i hc
        rw [h.splitBy_append hc, ← List.singleton_append, List.filter_append, h.filter_cjk,
          ← ih (uniform_singleton rfl)]
        rfl

/-- The runs of Chinese characters are the maximal ones of the segment. -/
theorem cjkRuns_eq (segment : List Char) :
    (scriptRuns u segment).filter (fun r => r.any isCjk) = runsOf isCjk segment := by
  cases segment with
  | nil => rfl
  | cons c l =>
      have hstart : runsOf isCjk (c :: l) = collectRuns isCjk (buffers (script u c) [c]).1 l := by
        refine (@collectRuns_cons u l c .other []).trans ?_
        split
        · rename_i hc
          rw [hc]
          rfl
        · rfl
      rw [hstart, ← cjkRuns_of_run (uniform_singleton rfl)]
      rfl

/-! ## §5  Every query -/

variable {segment : List Char} {token : String}

theorem mem_zipWith_tail {f : Char → Char → String} (h : token ∈ List.zipWith f run run.tail) :
    ∃ a b, [a, b] <:+: run ∧ token = f a b := by
  induction run with
  | nil => cases h
  | cons a run ih =>
      cases run with
      | nil => cases h
      | cons b run =>
          rcases List.mem_cons.mp h with rfl | h
          · exact ⟨a, b, ⟨[], run, rfl⟩, rfl⟩
          · obtain ⟨a', b', hpart, rfl⟩ := ih h
            exact ⟨a', b', hpart.trans (List.suffix_cons a _).isInfix, rfl⟩

theorem mem_flushCjk (h : token ∈ flushCjk run) :
    (∃ c ∈ run, token = String.ofList [c]) ∨
      ∃ a b, [a, b] <:+: run ∧ token = String.ofList [a, b] := by
  rcases List.mem_append.mp h with h | h
  · obtain ⟨c, hc, rfl⟩ := List.mem_map.mp h
    exact Or.inl ⟨c, hc, rfl⟩
  · exact Or.inr (mem_zipWith_tail h)

theorem isInfix_of_mem_singleton (h : token ∈ [String.ofList run]) : token.toList <:+: run := by
  obtain rfl := List.mem_singleton.mp h
  exact ⟨[], [], by simp⟩

theorem isInfix_of_mem_contribution (h : token ∈ contribution u run) : token.toList <:+: run := by
  rw [contribution] at h
  split at h
  · rcases mem_flushCjk h with ⟨c, hc, rfl⟩ | ⟨a, b, hpart, rfl⟩
    · obtain ⟨before, after, rfl⟩ := List.append_of_mem hc
      exact ⟨before, after, by simp⟩
    · rwa [String.toList_ofList]
  · exact isInfix_of_mem_singleton h
  · cases h

theorem isInfix_of_mem_koreanTokens (h : token ∈ koreanTokens segment) :
    token.toList <:+: segment := by
  have hstem : ∀ s, stripKoreanTrailingParticle segment = some s → s <:+: segment := by
    intro s hs
    obtain ⟨particle, -, hs⟩ := List.exists_of_findSome?_eq_some hs
    obtain ⟨-, heq⟩ := Option.ite_none_right_eq_some.mp hs
    rw [← Option.some.inj heq]
    exact (List.take_prefix _ _).isInfix
  rw [koreanTokens] at h
  rcases List.mem_append.mp h with h | h
  · split at h
    · exact isInfix_of_mem_singleton h
    · cases h
  · split at h
    · rename_i s hs
      split at h
      · rw [List.mem_singleton.mp h, String.toList_ofList]
        exact hstem s hs
      · cases h
    · cases h

/-- A token is a part of its segment. -/
theorem isInfix_of_mem_segmentTokens (h : token ∈ segmentTokens u segment) :
    token.toList <:+: segment := by
  by_cases hcjk : segment.any isCjk = true
  · rw [segmentTokens_mixed hcjk] at h
    obtain ⟨run, hrun, h⟩ := List.mem_flatMap.mp h
    have hpart := List.infix_of_mem_flatten hrun
    rw [scriptRuns, List.flatten_splitBy] at hpart
    exact (isInfix_of_mem_contribution h).trans hpart
  · rw [segmentTokens, if_neg hcjk] at h
    split at h
    · exact isInfix_of_mem_koreanTokens h
    · exact isInfix_of_mem_singleton h

theorem mem_keepKeywords {seen tokens : List String} (h : token ∈ keepKeywords u seen tokens) :
    token ∈ tokens ∧ isStopWord token = false ∧ token ∉ seen := by
  induction tokens generalizing seen with
  | nil => cases h
  | cons t tokens ih =>
      have hlater {seen' : List String} (hsub : seen ⊆ seen')
          (h : token ∈ keepKeywords u seen' tokens) :
          token ∈ t :: tokens ∧ isStopWord token = false ∧ token ∉ seen := by
        obtain ⟨hmem, hstop, hseen⟩ := ih h
        exact ⟨List.mem_cons_of_mem _ hmem, hstop, fun hmem => hseen (hsub hmem)⟩
      rw [keepKeywords] at h
      split at h
      · exact hlater (List.Subset.refl _) h
      · rename_i hstop
        split at h
        · exact hlater (List.Subset.refl _) h
        · split at h
          · exact hlater (List.Subset.refl _) h
          · rename_i hseen
            rcases List.mem_cons.mp h with rfl | h
            · exact ⟨List.mem_cons_self, by simpa using hstop, by simpa using hseen⟩
            · exact hlater (List.subset_cons_self _ _) h

theorem nodup_keepKeywords (seen tokens : List String) : (keepKeywords u seen tokens).Nodup := by
  induction tokens generalizing seen with
  | nil => exact List.nodup_nil
  | cons t tokens ih =>
      rw [keepKeywords]
      split
      · exact ih seen
      · split
        · exact ih seen
        · split
          · exact ih seen
          · refine List.nodup_cons.mpr ⟨fun hmem => ?_, ih _⟩
            exact (mem_keepKeywords hmem).2.2 List.mem_cons_self

/-- **Keywords.** They are distinct parts of the lowered query without stop words, whitespace
and punctuation, and of a run of Chinese characters they have single ones and neighbours. -/
theorem extractKeywords_sound (u : Alphanumeric) (lower : String → String) (query : String) :
    (extractKeywords u lower query).Nodup ∧
      (∀ keyword ∈ extractKeywords u lower query, isStopWord keyword = false ∧
        keyword.toList <:+: (lower query).toList ∧
        (∀ c ∈ keyword.toList, isWhitespace c = false ∧ (isAsciiPunctuation c = true → c = '_')) ∧
        ∃ segment ∈ splitSegments lower query, keyword ∈ segmentTokens u segment) ∧
      ∀ segment ∈ splitSegments lower query, segment.any isCjk = true →
        segmentTokens u segment = (scriptRuns u segment).flatMap (contribution u) ∧
        (scriptRuns u segment).filter (fun r => r.any isCjk) = runsOf isCjk segment ∧
        ∀ run ∈ runsOf isCjk segment, ∀ token ∈ contribution u run,
          (∃ c ∈ run, token = String.ofList [c]) ∨
            ∃ a b, [a, b] <:+: run ∧ token = String.ofList [a, b] := by
  refine ⟨nodup_keepKeywords [] _, fun keyword hkeyword => ?_, fun segment _ hcjk => ?_⟩
  · obtain ⟨htoken, hstop, -⟩ := mem_keepKeywords hkeyword
    obtain ⟨segment, hsegment, htoken⟩ := List.mem_flatMap.mp htoken
    have hpart := isInfix_of_mem_segmentTokens htoken
    obtain ⟨-, hall, hquery⟩ := (maximalRuns_runsOf _ _).mem hsegment
    refine ⟨hstop, hpart.trans hquery, fun c hc => ?_, segment, hsegment, htoken⟩
    have hsep : isSeparator c = false := by simpa using hall c (hpart.subset hc)
    simp only [isSeparator, Bool.or_eq_false_iff] at hsep
    refine ⟨hsep.1.1.1.1, fun hpunct => ?_⟩
    have hunder := hsep.1.1.1.2
    rw [hpunct] at hunder
    simpa using hunder
  · refine ⟨segmentTokens_mixed hcjk, cjkRuns_eq segment, fun run hrun token htoken => ?_⟩
    obtain ⟨hne, hall, -⟩ := (maximalRuns_runsOf isCjk segment).mem hrun
    have huniform : Uniform u .cjk run := ⟨hne, fun c hc => script_eq_cjk_iff.mpr (hall c hc)⟩
    rw [contribution, huniform.head] at htoken
    exact mem_flushCjk htoken


end Model

end Oclaw.MemoryCore
