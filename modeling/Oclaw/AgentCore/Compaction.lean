import Mathlib.Algebra.GroupWithZero.Nat
import Mathlib.Data.List.Induction
import Oclaw.AgentCore.Agent

/-!
# What a compaction keeps

`compact_history` of `crates/agent-core/src/compaction.rs` with its slices, and the history
that `try_compact` installs. The scan for the split starts from the end of the list: where
it meets no message that is too much, the whole list is the old part.
-/

namespace Oclaw.AgentCore

open Oclaw.Lib

/-! ## §1  The call -/

structure CompactionResult : Type where
  summary : ChatMessage
  keptMessages : List ChatMessage

/-- `&messages[..n]`, which is out of range past the end. -/
def sliceTo (messages : List ChatMessage) (n : ℕ) : Option (List ChatMessage) :=
  if n ≤ messages.length then some (messages.take n) else none

/-- `&messages[n..]` -/
def sliceFrom (messages : List ChatMessage) (n : ℕ) : Option (List ChatMessage) :=
  if n ≤ messages.length then some (messages.drop n) else none

def summaryMessage (summaryText : String) : ChatMessage :=
  plainMessage .system ("[Conversation summary]\n" ++ summaryText)

def compactionRequest (model : String) (old : List ChatMessage) : ChatRequest where
  model := model
  messages := old ++ [plainMessage .user compactionPrompt]
  temperature := some 0.0
  maxTokens := some 2048
  tools := none

/-- The system prompt stays in front of the summary. -/
def compactionResult (messages kept : List ChatMessage) (summaryText : String) :
    CompactionResult :=
  match messages.find? (fun m => m.role == .system) with
  | some sys => ⟨sys, summaryMessage summaryText :: kept⟩
  | none => ⟨summaryMessage summaryText, kept⟩

/-- `compact_history`: the request for the summary, and what is made of its text. `none`
is a slice out of range. -/
def compactHistory (bpe : Encodings) (model : String) (messages : List ChatMessage)
    (config : CompactionConfig) : Option (ChatRequest × (String → CompactionResult)) := do
  let splitIdx := compactionSplit bpe messages model config
  let old ← sliceTo messages splitIdx
  let kept ← sliceFrom messages splitIdx
  return (compactionRequest model old, compactionResult messages kept)

/-! ## §2  The split -/

/-- What a message counts for in the scan. -/
def messageCost (bpe : Encodings) (model : String) (m : ChatMessage) : ℕ :=
  TokenCounter.count bpe m.content model + 4

def totalCost (cost : ChatMessage → ℕ) (ms : List ChatMessage) : ℕ := (ms.map cost).sum

variable {cost : ChatMessage → ℕ} {keep : ℕ} {ms suf pre post kept : List ChatMessage}
variable {bpe : Encodings} {model : String} {config : CompactionConfig} {m a : ChatMessage}

@[simp] theorem totalCost_cons : totalCost cost (m :: ms) = cost m + totalCost cost ms := rfl

@[simp] theorem totalCost_append : totalCost cost (pre ++ post) =
    totalCost cost pre + totalCost cost post := by
  simp [totalCost]

theorem totalCost_suffix (h : suf <:+ ms) : totalCost cost suf ≤ totalCost cost ms := by
  obtain ⟨pre, rfl⟩ := h
  rw [totalCost_append]
  exact Nat.le_add_left _ _

/-- The scan with the messages `suf` behind it: it goes through if all messages together
are not too much, and else stops at the first place behind which they are not. -/
theorem splitScan_spec (cost : ChatMessage → ℕ) (pre suf : List ChatMessage)
    (hsuf : totalCost cost suf ≤ keep) :
    (splitScan cost keep (totalCost cost suf) pre.reverse = none ∧
      totalCost cost (pre ++ suf) ≤ keep) ∨
    ∃ i, splitScan cost keep (totalCost cost suf) pre.reverse = some i ∧ 0 < i ∧
      ∀ j, i ≤ j ↔ totalCost cost ((pre ++ suf).drop j) ≤ keep := by
  induction pre using List.reverseRecOn generalizing suf with
  | nil => exact Or.inl ⟨rfl, hsuf⟩
  | append_singleton pre m ih =>
      rw [List.reverse_concat, splitScan]
      by_cases hover : keep < totalCost cost suf + cost m
      · refine Or.inr ⟨pre.length + 1, by simp [hover], Nat.succ_pos _, ?_⟩
        intro j
        constructor
        · intro hj
          have hdrop : (pre ++ [m] ++ suf).drop j = suf.drop (j - (pre.length + 1)) := by
            rw [List.drop_append, List.drop_eq_nil_of_le (by simpa using hj), List.nil_append,
              List.length_append, List.length_singleton]
          rw [hdrop]
          exact Nat.le_trans (totalCost_suffix (List.drop_suffix _ _)) hsuf
        · intro hfits
          by_contra hj
          -- the list from `j` on still has `m` and all of `suf`
          have hsuffix : m :: suf <:+ (pre ++ [m] ++ suf).drop j := by
            rw [List.append_assoc, List.drop_append_of_le_length (by omega)]
            exact List.suffix_append _ _
          have hle : totalCost cost (m :: suf) ≤ _ := totalCost_suffix hsuffix
          rw [totalCost_cons] at hle
          omega
      · rw [if_neg hover]
        have hnext := ih (m :: suf) (by rw [totalCost_cons]; omega)
        rw [totalCost_cons, Nat.add_comm (cost m)] at hnext
        simpa using hnext

theorem compactionSplit_eq (bpe : Encodings) (model : String) (config : CompactionConfig)
    (ms : List ChatMessage) : compactionSplit bpe ms model config =
      max ((splitScan (messageCost bpe model) config.keepRecentTokens
        (totalCost (messageCost bpe model) []) ms.reverse).getD ms.length) 1 := by
  show (if (splitScan (messageCost bpe model) _ 0 ms.reverse).getD ms.length ≤ 1 then 1
    else (splitScan (messageCost bpe model) _ 0 ms.reverse).getD ms.length) =
      max ((splitScan (messageCost bpe model) _ 0 ms.reverse).getD ms.length) 1
  split <;> omega

/-- Where the messages are too much, those that are kept are the ones from which on they
are not. -/
theorem compactionSplit_le_iff
    (hover : config.keepRecentTokens < totalCost (messageCost bpe model) ms) (j : ℕ) :
    compactionSplit bpe ms model config ≤ j ↔
      totalCost (messageCost bpe model) (ms.drop j) ≤ config.keepRecentTokens := by
  have hspec := splitScan_spec (messageCost bpe model) ms []
    (Nat.zero_le config.keepRecentTokens)
  rw [List.append_nil] at hspec
  rcases hspec with ⟨-, hfits⟩ | ⟨i, hscan, hpos, hmin⟩
  · omega
  · rw [compactionSplit_eq, hscan, Option.getD_some, Nat.max_eq_left hpos, hmin]

/-- Where they are not, nothing is kept. -/
theorem compactionSplit_of_fits
    (hfits : totalCost (messageCost bpe model) ms ≤ config.keepRecentTokens) :
    compactionSplit bpe ms model config = max ms.length 1 := by
  have hspec := splitScan_spec (messageCost bpe model) ms []
    (Nat.zero_le config.keepRecentTokens)
  rw [List.append_nil] at hspec
  rcases hspec with ⟨hscan, -⟩ | ⟨i, -, hpos, hmin⟩
  · rw [compactionSplit_eq, hscan, Option.getD_none]
  · have := (hmin 0).mpr hfits
    omega

theorem compactionSplit_pos (bpe : Encodings) (model : String) (config : CompactionConfig)
    (ms : List ChatMessage) : 0 < compactionSplit bpe ms model config := by
  rw [compactionSplit_eq]
  omega

theorem compactionSplit_le_length (bpe : Encodings) (model : String) (config : CompactionConfig)
    (h : ms ≠ []) :
    compactionSplit bpe ms model config ≤ ms.length := by
  have hpos : 0 < ms.length := List.length_pos_iff.mpr h
  rcases Nat.lt_or_ge config.keepRecentTokens (totalCost (messageCost bpe model) ms) with
    hover | hfits
  · rw [compactionSplit_le_iff hover, List.drop_length]
    exact Nat.zero_le _
  · rw [compactionSplit_of_fits hfits]
    omega

/-! ## §3  What is kept and what is summarized -/

/-- The history that the two parts of the result make up. -/
def CompactionResult.history (r : CompactionResult) : List ChatMessage :=
  r.summary :: r.keptMessages

/-- The call in terms of its split. It panics on the empty list, whose split is 1. -/
theorem compactHistory_eq (bpe : Encodings) (model : String) (config : CompactionConfig)
    (ms : List ChatMessage) :
    (ms = [] ∧ compactHistory bpe model ms config = none) ∨
      (ms ≠ [] ∧ ∃ request result, compactHistory bpe model ms config = some (request, result) ∧
        request.messages = ms.take (compactionSplit bpe ms model config) ++
          [plainMessage .user compactionPrompt] ∧
        ∀ summaryText, (result summaryText).history =
          compactedHistory ms (compactionSplit bpe ms model config) summaryText) := by
  by_cases hms : ms = []
  · left
    refine ⟨hms, ?_⟩
    have hsplit := compactionSplit_pos bpe model config ms
    subst hms
    have hslice : sliceTo [] (compactionSplit bpe [] model config) = none :=
      if_neg (Nat.not_le.mpr hsplit)
    simp [compactHistory, hslice]
  · right
    have hle := compactionSplit_le_length bpe model config hms
    refine ⟨hms, compactionRequest model _,
      compactionResult ms (ms.drop (compactionSplit bpe ms model config)), ?_, rfl, ?_⟩
    · simp only [compactHistory, sliceTo, sliceFrom, if_pos hle]
      rfl
    · intro summaryText
      unfold CompactionResult.history compactionResult compactedHistory
      cases ms.find? (fun m => m.role == .system) <;> rfl

/-- Of the suffixes of a list that are not too much the longest one. -/
structure LongestSuffix (cost : ChatMessage → ℕ) (keep : ℕ) (ms kept : List ChatMessage) :
    Prop where
  suffix : kept <:+ ms
  fits : totalCost cost kept ≤ keep
  longest : ∀ suf, suf <:+ ms → totalCost cost suf ≤ keep → suf.length ≤ kept.length

/-- The first message is the only system message. -/
def SystemFirst : List ChatMessage → Prop
  | [] => False
  | sys :: rest => sys.role = .system ∧ ∀ m ∈ rest, m.role ≠ .system

/-- The call returns; where the first message is the only system message, it keeps that one
and the longest suffix of the others that is not too much, and has the rest summarized. -/
def KeepsRecent (bpe : Encodings) (model : String) (config : CompactionConfig)
    (ms : List ChatMessage) : Prop :=
  ∃ request result, compactHistory bpe model ms config = some (request, result) ∧
    (SystemFirst ms → ∀ summaryText, ∃ old kept, ms = old ++ kept ∧
      LongestSuffix (messageCost bpe model) config.keepRecentTokens ms.tail kept ∧
      request.messages = old ++ [plainMessage .user compactionPrompt] ∧
      (result summaryText).history =
        ms.take 1 ++ summaryMessage summaryText :: kept)

theorem compactedHistory_systemFirst (h : SystemFirst ms) (splitIdx : ℕ) (summaryText : String) :
    compactedHistory ms splitIdx summaryText =
      ms.take 1 ++ summaryMessage summaryText :: ms.drop splitIdx := by
  cases ms with
  | nil => cases h
  | cons sys rest =>
      have hfind : (sys :: rest).find? (fun m => m.role == .system) = some sys := by
        simp [h.1]
      rw [compactedHistory, hfind]
      rfl

theorem longestSuffix_drop
    (hover : config.keepRecentTokens < totalCost (messageCost bpe model) ms) :
    LongestSuffix (messageCost bpe model) config.keepRecentTokens ms.tail
      (ms.drop (compactionSplit bpe ms model config)) := by
  have hpos := compactionSplit_pos bpe model config ms
  have htail : ms.tail = ms.drop 1 := List.drop_one.symm
  refine ⟨?_, (compactionSplit_le_iff hover _).mp (Nat.le_refl _), ?_⟩
  · rw [htail, show compactionSplit bpe ms model config =
      1 + (compactionSplit bpe ms model config - 1) by omega, ← List.drop_drop]
    exact List.drop_suffix _ _
  · intro suf hsuf hfits
    rw [htail] at hsuf
    obtain ⟨pre, hpre⟩ := hsuf
    -- the suffix starts at some place of the list, and the split is not behind it
    have hdrop : ms.drop (1 + pre.length) = suf := by
      rw [← List.drop_drop, ← hpre, List.drop_left]
    have hle := (compactionSplit_le_iff hover (1 + pre.length)).mpr (by rw [hdrop]; exact hfits)
    rw [← hdrop, List.length_drop, List.length_drop]
    omega

theorem keepsRecent_of_over (hms : ms ≠ [])
    (hover : config.keepRecentTokens < totalCost (messageCost bpe model) ms) :
    KeepsRecent bpe model config ms := by
  rcases compactHistory_eq bpe model config ms with ⟨hnil, -⟩ | ⟨-, request, result, hcall,
    hrequest, hresult⟩
  · exact absurd hnil hms
  · refine ⟨request, result, hcall, fun hfirst summaryText => ?_⟩
    refine ⟨_, _, (List.take_append_drop (compactionSplit bpe ms model config) ms).symm,
      longestSuffix_drop hover, hrequest, ?_⟩
    rw [hresult, compactedHistory_systemFirst hfirst]

/-- Where all messages together are not too much, none of them is kept. -/
theorem keepsRecent_iff_of_fits (hms : ms ≠ [])
    (hfits : totalCost (messageCost bpe model) ms ≤ config.keepRecentTokens) :
    KeepsRecent bpe model config ms ↔ (SystemFirst ms → ms.tail = []) := by
  have hsplit : compactionSplit bpe ms model config = ms.length := by
    have := List.length_pos_iff.mpr hms
    rw [compactionSplit_of_fits hfits]
    omega
  rcases compactHistory_eq bpe model config ms with ⟨hnil, -⟩ | ⟨-, request, result, hcall,
    hrequest, hresult⟩
  · exact absurd hnil hms
  · rw [hsplit] at hrequest hresult
    constructor
    · rintro ⟨request', result', hcall', hkeeps⟩ hfirst
      rw [hcall] at hcall'
      cases hcall'
      obtain ⟨old, kept, -, hlongest, -, hhistory⟩ := hkeeps hfirst ""
      rw [hresult, compactedHistory_systemFirst hfirst, List.drop_length] at hhistory
      have hkept : kept = [] := by
        have h := List.append_cancel_left hhistory
        exact ((List.cons.inj h).2).symm
      have hlen := hlongest.longest ms.tail (List.suffix_refl _)
        (Nat.le_trans (totalCost_suffix (List.tail_suffix ms)) hfits)
      rw [hkept] at hlen
      exact List.length_eq_zero_iff.mp (Nat.le_zero.mp hlen)
    · intro htail
      refine ⟨request, result, hcall, fun hfirst summaryText => ?_⟩
      refine ⟨ms, [], (List.append_nil ms).symm, ?_, ?_, ?_⟩
      · rw [htail hfirst]
        exact ⟨List.suffix_refl _, Nat.zero_le _, fun suf hsuf _ => hsuf.length_le⟩
      · rw [hrequest, List.take_length]
      · rw [hresult, compactedHistory_systemFirst hfirst, List.drop_length]

/-- The split is right just when there is a message, and the messages together are too
much to be kept or there is nothing but the system prompt. -/
theorem keepsRecent_iff (bpe : Encodings) (model : String) (config : CompactionConfig)
    (ms : List ChatMessage) :
    KeepsRecent bpe model config ms ↔
      ms ≠ [] ∧ (SystemFirst ms → ms.tail = [] ∨
        config.keepRecentTokens < totalCost (messageCost bpe model) ms) := by
  by_cases hms : ms = []
  · rcases compactHistory_eq bpe model config ms with ⟨-, hnone⟩ | ⟨hne, -⟩
    · constructor
      · rintro ⟨request, result, hcall, -⟩
        rw [hnone] at hcall
        cases hcall
      · rintro ⟨hne, -⟩
        exact absurd hms hne
    · exact absurd hms hne
  · rcases Nat.lt_or_ge config.keepRecentTokens (totalCost (messageCost bpe model) ms) with
      hover | hfits
    · exact ⟨fun _ => ⟨hms, fun _ => Or.inr hover⟩, fun _ => keepsRecent_of_over hms hover⟩
    · rw [keepsRecent_iff_of_fits hms hfits]
      constructor
      · exact fun h => ⟨hms, fun hfirst => Or.inl (h hfirst)⟩
      · rintro ⟨-, h⟩ hfirst
        exact (h hfirst).resolve_right (by omega)

/-- A system prompt and a greeting. -/
def greeting : List ChatMessage :=
  [plainMessage .system "You are a helpful assistant.", plainMessage .user "Hello"]

/-- With the default configuration the window of `gpt-4` is smaller than the reserve, so a
greeting is to be compacted; it fits, and is summarized away. -/
theorem greeting_summarized_away :
    needsCompaction (fun _ => none) greeting "gpt-4" .default = true ∧
      ¬ KeepsRecent (fun _ => none) "gpt-4" .default greeting := by
  refine ⟨by decide, ?_⟩
  rw [keepsRecent_iff_of_fits (by decide) (by decide)]
  intro h
  have hfirst : SystemFirst greeting := ⟨rfl, by decide⟩
  exact absurd (h hfirst) (by decide)

/-! ## §4  Calls and results -/

/-- Every tool message follows an assistant message with the call that it answers. -/
def Answered (ms : List ChatMessage) : Prop :=
  ∀ pre m post, ms = pre ++ m :: post → m.isTool = true →
    ∃ id, m.toolCallId = some id ∧ ∃ a ∈ pre, id ∈ a.callIds

/-- Where the messages from a tool message on are not too much, they are not too much from
one of its calls on either; or all messages together are not. -/
def CutKeepsCalls (cost : ChatMessage → ℕ) (keep : ℕ) (ms : List ChatMessage) : Prop :=
  keep < totalCost cost ms → ∀ pre m post, ms = pre ++ m :: post → m.isTool = true →
    totalCost cost (m :: post) ≤ keep →
      ∃ id, m.toolCallId = some id ∧ ∃ older a mid, pre = older ++ a :: mid ∧
        id ∈ a.callIds ∧ totalCost cost (a :: mid ++ m :: post) ≤ keep

theorem answered_nil : Answered [] := by
  intro pre m post h
  simp at h

/-- A message that is no result and has no calls makes no difference in front. -/
theorem answered_cons (htool : a.isTool = false) (hcalls : a.callIds = []) :
    Answered (a :: ms) ↔ Answered ms := by
  constructor
  · intro h pre m post heq hm
    obtain ⟨id, hid, a', ha', hcall⟩ := h (a :: pre) m post (by rw [heq]; rfl) hm
    rcases List.mem_cons.mp ha' with rfl | ha'
    · rw [hcalls] at hcall
      cases hcall
    · exact ⟨id, hid, a', ha', hcall⟩
  · intro h pre m post heq hm
    cases pre with
    | nil =>
        rw [List.nil_append, List.cons.injEq] at heq
        rw [← heq.1, htool] at hm
        cases hm
    | cons p pre =>
        rw [List.cons_append, List.cons.injEq] at heq
        obtain ⟨id, hid, a', ha', hcall⟩ := h pre m post heq.2 hm
        exact ⟨id, hid, a', List.mem_cons_of_mem _ ha', hcall⟩

theorem plain_of_system (h : a.role = .system) : a.isTool = false ∧ a.callIds = [] :=
  ⟨ChatMessage.isTool_eq_false_iff.mpr (by simp [h]),
    ChatMessage.callIds_of_not_assistant (by simp [h])⟩

/-- The system prompt and the summary neither call nor answer. -/
theorem answered_compactedHistory (splitIdx : ℕ) (summaryText : String) :
    Answered (compactedHistory ms splitIdx summaryText) ↔ Answered (ms.drop splitIdx) := by
  have hsummary : Answered (summaryMessage summaryText :: ms.drop splitIdx) ↔
      Answered (ms.drop splitIdx) := by
    obtain ⟨htool, hcalls⟩ := plain_of_system (a := summaryMessage summaryText) rfl
    exact answered_cons htool hcalls
  cases hfind : ms.find? (fun m => m.role == .system) with
  | none =>
      simp only [compactedHistory, hfind]
      exact hsummary
  | some sys =>
      have hrole : sys.role = .system := by simpa using List.find?_some hfind
      obtain ⟨htool, hcalls⟩ := plain_of_system hrole
      simp only [compactedHistory, hfind]
      exact (answered_cons htool hcalls).trans hsummary

/-- The place of a message that is kept. -/
theorem split_le_of_eq (hover : config.keepRecentTokens < totalCost (messageCost bpe model) ms)
    (heq : ms = pre ++ post) : compactionSplit bpe ms model config ≤ pre.length ↔
      totalCost (messageCost bpe model) post ≤ config.keepRecentTokens := by
  rw [compactionSplit_le_iff hover]
  conv_lhs => rw [heq, List.drop_left]

theorem answered_drop_iff :
    Answered (ms.drop (compactionSplit bpe ms model config)) ↔
      CutKeepsCalls (messageCost bpe model) config.keepRecentTokens ms := by
  rcases Nat.lt_or_ge config.keepRecentTokens (totalCost (messageCost bpe model) ms) with
    hover | hfits
  · have happ := List.take_append_drop (compactionSplit bpe ms model config) ms
    generalize hold : ms.take (compactionSplit bpe ms model config) = old at happ
    generalize ms.drop (compactionSplit bpe ms model config) = kept at happ
    have hlen : old.length = compactionSplit bpe ms model config := by
      have hms : ms ≠ [] := by
        rintro rfl
        exact absurd hover (Nat.not_lt_zero _)
      rw [← hold, List.length_take, Nat.min_eq_left (compactionSplit_le_length _ _ _ hms)]
    constructor
    · intro h _ pre m post heq hm hpost
      have hle := (split_le_of_eq hover heq).mpr hpost
      obtain ⟨pre', hpre, hkept⟩ : ∃ pre', pre = old ++ pre' ∧ kept = pre' ++ m :: post := by
        have hprefix : old <+: pre :=
          List.prefix_of_prefix_length_le ⟨kept, happ⟩ ⟨m :: post, heq.symm⟩ (hlen ▸ hle)
        obtain ⟨pre', rfl⟩ := hprefix
        refine ⟨pre', rfl, ?_⟩
        rw [← happ, List.append_assoc] at heq
        exact List.append_cancel_left heq
      obtain ⟨id, hid, a, ha, hcall⟩ := h pre' m post hkept hm
      obtain ⟨older, mid, rfl⟩ := List.append_of_mem ha
      refine ⟨id, hid, old ++ older, a, mid, by rw [hpre, List.append_assoc], hcall, ?_⟩
      have hat : ms = (old ++ older) ++ (a :: mid ++ m :: post) := by
        rw [heq, hpre]
        simp
      apply (split_le_of_eq hover hat).mp
      rw [List.length_append, hlen]
      exact Nat.le_add_right _ _
    · intro h pre m post hkept hm
      have heq : ms = (old ++ pre) ++ m :: post := by rw [← happ, hkept, List.append_assoc]
      have hpost := (split_le_of_eq hover heq).mp (by
        rw [List.length_append, hlen]
        exact Nat.le_add_right _ _)
      obtain ⟨id, hid, older, a, mid, hpre, hcall, hfits⟩ :=
        h hover (old ++ pre) m post heq hm hpost
      have hat : ms = older ++ (a :: mid ++ m :: post) := by
        rw [heq, hpre]
        simp
      have hle := (split_le_of_eq hover hat).mpr hfits
      -- the call is not in the old part, since from it on everything is kept
      refine ⟨id, hid, a, ?_, hcall⟩
      have hin : pre = (older ++ a :: mid).drop old.length := by
        rw [← hpre, List.drop_left]
      rw [hin, List.drop_append_of_le_length (hlen ▸ hle)]
      exact List.mem_append_right _ List.mem_cons_self
  · rw [compactionSplit_of_fits hfits, List.drop_eq_nil_of_le (Nat.le_max_left _ _)]
    exact ⟨fun _ hover => absurd hover (by omega), fun _ => answered_nil⟩

section Agent

variable {W : Type} {O : Outside W} {A : AgentSetup}

theorem summaryAttempts_history (r : ChatRequest) (n : ℕ) (s : Live W) :
    (s.summaryAttempts O r n).2.tape.history = s.tape.history := by
  induction n generalizing s with
  | zero => rfl
  | succ n ih =>
      rw [Live.summaryAttempts]
      have hchat : (s.chat O r).2.tape.history = s.tape.history := rfl
      rcases hresp : s.chat O r with ⟨_ | resp, s'⟩
      · rw [hresp] at hchat
        exact (ih s').trans hchat
      · rw [hresp] at hchat
        exact hchat

/-- The agent is configured to compact, its history is long enough, and the provider
answers one of the requests for a summary. -/
def Compacts (O : Outside W) (A : AgentSetup) (s : Live W) (cfg : CompactionConfig) : Prop :=
  A.compactionConfig = some cfg ∧
    needsCompaction O.bpe s.tape.history A.config.model cfg = true ∧
    (s.summaryAttempts O (summaryRequest A (s.tape.history.take
      (compactionSplit O.bpe s.tape.history A.config.model cfg))) cfg.retryAttempts).1 ≠ none

/-- `try_compact` leaves the history alone or installs the compacted one. -/
theorem tryCompact_history (s : Live W) :
    (∀ cfg, ¬ Compacts O A s cfg) ∧ (s.tryCompact O A).tape.history = s.tape.history ∨
      ∃ cfg summaryText, Compacts O A s cfg ∧ (s.tryCompact O A).tape.history =
        compactedHistory s.tape.history
          (compactionSplit O.bpe s.tape.history A.config.model cfg) summaryText := by
  cases hcfg : A.compactionConfig with
  | none =>
      refine Or.inl ⟨fun cfg h => ?_, by simp [Live.tryCompact, hcfg]⟩
      rw [Compacts, hcfg] at h
      cases h.1
  | some cfg =>
      by_cases hneeds : needsCompaction O.bpe s.tape.history A.config.model cfg = true
      · rcases hsum : s.summaryAttempts O (summaryRequest A (s.tape.history.take
          (compactionSplit O.bpe s.tape.history A.config.model cfg))) cfg.retryAttempts with
          ⟨_ | summaryText, s'⟩
        · have hkept := summaryAttempts_history (O := O) (summaryRequest A (s.tape.history.take
            (compactionSplit O.bpe s.tape.history A.config.model cfg))) cfg.retryAttempts s
          rw [hsum] at hkept
          refine Or.inl ⟨fun cfg' h => ?_, by simpa [Live.tryCompact, hcfg, hneeds, hsum] using
            hkept⟩
          obtain ⟨hcfg', -, hsome⟩ := h
          rw [hcfg] at hcfg'
          cases hcfg'
          exact hsome (by rw [hsum])
        · refine Or.inr ⟨cfg, summaryText, ⟨hcfg, hneeds, by simp [hsum]⟩, ?_⟩
          simp only [Live.tryCompact, hcfg, hneeds, if_true, hsum]
          split <;> rfl
      · refine Or.inl ⟨fun cfg' h => ?_, by simp [Live.tryCompact, hcfg, hneeds]⟩
        obtain ⟨hcfg', hneeds', -⟩ := h
        rw [hcfg] at hcfg'
        cases hcfg'
        exact hneeds hneeds'

/-- A compaction keeps calls and results together just when the cut does. -/
theorem tryCompact_answered_iff (O : Outside W) (A : AgentSetup) (s : Live W)
    (hanswered : Answered s.tape.history) :
    Answered (s.tryCompact O A).tape.history ↔
      ∀ cfg, Compacts O A s cfg →
        CutKeepsCalls (messageCost O.bpe A.config.model) cfg.keepRecentTokens s.tape.history := by
  rcases tryCompact_history (O := O) (A := A) s with ⟨hnone, hsame⟩ | ⟨cfg, text, hcfg, hnew⟩
  · rw [hsame]
    exact ⟨fun _ cfg hcfg => absurd hcfg (hnone cfg), fun _ => hanswered⟩
  · rw [hnew, answered_compactedHistory, answered_drop_iff]
    constructor
    · intro h cfg' hcfg'
      have heq := hcfg.1.symm.trans hcfg'.1
      cases heq
      exact h
    · exact fun h => h cfg hcfg

end Agent

/-- An outside world whose provider answers every request with the same summary. -/
def summarizer : Outside Unit where
  chat := fun _ w => (.ok ⟨[assistantMessage "The weather was asked for." none], none⟩, w)
  execute := fun _ _ w => (.ok "done", w)
  availableTools := fun _ => []
  memoryRecall := fun _ _ _ w => ([], w)
  approvalTicket := fun w => (("request", 0), w)
  appends := fun w => (true, w)
  compactionMarker := fun _ w => ("", w)
  debugError := fun _ => "None"
  hashStr := fun _ => 0
  bpe := fun _ => none
  codec := ⟨fun _ => "", fun _ => none⟩

/-- An agent that keeps the given number of recent tokens. -/
def compactingSetup (keepRecentTokens : ℕ) : AgentSetup where
  config := ⟨"gpt-4", some "You are helpful.", none, none, some 3, some 32⟩
  hasTranscript := false
  historyLimit := none
  compactionConfig := some ⟨16384, keepRecentTokens, 3⟩
  pruningConfig := none
  recallConfig := none
  contextGuard := none

/-- An assistant asks for the weather. -/
def weatherCall : ChatMessage :=
  assistantMessage "" (some [⟨"call_1", "function", ⟨"weather", "Chennai"⟩⟩])

def weatherResult : ChatMessage :=
  toolResult ⟨"call_1", "function", ⟨"weather", "Chennai"⟩⟩ "sunny"

def weatherQuestion : ChatMessage := plainMessage .user "What is the weather in Chennai?"

/-- The agent once the tool has answered. -/
def weatherAgent : Live Unit :=
  { Live.new none () none with
    tape := ⟨[weatherQuestion, weatherCall, weatherResult], none, []⟩ }

theorem weather_split (heq : weatherAgent.tape.history = pre ++ m :: post)
    (hm : m.isTool = true) :
    pre = [weatherQuestion, weatherCall] ∧ m = weatherResult ∧ post = [] := by
  change [weatherQuestion, weatherCall, weatherResult] = pre ++ m :: post at heq
  rcases pre with _ | ⟨x, _ | ⟨y, _ | ⟨z, pre⟩⟩⟩
  · obtain ⟨rfl, -⟩ := List.cons.inj heq
    cases hm
  · obtain ⟨-, rfl, -⟩ : _ ∧ _ ∧ _ := by simpa using heq
    cases hm
  · obtain ⟨rfl, rfl, rfl, rfl⟩ : _ ∧ _ ∧ _ ∧ _ := by simpa using heq
    exact ⟨rfl, rfl, rfl⟩
  · simp at heq

theorem answered_weather : Answered weatherAgent.tape.history := by
  intro pre m post heq hm
  obtain ⟨rfl, rfl, rfl⟩ := weather_split heq hm
  exact ⟨"call_1", rfl, weatherCall, by simp, List.mem_singleton.mpr rfl⟩

/-- The result fits what is to be kept and its call does not: the call is summarized
away. -/
theorem weather_result_orphaned : Answered weatherAgent.tape.history ∧
    ¬ Answered (weatherAgent.tryCompact summarizer (compactingSetup 6)).tape.history := by
  refine ⟨answered_weather, fun h => ?_⟩
  obtain ⟨id, -, a, ha, hcall⟩ := h [summaryMessage "The weather was asked for."] weatherResult []
    (by decide) rfl
  rw [List.mem_singleton.mp ha] at hcall
  cases hcall

/-- A few tokens more, and the cut falls in front of the call. -/
theorem weather_call_kept :
    Answered (weatherAgent.tryCompact summarizer (compactingSetup 10)).tape.history := by
  refine (tryCompact_answered_iff summarizer (compactingSetup 10) weatherAgent
    answered_weather).mpr ?_
  rintro cfg ⟨hcfg, -⟩ - pre m post heq hm -
  obtain rfl := Option.some.inj hcfg
  obtain ⟨rfl, rfl, rfl⟩ := weather_split heq hm
  exact ⟨"call_1", rfl, [weatherQuestion], weatherCall, [], rfl, List.mem_singleton.mpr rfl,
    by decide⟩

end Oclaw.AgentCore
