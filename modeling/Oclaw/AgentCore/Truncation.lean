import Mathlib.Algebra.GroupWithZero.Nat
import Mathlib.Data.List.Forall2
import Mathlib.Data.List.Induction
import Oclaw.AgentCore.ContextBudget
import Oclaw.Lib.CharBoundary

/-!
# Progress of a truncation

`truncate_tool_results` of `crates/agent-core/src/context_guard.rs` and
`truncate_history_tool_results` of `agent.rs` cut a text and append a marker of their own,
so a text gets shorter only if more is cut off than is appended. Halving for the budget
leaves short results alone; the other two do not.
-/

namespace Oclaw.AgentCore

open Oclaw.Lib

variable {ms ms' ms'' older newer : List ChatMessage} {m m' m'' : ChatMessage}
  {bpe : Encodings} {model : String} {limit n : ℕ}

/-! ## §1  The longest result -/

def textLen (m : ChatMessage) : ℕ := byteLen m.content.toList

/-- `m` is the last one of the longest tool results. -/
structure LastLongest (ms older : List ChatMessage) (m : ChatMessage)
    (newer : List ChatMessage) : Prop where
  split : ms = older ++ m :: newer
  tool : m.isTool = true
  before : ∀ x ∈ older, x.isTool = true → textLen x ≤ textLen m
  after : ∀ x ∈ newer, x.isTool = true → textLen x < textLen m

/-- One step of `max_by_key`: a result as long as the best one takes its place. -/
def longerResult (best : Option (ℕ × ℕ)) (p : ChatMessage × ℕ) : Option (ℕ × ℕ) :=
  match best with
  | none => some (textLen p.1, p.2)
  | some (len', idx') =>
      if len' ≤ textLen p.1 then some (textLen p.1, p.2) else some (len', idx')

def longestResult (ms : List ChatMessage) : Option (ℕ × ℕ) :=
  (ms.zipIdx.filter (fun p => p.1.role == .tool)).foldl longerResult none

theorem largestToolResult_eq (ms : List ChatMessage) :
    largestToolResult ms = (longestResult ms).map Prod.snd := rfl

theorem longestResult_concat (ms : List ChatMessage) (m : ChatMessage) :
    longestResult (ms ++ [m]) =
      if m.isTool then longerResult (longestResult ms) (m, ms.length) else longestResult ms := by
  unfold longestResult
  rw [List.zipIdx_append, List.filter_append, List.foldl_append, List.zipIdx_singleton,
    Nat.zero_add]
  cases htool : m.isTool with
  | true =>
      have hkeep : (m.role == .tool) = true := htool
      rw [List.filter_cons, if_pos hkeep]
      rfl
  | false =>
      have hdrop : ¬ (m.role == .tool) = true := by
        rw [← ChatMessage.isTool, htool]
        exact Bool.false_ne_true
      rw [List.filter_cons, if_neg hdrop]
      rfl

theorem LastLongest.mem (h : LastLongest ms older m newer) : m ∈ ms := by
  rw [h.split]
  exact List.mem_append_right _ List.mem_cons_self

theorem LastLongest.le (h : LastLongest ms older m newer) (hm' : m' ∈ ms)
    (htool : m'.isTool = true) : textLen m' ≤ textLen m := by
  rw [h.split] at hm'
  rcases List.mem_append.mp hm' with hm' | hm'
  · exact h.before m' hm' htool
  · rcases List.mem_cons.mp hm' with rfl | hm'
    · exact Nat.le_refl _
    · exact Nat.le_of_lt (h.after m' hm' htool)

theorem longestResult_spec (ms : List ChatMessage) :
    (longestResult ms = none ∧ ∀ m ∈ ms, m.isTool = false) ∨
      ∃ older m newer, LastLongest ms older m newer ∧
        longestResult ms = some (textLen m, older.length) := by
  induction ms using List.reverseRecOn with
  | nil => exact Or.inl ⟨rfl, fun m hm => by cases hm⟩
  | append_singleton ms x ih =>
      rw [longestResult_concat]
      cases htool : x.isTool with
      | false =>
          rw [if_neg Bool.false_ne_true]
          rcases ih with ⟨hnone, hno⟩ | ⟨older, m, newer, hlongest, hsome⟩
          · refine Or.inl ⟨hnone, fun m hm => ?_⟩
            rcases List.mem_append.mp hm with hm | hm
            · exact hno m hm
            · rw [List.mem_singleton.mp hm, htool]
          · refine Or.inr ⟨older, m, newer ++ [x], ⟨?_, hlongest.tool, hlongest.before, ?_⟩, hsome⟩
            · rw [hlongest.split, List.append_assoc, List.cons_append]
            · intro y hy hytool
              rcases List.mem_append.mp hy with hy | hy
              · exact hlongest.after y hy hytool
              · rw [List.mem_singleton.mp hy, htool] at hytool
                cases hytool
      | true =>
          rw [if_pos rfl]
          rcases ih with ⟨hnone, hno⟩ | ⟨older, m, newer, hlongest, hsome⟩
          · refine Or.inr ⟨ms, x, [], ⟨rfl, htool, ?_, fun y hy => by cases hy⟩, by rw [hnone]; rfl⟩
            intro y hy hytool
            rw [hno y hy] at hytool
            cases hytool
          · rw [hsome, longerResult]
            by_cases hle : textLen m ≤ textLen x
            · rw [if_pos hle]
              refine Or.inr ⟨ms, x, [], ⟨rfl, htool, ?_, fun y hy => by cases hy⟩, rfl⟩
              exact fun y hy hytool => Nat.le_trans (hlongest.le hy hytool) hle
            · rw [if_neg hle]
              refine Or.inr ⟨older, m, newer ++ [x], ⟨?_, hlongest.tool, hlongest.before, ?_⟩, rfl⟩
              · rw [hlongest.split, List.append_assoc, List.cons_append]
              · intro y hy hytool
                rcases List.mem_append.mp hy with hy | hy
                · exact hlongest.after y hy hytool
                · rw [List.mem_singleton.mp hy]
                  omega

theorem LastLongest.unique {older' newer' : List ChatMessage} (h : LastLongest ms older m newer)
    (h' : LastLongest ms older' m' newer') : older = older' ∧ m = m' ∧ newer = newer' := by
  have hlen : textLen m = textLen m' :=
    Nat.le_antisymm (h'.le h.mem h.tool) (h.le h'.mem h'.tool)
  have heq := h.split.symm.trans h'.split
  rcases List.append_eq_append_iff.mp heq with ⟨c, rfl, hc⟩ | ⟨c, rfl, hc⟩
  · cases c with
    | nil =>
        obtain ⟨rfl, rfl⟩ := List.cons.inj hc
        exact ⟨(List.append_nil _).symm, rfl, rfl⟩
    | cons y c =>
        -- `m'` is behind `m` and as long
        obtain ⟨rfl, rfl⟩ := List.cons.inj hc
        have := h.after m' (by simp) h'.tool
        omega
  · cases c with
    | nil =>
        obtain ⟨rfl, rfl⟩ := List.cons.inj hc
        exact ⟨List.append_nil _, rfl, rfl⟩
    | cons y c =>
        obtain ⟨rfl, rfl⟩ := List.cons.inj hc
        have := h'.after m (by simp) h.tool
        omega

theorem largestToolResult_of_lastLongest (h : LastLongest ms older m newer) :
    largestToolResult ms = some older.length := by
  rw [largestToolResult_eq]
  rcases longestResult_spec ms with ⟨-, hno⟩ | ⟨older', m', newer', hlongest, hsome⟩
  · have hm := hno m h.mem
    rw [h.tool] at hm
    cases hm
  · obtain ⟨rfl, -, -⟩ := h.unique hlongest
    rw [hsome]
    rfl

/-! ## §2  Shorter messages -/

/-- The same message, or a tool result with a shorter text. -/
def Shrunk (m m' : ChatMessage) : Prop :=
  m' = m ∨ (m.isTool = true ∧ (∃ content, m' = { m with content := content }) ∧
    textLen m' < textLen m)

theorem Shrunk.trans (h : Shrunk m m') (h' : Shrunk m' m'') : Shrunk m m'' := by
  rcases h with rfl | ⟨htool, ⟨content, hm'⟩, hlt⟩
  · exact h'
  · rcases h' with rfl | ⟨-, ⟨content', hm''⟩, hlt'⟩
    · exact Or.inr ⟨htool, ⟨content, hm'⟩, hlt⟩
    · exact Or.inr ⟨htool, ⟨content', by rw [hm'', hm']⟩, Nat.lt_trans hlt' hlt⟩

theorem forall₂_shrunk_refl (ms : List ChatMessage) : List.Forall₂ Shrunk ms ms :=
  List.forall₂_same.mpr (fun _ _ => Or.inl rfl)

theorem forall₂_shrunk_trans (h : List.Forall₂ Shrunk ms ms') (h' : List.Forall₂ Shrunk ms' ms'') :
    List.Forall₂ Shrunk ms ms'' := by
  induction h generalizing ms'' with
  | nil => exact h'
  | cons hm _ ih =>
      obtain ⟨m'', rest, hm', hrest, rfl⟩ := List.forall₂_cons_left_iff.mp h'
      exact List.Forall₂.cons (hm.trans hm') (ih hrest)

/-- One message of a list is replaced by a shorter one. -/
theorem forall₂_shrunk_replace (h : Shrunk m m') (older newer : List ChatMessage) :
    List.Forall₂ Shrunk (older ++ m :: newer) (older ++ m' :: newer) := by
  induction older with
  | nil => exact List.Forall₂.cons h (forall₂_shrunk_refl newer)
  | cons x older ih => exact List.Forall₂.cons (Or.inl rfl) ih

theorem shrunk_rewriteContent_iff {f : String → String} (htool : m.isTool = true) :
    Shrunk m (rewriteContent f m) ↔
      f m.content = m.content ∨ byteLen (f m.content).toList < textLen m := by
  constructor
  · rintro (hsame | ⟨-, -, hlt⟩)
    · exact Or.inl (congrArg ChatMessage.content hsame)
    · exact Or.inr hlt
  · rintro (hsame | hlt)
    · left
      rw [rewriteContent, hsame]
    · exact Or.inr ⟨htool, ⟨_, rfl⟩, hlt⟩

theorem modify_length (f : ChatMessage → ChatMessage) :
    (older ++ m :: newer).modify older.length f = older ++ f m :: newer := by
  induction older with
  | nil => rfl
  | cons x older ih => rw [List.cons_append, List.length_cons, List.modify_succ_cons, ih]; rfl

/-! ## §3  Cuts and markers -/

/-- What a cut at `n` bytes keeps: the text up to the last line feed before it, if there is
one. -/
def keptStart (n : ℕ) (cs : List Char) : List Char :=
  (beforeLast '\n' (floorStart n cs)).getD (floorStart n cs)

theorem firstHalf_eq (cs : List Char) : firstHalf cs = keptStart (byteLen cs / 2) cs := rfl

theorem byteLen_keptStart_le (n : ℕ) (cs : List Char) : byteLen (keptStart n cs) ≤ n := by
  refine Nat.le_trans ?_ (byteLen_floorStart_le n cs)
  rw [keptStart]
  cases hline : beforeLast '\n' (floorStart n cs) with
  | none => exact Nat.le_refl _
  | some start =>
      have hle := byteLen_le_of_isPrefix (beforeLast_isPrefix hline)
      rw [byteLen_append] at hle
      exact Nat.le_trans (Nat.le_add_right _ _) hle

/-- The number of decimal digits. -/
def digits (n : ℕ) : ℕ := (Nat.toDigits 10 n).length

theorem byteLen_digits (n : ℕ) : byteLen (toString n).toList = digits n := byteLen_toString n

/-- The marker of `truncate_history_tool_results` takes 47 bytes and the digits of the
length. -/
theorem byteLen_historyMarked (cs : List Char) (n : ℕ) :
    byteLen (String.ofList cs ++ "...\n[truncated for context limit, " ++ toString n ++
      " chars total]").toList = byteLen cs + 47 + digits n := by
  have hopen : byteLen "...\n[truncated for context limit, ".toList = 34 := by decide
  have hclose : byteLen " chars total]".toList = 13 := by decide
  simp only [String.toList_append, String.toList_ofList, byteLen_append, byteLen_digits, hopen,
    hclose]
  omega

/-- The marker for a single result. -/
def capMarker (tok limit : ℕ) : String :=
  "\n\n[Truncated by context guard — original ~" ++ toString tok ++ " tokens, limit " ++
    toString limit ++ "]"

theorem byteLen_capMarker (tok limit : ℕ) :
    byteLen (capMarker tok limit).toList = digits tok + digits limit + 60 := by
  have hopen : byteLen "\n\n[Truncated by context guard — original ~".toList = 44 := by
    decide
  have hlimit : byteLen " tokens, limit ".toList = 15 := by decide
  have hclose : byteLen "]".toList = 1 := by decide
  -- for any two texts, since two numbers are not to be compared digit by digit
  have hlen : ∀ s t : String, byteLen ("\n\n[Truncated by context guard — original ~" ++ s ++
      " tokens, limit " ++ t ++ "]").toList = byteLen s.toList + byteLen t.toList + 60 := by
    intro s t
    simp only [String.toList_append, byteLen_append, hopen, hlimit, hclose]
    omega
  exact (hlen _ _).trans (congrArg₂ (· + · + 60) (byteLen_digits tok) (byteLen_digits limit))

/-- The marker of a halving takes 52 bytes, so more than 200 bytes get fewer. -/
theorem byteLen_halved_lt {cs : List Char} (h : 200 < byteLen cs) :
    byteLen (String.ofList (firstHalf cs) ++
      "\n\n[Truncated by context guard — halved for budget]").toList < byteLen cs := by
  have hhalf := byteLen_keptStart_le (byteLen cs / 2) cs
  rw [← firstHalf_eq] at hhalf
  have hmarker : byteLen "\n\n[Truncated by context guard — halved for budget]".toList = 52 := by
    decide
  simp only [String.toList_append, String.toList_ofList, byteLen_append, hmarker]
  omega

/-! ## §4  Halving for the budget -/

/-- The second pass of the guard only shrinks. -/
theorem halveLargest_shrunk (g : ContextGuard) (bpe : Encodings) (model : String) (n : ℕ)
    (ms : List ChatMessage) : List.Forall₂ Shrunk ms (g.halveLargest bpe model n ms) := by
  induction n generalizing ms with
  | zero => exact forall₂_shrunk_refl ms
  | succ n ih =>
      unfold ContextGuard.halveLargest
      split
      · exact forall₂_shrunk_refl ms
      · split
        · exact forall₂_shrunk_refl ms
        · rename_i idx hidx
          split
          · exact forall₂_shrunk_refl ms
          · rename_i hlong
            rcases longestResult_spec ms with ⟨hnone, -⟩ | ⟨older, m, newer, hlongest, hsome⟩
            · rw [largestToolResult_eq, hnone] at hidx
              cases hidx
            · rw [largestToolResult_eq, hsome] at hidx
              obtain rfl : older.length = idx := Option.some.inj hidx
              have hget : (older ++ m :: newer)[older.length]? = some m := by
                rw [List.getElem?_append_right (Nat.le_refl _), Nat.sub_self]
                rfl
              rw [hlongest.split, hget] at hlong
              have hlen : 200 < byteLen m.content.toList := Nat.lt_of_not_le hlong
              refine forall₂_shrunk_trans ?_ (ih _)
              rw [hlongest.split, modify_length]
              refine forall₂_shrunk_replace ?_ older newer
              rw [shrunk_rewriteContent_iff hlongest.tool]
              exact Or.inr (byteLen_halved_lt hlen)

/-! ## §5  Results over their limit -/

/-- What is cut off a result over the limit makes up for the marker, unless it is that very
marker. -/
def CapCutsEnough (bpe : Encodings) (model : String) (limit : ℕ) (m : ChatMessage) : Prop :=
  m.isTool = true → limit < TokenCounter.count bpe m.content model → limit * 4 < textLen m →
    m.content = String.ofList (keptStart (limit * 4) m.content.toList) ++
        capMarker (TokenCounter.count bpe m.content model) limit ∨
      byteLen (keptStart (limit * 4) m.content.toList) +
        (digits (TokenCounter.count bpe m.content model) + digits limit + 60) < textLen m

theorem capResult_eq (g : ContextGuard) (bpe : Encodings) (model : String)
    (hover : m.role = .tool ∧ g.toolResultLimit < TokenCounter.count bpe m.content model ∧
      g.toolResultLimit * 4 < byteLen m.content.toList) :
    g.capResult bpe model m = rewriteContent (fun _ =>
      String.ofList (keptStart (g.toolResultLimit * 4) m.content.toList) ++
        capMarker (TokenCounter.count bpe m.content model) g.toolResultLimit) m := by
  have hassoc : ∀ k a s b t c : String,
      k ++ a ++ s ++ b ++ t ++ c = k ++ (a ++ s ++ b ++ t ++ c) := by
    intro k a s b t c
    simp only [String.append_assoc]
  unfold ContextGuard.capResult
  simp only
  rw [if_pos hover, hassoc]
  rfl

theorem capResult_shrunk_iff (g : ContextGuard) (bpe : Encodings) (model : String)
    (m : ChatMessage) : Shrunk m (g.capResult bpe model m) ↔
      CapCutsEnough bpe model g.toolResultLimit m := by
  by_cases hover : m.role = .tool ∧ g.toolResultLimit < TokenCounter.count bpe m.content model ∧
      g.toolResultLimit * 4 < byteLen m.content.toList
  · have htool : m.isTool = true := ChatMessage.isTool_iff.mpr hover.1
    rw [capResult_eq g bpe model hover, shrunk_rewriteContent_iff htool, String.toList_append,
      String.toList_ofList, byteLen_append, byteLen_capMarker]
    constructor
    · rintro h - - -
      exact h.imp_left Eq.symm
    · intro h
      exact (h htool hover.2.1 hover.2.2).imp_left Eq.symm
  · have hsame : g.capResult bpe model m = m := by
      unfold ContextGuard.capResult
      exact if_neg hover
    rw [hsame]
    refine ⟨fun _ htool htok hlen => absurd ?_ hover, fun _ => Or.inl rfl⟩
    exact ⟨ChatMessage.isTool_iff.mp htool, htok, hlen⟩

/-! ## §6  Progress -/

/-- `HARD_MIN_TOKENS` -/
def hardMinTokens : ℕ := 16000

def totalLen (ms : List ChatMessage) : ℕ := (ms.map textLen).sum

/-- Recovery from an overflow makes progress: the guard changes only texts of tool results,
and makes those shorter; the agent's truncation makes the history shorter. -/
structure MakesProgress (bpe : Encodings) (model : String) (limit : ℕ)
    (ms : List ChatMessage) : Prop where
  guard : ∀ inputBudget, hardMinTokens ≤ inputBudget →
    List.Forall₂ Shrunk ms (ContextGuard.truncateToolResults ⟨inputBudget, limit⟩ bpe ms model)
  history : (∃ m ∈ ms, m.isTool = true ∧ m.content ≠ "") →
    totalLen (truncateHistoryToolResults ms) < totalLen ms

/-- What is cut off the last of the longest results makes up for the marker. -/
def HalfCutsEnough (ms : List ChatMessage) : Prop :=
  ∀ older m newer, LastLongest ms older m newer → m.content ≠ "" →
    byteLen (firstHalf m.content.toList) + 47 + digits (textLen m) < textLen m

theorem textLen_pos_iff : 0 < textLen m ↔ m.content ≠ "" := by
  rw [textLen]
  constructor
  · intro h hnil
    rw [hnil] at h
    exact absurd h (Nat.lt_irrefl 0)
  · intro h
    cases hcs : m.content.toList with
    | nil => exact absurd (String.toList_eq_nil_iff.mp hcs) h
    | cons c cs =>
        have := c.utf8Size_pos
        rw [byteLen_cons]
        omega

theorem totalLen_truncateHistory (h : LastLongest ms older m newer) :
    totalLen (truncateHistoryToolResults ms) + textLen m =
      totalLen ms + (byteLen (firstHalf m.content.toList) + 47 + digits (textLen m)) := by
  have hlen : textLen (rewriteContent (fun content => String.ofList (firstHalf content.toList) ++
      "...\n[truncated for context limit, " ++ toString (byteLen content.toList) ++
      " chars total]") m) =
      byteLen (firstHalf m.content.toList) + 47 + digits (textLen m) :=
    byteLen_historyMarked (firstHalf m.content.toList) (textLen m)
  rw [truncateHistoryToolResults, largestToolResult_of_lastLongest h]
  simp only
  rw [h.split, modify_length]
  simp only [totalLen, List.map_append, List.map_cons, List.sum_append, List.sum_cons, hlen]
  omega

theorem history_progress_iff (ms : List ChatMessage) :
    ((∃ m ∈ ms, m.isTool = true ∧ m.content ≠ "") →
      totalLen (truncateHistoryToolResults ms) < totalLen ms) ↔ HalfCutsEnough ms := by
  constructor
  · intro hprogress older m newer hlongest hne
    have hlt := hprogress ⟨m, hlongest.mem, hlongest.tool, hne⟩
    have htotal := totalLen_truncateHistory hlongest
    omega
  · rintro henough ⟨m, hm, htool, hne⟩
    rcases longestResult_spec ms with ⟨-, hno⟩ | ⟨older, m', newer, hlongest, -⟩
    · rw [hno m hm] at htool
      cases htool
    · have hpos := Nat.lt_of_lt_of_le (textLen_pos_iff.mpr hne) (hlongest.le hm htool)
      have hlt := henough older m' newer hlongest (textLen_pos_iff.mp hpos)
      have htotal := totalLen_truncateHistory hlongest
      omega

/-- The first pass decides: halving for the budget only shrinks, and with a budget that the
capped messages do not exceed it does nothing. -/
theorem guard_progress_iff (bpe : Encodings) (model : String) (limit : ℕ)
    (ms : List ChatMessage) :
    (∀ inputBudget, hardMinTokens ≤ inputBudget → List.Forall₂ Shrunk ms
      (ContextGuard.truncateToolResults ⟨inputBudget, limit⟩ bpe ms model)) ↔
      ∀ m ∈ ms, CapCutsEnough bpe model limit m := by
  constructor
  · intro h m hm
    have hcapped := h _ (Nat.le_max_left hardMinTokens (TokenCounter.estimateMessages bpe
      (ms.map (ContextGuard.capResult ⟨0, limit⟩ bpe model)) model))
    have hbudget : ContextGuard.truncateToolResults
        ⟨max hardMinTokens (TokenCounter.estimateMessages bpe
          (ms.map (ContextGuard.capResult ⟨0, limit⟩ bpe model)) model), limit⟩ bpe ms model =
        ms.map (ContextGuard.capResult ⟨0, limit⟩ bpe model) := by
      rw [ContextGuard.truncateToolResults, ContextGuard.halveLargest]
      exact if_pos (Nat.le_max_right _ _)
    rw [hbudget, List.forall₂_map_right_iff, List.forall₂_same] at hcapped
    exact (capResult_shrunk_iff ⟨0, limit⟩ bpe model m).mp (hcapped m hm)
  · intro h inputBudget _
    refine forall₂_shrunk_trans ?_ (halveLargest_shrunk ⟨inputBudget, limit⟩ bpe model 5 _)
    rw [List.forall₂_map_right_iff, List.forall₂_same]
    exact fun m hm => (capResult_shrunk_iff ⟨inputBudget, limit⟩ bpe model m).mpr (h m hm)

/-- Progress is made just when more is cut off than is appended. -/
theorem makesProgress_iff (bpe : Encodings) (model : String) (limit : ℕ)
    (ms : List ChatMessage) :
    MakesProgress bpe model limit ms ↔
      (∀ m ∈ ms, CapCutsEnough bpe model limit m) ∧ HalfCutsEnough ms := by
  rw [← guard_progress_iff, ← history_progress_iff]
  exact ⟨fun h => ⟨h.guard, h.history⟩, fun h => ⟨h.1, h.2⟩⟩

/-- A result that is one line of the given length. -/
def lineResult (n : ℕ) : ChatMessage :=
  plainMessage .tool (String.ofList (List.replicate n 'x'))

theorem textLen_lineResult (n : ℕ) : textLen (lineResult n) = n := by
  have hone : 'x'.utf8Size = 1 := by decide
  rw [textLen, lineResult, plainMessage, String.toList_ofList, byteLen_replicate, hone, Nat.mul_one]

theorem count_lineResult (n : ℕ) :
    TokenCounter.count (fun _ => none) (lineResult n).content model = (n + 3) / 4 :=
  congrArg (fun len => (len + 3) / 4) (textLen_lineResult n)

/-- There is no line feed to cut at. -/
theorem le_keptStart_lineResult (limit : ℕ) (h : limit ≤ n) :
    limit ≤ byteLen (keptStart limit (lineResult n).content.toList) + 3 := by
  have hline : beforeLast '\n' (floorStart limit (lineResult n).content.toList) = none := by
    cases hbefore : beforeLast '\n' (floorStart limit (lineResult n).content.toList) with
    | none => rfl
    | some start =>
        have hprefix := (beforeLast_isPrefix hbefore).trans (floorStart_isPrefix _ _)
        have hfeed : '\n' ∈ List.replicate n 'x' := by
          rw [lineResult, plainMessage, String.toList_ofList] at hprefix
          exact hprefix.subset (List.mem_append_right _ List.mem_cons_self)
        exact absurd (List.eq_of_mem_replicate hfeed) (by decide)
  rw [keptStart, hline, Option.getD_none]
  apply le_byteLen_floorStart
  rw [← textLen, textLen_lineResult]
  exact h

/-- A short result gets a marker that is longer than what is cut off, and so does one that
is a byte longer than the 8000 tokens of a limit. -/
theorem results_grow :
    ¬ MakesProgress (fun _ => none) "gpt-4" 8000 [plainMessage .tool "ok"] ∧
      ¬ MakesProgress (fun _ => none) "gpt-4" 8000 [lineResult 32001] := by
  constructor
  · intro h
    exact absurd (h.history ⟨_, List.mem_singleton.mpr rfl, rfl, by decide⟩) (by decide)
  · intro h
    have hcap := (guard_progress_iff _ _ _ _).mp h.guard _ (List.mem_singleton.mpr rfl) rfl
    have hkept := le_keptStart_lineResult (8000 * 4) (n := 32001) (by decide)
    have hdigits : digits 8001 + digits 8000 = 8 := by decide
    rw [count_lineResult, textLen_lineResult] at hcap
    rcases hcap (by decide) (by decide) with hsame | hlt
    · have htext := textLen_lineResult 32001
      rw [textLen, hsame, String.toList_append, byteLen_append, String.toList_ofList,
        byteLen_capMarker] at htext
      omega
    · omega

end Oclaw.AgentCore
