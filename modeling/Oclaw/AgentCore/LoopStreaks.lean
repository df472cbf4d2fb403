import Oclaw.AgentCore.LoopDetect
import Oclaw.Lib.Streak
import Mathlib.Data.List.Induction

/-!
# What the loop detector measures

The two backward scans of `loop_detect.rs` against the suffixes of the history that they are
meant to measure: calls without progress, and calls that alternate between two signatures.
Hashes are opaque values throughout.
-/

namespace Oclaw.AgentCore.LoopDetector

open Oclaw.Lib

inductive DetectorCall : Type where
  | record (toolName args : String)
  | recordOutcome (result : String)

variable (hashStr : String → UInt64)

def step (d : LoopDetector) : DetectorCall → LoopDetector
  | .record toolName args => d.record hashStr toolName args
  | .recordOutcome result => d.recordOutcome hashStr result

def run (d : LoopDetector) (calls : List DetectorCall) : LoopDetector :=
  calls.foldl (step hashStr) d

variable {hashStr} {d : LoopDetector} {toolName : String} {argsHash last other : UInt64}

/-! ## §1  The window -/

/-- The history fits the window. -/
def Bounded (d : LoopDetector) : Prop :=
  d.historySize = historySizeLimit ∧ d.history.length ≤ historySizeLimit

theorem Bounded.step (h : Bounded d) (c : DetectorCall) : Bounded (step hashStr d c) := by
  obtain ⟨hsize, hlen⟩ := h
  cases c with
  | record toolName args =>
      refine ⟨hsize, ?_⟩
      simp only [LoopDetector.step, record, hsize]
      split
      · rw [List.length_tail, List.length_append]
        exact hlen
      · rename_i hfits
        exact Nat.not_lt.mp hfits
  | recordOutcome result =>
      simp only [LoopDetector.step, recordOutcome]
      split
      · rename_i last hlast
        refine ⟨hsize, ?_⟩
        have hne : d.history ≠ [] := by
          intro hnil
          rw [hnil] at hlast
          cases hlast
        have hpos := List.length_pos_of_ne_nil hne
        simp only [List.length_append, List.length_dropLast, List.length_singleton]
        omega
      · exact ⟨hsize, hlen⟩

theorem bounded_run (calls : List DetectorCall) : Bounded (run hashStr new calls) := by
  induction calls using List.reverseRecOn with
  | nil => exact ⟨rfl, Nat.zero_le _⟩
  | append_singleton calls c ih =>
      rw [run, List.foldl_append]
      exact ih.step c

/-! ## §2  Calls without progress -/

/-- Records of one call with one result. -/
def NoProgress (toolName : String) (argsHash : UInt64) (recs : List ToolCallRecord) : Prop :=
  ∃ rh, ∀ rec ∈ recs,
    rec.toolName = toolName ∧ rec.argsHash = argsHash ∧ rec.resultHash = some rh

/-- What the scan of `no_progress_streak` knows after one more record. -/
def nextResult (toolName : String) (argsHash : UInt64) (expected : Option UInt64)
    (rec : ToolCallRecord) : Option (Option UInt64) :=
  if rec.toolName ≠ toolName ∨ rec.argsHash ≠ argsHash then none
  else
    match rec.resultHash with
    | none => none
    | some rh =>
        match expected with
        | none => some (some rh)
        | some exp => if rh = exp then some (some exp) else none

theorem nextResult_eq_some_iff {expected next : Option UInt64} {rec : ToolCallRecord} :
    nextResult toolName argsHash expected rec = some next ↔
      ∃ rh, next = some rh ∧ (∀ exp, expected = some exp → rh = exp) ∧
        rec.toolName = toolName ∧ rec.argsHash = argsHash ∧ rec.resultHash = some rh := by
  unfold nextResult
  by_cases hother : rec.toolName ≠ toolName ∨ rec.argsHash ≠ argsHash
  · rw [if_pos hother]
    constructor
    · intro h
      cases h
    · rintro ⟨rh, -, -, htool, hargs, -⟩
      rcases hother with h | h
      · exact absurd htool h
      · exact absurd hargs h
  · rw [if_neg hother]
    obtain ⟨htool, hargs⟩ := not_or.mp hother
    rw [not_not] at htool hargs
    cases rec.resultHash with
    | none => simp
    | some rh =>
        cases expected with
        | none => simp [htool, hargs, eq_comm]
        | some exp =>
            simp only [htool, hargs, Option.some.injEq, true_and]
            constructor
            · intro h
              split at h
              · rename_i heq
                exact ⟨rh, by rw [heq, Option.some.inj h], fun _ hexp => heq.trans hexp, rfl⟩
              · cases h
            · rintro ⟨rh', rfl, hsame, rfl⟩
              rw [if_pos (hsame exp rfl), hsame exp rfl]

theorem streakFrom_eq_scan (recs : List ToolCallRecord) (n : ℕ) (expected : Option UInt64)
    (hstart : expected = none → n = 0) :
    streakFrom toolName argsHash n expected recs =
      n + scan (nextResult toolName argsHash) expected recs := by
  induction recs generalizing n expected with
  | nil => rfl
  | cons rec recs ih =>
      rw [streakFrom, scan]
      by_cases hother : rec.toolName ≠ toolName ∨ rec.argsHash ≠ argsHash
      · have hnext : nextResult toolName argsHash expected rec = none := if_pos hother
        rw [if_pos hother, hnext]
        rfl
      · have hnext : nextResult toolName argsHash expected rec = _ := if_neg hother
        rw [if_neg hother, hnext]
        cases rec.resultHash with
        | none => rfl
        | some rh =>
            cases expected with
            | none =>
                simp only
                rw [ih 1 (some rh) (by simp), hstart rfl]
                omega
            | some exp =>
                simp only
                by_cases heq : rh = exp
                · rw [if_pos heq, if_pos heq, ih (n + 1) (some exp) (by simp)]
                  simp only
                  omega
                · rw [if_neg heq, if_neg heq]
                  rfl

theorem passes_nextResult_some {rh : UInt64} (recs : List ToolCallRecord) :
    Passes (nextResult toolName argsHash) (some rh) recs ↔ ∀ rec ∈ recs,
      rec.toolName = toolName ∧ rec.argsHash = argsHash ∧ rec.resultHash = some rh := by
  induction recs with
  | nil => simp [Passes]
  | cons rec recs ih =>
      rw [Passes, List.forall_mem_cons]
      constructor
      · rintro ⟨next, hstep, hrest⟩
        obtain ⟨rh', rfl, hsame, hrec⟩ := nextResult_eq_some_iff.mp hstep
        obtain rfl := hsame rh rfl
        exact ⟨hrec, ih.mp hrest⟩
      · rintro ⟨hrec, hrest⟩
        refine ⟨some rh, nextResult_eq_some_iff.mpr ⟨rh, rfl, ?_, hrec⟩, ih.mpr hrest⟩
        intro exp hexp
        exact Option.some.inj hexp

theorem passes_nextResult_none (recs : List ToolCallRecord) :
    Passes (nextResult toolName argsHash) none recs ↔ NoProgress toolName argsHash recs := by
  cases recs with
  | nil => exact ⟨fun _ => ⟨0, by simp⟩, fun _ => trivial⟩
  | cons rec recs =>
      -- the first record fixes the result
      rw [Passes]
      constructor
      · rintro ⟨next, hstep, hrest⟩
        obtain ⟨rh, rfl, -, hrec⟩ := nextResult_eq_some_iff.mp hstep
        exact ⟨rh, List.forall_mem_cons.mpr ⟨hrec, (passes_nextResult_some recs).mp hrest⟩⟩
      · rintro ⟨rh, hall⟩
        obtain ⟨hrec, hrest⟩ := List.forall_mem_cons.mp hall
        exact ⟨some rh, nextResult_eq_some_iff.mpr ⟨rh, rfl, by simp, hrec⟩,
          (passes_nextResult_some recs).mpr hrest⟩

/-- **`no_progress_streak`** is the length of the longest suffix without progress. -/
theorem noProgressStreak_maximal (d : LoopDetector) (toolName : String) (argsHash : UInt64) :
    ∃ s, MaximalSuffix (NoProgress toolName argsHash) d.history s ∧
      s.length = d.noProgressStreak toolName argsHash := by
  have hmax := (maximalSuffix_scan (nextResult toolName argsHash) none d.history).congr
    (Q := NoProgress toolName argsHash) (fun t => by
      rw [passes_nextResult_none]
      unfold NoProgress
      simp only [List.mem_reverse])
  have hle := scan_le (nextResult toolName argsHash) none d.history.reverse
  rw [List.length_reverse] at hle
  refine ⟨_, hmax, ?_⟩
  rw [noProgressStreak, streakFrom_eq_scan _ _ _ (fun _ => rfl), List.length_drop]
  omega

/-! ## §3  Alternating calls -/

/-- Records that alternate strictly between two signatures and end with `last`. -/
def Alternates (last other : UInt64) (recs : List ToolCallRecord) : Prop :=
  ∀ (i : ℕ) (rec : ToolCallRecord), recs.reverse[i]? = some rec →
    rec.argsHash = if i % 2 = 0 then last else other

/-- Every record has a result, and either side has one only. -/
def Settled (recs : List ToolCallRecord) : Prop :=
  (∀ rec ∈ recs, rec.resultHash.isSome = true) ∧
    ∀ rec ∈ recs, ∀ rec' ∈ recs, rec.argsHash = rec'.argsHash → rec.resultHash = rec'.resultHash

/-- What the scan for alternating records knows after one more record. -/
def nextSide (last other : UInt64) (count : ℕ) (rec : ToolCallRecord) : Option ℕ :=
  if rec.argsHash ≠ (if count % 2 = 0 then last else other) then none else some (count + 1)

theorem alternating_eq_scan (recs : List ToolCallRecord) (n : ℕ) :
    alternating last other n recs = n + scan (nextSide last other) n recs := by
  induction recs generalizing n with
  | nil => rfl
  | cons rec recs ih =>
      rw [alternating, scan]
      by_cases hother : rec.argsHash ≠ (if n % 2 = 0 then last else other)
      · have hnext : nextSide last other n rec = none := if_pos hother
        rw [if_pos hother, hnext]
        rfl
      · have hnext : nextSide last other n rec = some (n + 1) := if_neg hother
        rw [if_neg hother, hnext, ih]
        simp only
        omega

theorem passes_nextSide (recs : List ToolCallRecord) (n : ℕ) :
    Passes (nextSide last other) n recs ↔
      ∀ (i : ℕ) (rec : ToolCallRecord), recs[i]? = some rec →
        rec.argsHash = if (n + i) % 2 = 0 then last else other := by
  induction recs generalizing n with
  | nil => simp [Passes]
  | cons rec recs ih =>
      rw [Passes]
      constructor
      · rintro ⟨next, hstep, hrest⟩ i rec' hrec'
        by_cases hside : rec.argsHash ≠ (if n % 2 = 0 then last else other)
        · rw [nextSide, if_pos hside] at hstep
          cases hstep
        · rw [nextSide, if_neg hside] at hstep
          cases hstep
          cases i with
          | zero =>
              cases hrec'
              exact not_not.mp hside
          | succ i =>
              rw [← Nat.succ_add_eq_add_succ]
              exact (ih (n + 1)).mp hrest i rec' hrec'
      · intro hall
        have hside : rec.argsHash = if n % 2 = 0 then last else other := hall 0 rec rfl
        refine ⟨n + 1, if_neg (not_not.mpr hside), (ih (n + 1)).mpr ?_⟩
        intro i rec' hrec'
        rw [Nat.succ_add_eq_add_succ]
        exact hall (i + 1) rec' hrec'

/-- **The alternating scan counts the longest alternating suffix.** -/
theorem alternating_maximal (last other : UInt64) (recs : List ToolCallRecord) :
    ∃ s, MaximalSuffix (Alternates last other) recs s ∧
      s.length = alternating last other 0 recs.reverse ∧
      s = recs.drop (recs.length - alternating last other 0 recs.reverse) := by
  have hmax := (maximalSuffix_scan (nextSide last other) 0 recs).congr
    (Q := Alternates last other) (fun t => by
      rw [passes_nextSide]
      simp only [Nat.zero_add, Alternates])
  have hcount := scan_le (nextSide last other) 0 recs.reverse
  rw [← Nat.zero_add (scan _ _ _), ← alternating_eq_scan] at hmax hcount
  rw [List.length_reverse] at hcount
  refine ⟨_, hmax, ?_, rfl⟩
  rw [List.length_drop]
  omega

/-- The records of one side, with the result that is known of it so far, have one result. -/
def OneResult (known : Option UInt64) (recs : List ToolCallRecord) : Prop :=
  ∃ rh, (∀ h, known = some h → h = rh) ∧ (∀ rec ∈ recs, rec.resultHash = some rh) ∧
    (known = none → recs ≠ [])

theorem oneResult_cons {known : Option UInt64} {rec : ToolCallRecord}
    {recs : List ToolCallRecord} :
    OneResult known (rec :: recs) ↔
      ∃ rh, rec.resultHash = some rh ∧ (∀ h, known = some h → h = rh) ∧
        OneResult (some rh) recs := by
  constructor
  · rintro ⟨rh, hknown, hall, -⟩
    obtain ⟨hrec, hrest⟩ := List.forall_mem_cons.mp hall
    exact ⟨rh, hrec, hknown, rh, fun h heq => (Option.some.inj heq).symm, hrest, by simp⟩
  · rintro ⟨rh, hrec, hknown, rh', hsame, hrest, -⟩
    obtain rfl := hsame rh rfl
    exact ⟨rh, hknown, List.forall_mem_cons.mpr ⟨hrec, hrest⟩, by simp⟩

/-- **`sides_agree`** looks for one result on either side. -/
theorem sidesAgree_iff (recs : List ToolCallRecord) (hashA hashB : Option UInt64) :
    sidesAgree last hashA hashB recs = true ↔
      OneResult hashA (recs.filter (fun rec => rec.argsHash = last)) ∧
        OneResult hashB (recs.filter (fun rec => rec.argsHash ≠ last)) := by
  -- a known result is agreed with as long as nothing else turns up
  have hany : ∀ (known : Option UInt64) (rh : UInt64), known.any (· != rh) = false ↔
      ∀ h, known = some h → h = rh := by
    intro known rh
    cases known <;> simp
  induction recs generalizing hashA hashB with
  | nil =>
      have hempty : ∀ known : Option UInt64, OneResult known [] ↔ known.isSome = true := by
        intro known
        cases known with
        | none => simp [OneResult]
        | some h => exact ⟨fun _ => rfl, fun _ => ⟨h, by simp, by simp, by simp⟩⟩
      rw [sidesAgree, Bool.and_eq_true, List.filter_nil, List.filter_nil, hempty, hempty]
  | cons rec recs ih =>
      rw [sidesAgree]
      by_cases hside : rec.argsHash = last
      · rw [List.filter_cons_of_pos (by simpa using hside),
          List.filter_cons_of_neg (by simpa using hside), oneResult_cons]
        cases hresult : rec.resultHash with
        | none => simp
        | some rh =>
            simp only [if_pos hside]
            by_cases hagree : hashA.any (· != rh) = true
            · rw [if_pos hagree]
              have hnot : ¬ ∀ h, hashA = some h → h = rh := by
                rw [← hany, hagree]
                simp
              simp [hnot]
            · have hagree' := (hany hashA rh).mp (by simpa using hagree)
              rw [if_neg hagree]
              refine (ih (some rh) hashB).trans (and_congr_left fun _ => ?_)
              constructor
              · intro hrest
                exact ⟨rh, rfl, hagree', hrest⟩
              · rintro ⟨rh', heq, -, hrest⟩
                cases heq
                exact hrest
      · rw [List.filter_cons_of_neg (by simpa using hside),
          List.filter_cons_of_pos (by simpa using hside), @oneResult_cons hashB rec]
        cases hresult : rec.resultHash with
        | none => simp
        | some rh =>
            simp only [if_neg hside]
            by_cases hagree : hashB.any (· != rh) = true
            · rw [if_pos hagree]
              have hnot : ¬ ∀ h, hashB = some h → h = rh := by
                rw [← hany, hagree]
                simp
              simp [hnot]
            · have hagree' := (hany hashB rh).mp (by simpa using hagree)
              rw [if_neg hagree]
              refine (ih hashA (some rh)).trans (and_congr_right fun _ => ?_)
              constructor
              · intro hrest
                exact ⟨rh, rfl, hagree', hrest⟩
              · rintro ⟨rh', heq, -, hrest⟩
                cases heq
                exact hrest

theorem exists_record_before {recs : List ToolCallRecord} {i : ℕ} (hi : i < recs.length) :
    ∃ rec, recs.reverse[i]? = some rec ∧ rec ∈ recs := by
  have hi' : i < recs.reverse.length := by rwa [List.length_reverse]
  refine ⟨recs.reverse.get ⟨i, hi'⟩, List.getElem?_eq_getElem hi', ?_⟩
  exact List.mem_reverse.mp (List.getElem_mem hi')

/-- On records that alternate and have both signatures that is what it means to be settled. -/
theorem sidesAgree_of_alternates {recs : List ToolCallRecord} (hne : other ≠ last)
    (halt : Alternates last other recs) (hlen : 2 ≤ recs.length) :
    sidesAgree last none none recs = true ↔ Settled recs := by
  rw [sidesAgree_iff]
  have hsides : ∀ rec ∈ recs, rec.argsHash = last ∨ rec.argsHash = other := by
    intro rec hrec
    obtain ⟨i, hi⟩ := List.getElem?_of_mem (List.mem_reverse.mpr hrec)
    have hside := halt i rec hi
    split at hside
    · exact Or.inl hside
    · exact Or.inr hside
  have hlast : recs.filter (fun rec => rec.argsHash = last) ≠ [] := by
    obtain ⟨rec, hget, hmem⟩ := @exists_record_before recs 0 (by omega)
    exact List.ne_nil_of_mem (List.mem_filter.mpr ⟨hmem, decide_eq_true (halt 0 rec hget)⟩)
  have hother : recs.filter (fun rec => rec.argsHash ≠ last) ≠ [] := by
    obtain ⟨rec, hget, hmem⟩ := @exists_record_before recs 1 (by omega)
    have hhash : rec.argsHash = other := halt 1 rec hget
    exact List.ne_nil_of_mem (List.mem_filter.mpr ⟨hmem, decide_eq_true (hhash ▸ hne)⟩)
  constructor
  · rintro ⟨⟨a, -, ha, -⟩, ⟨b, -, hb, -⟩⟩
    have hresult : ∀ rec ∈ recs,
        rec.resultHash = some (if rec.argsHash = last then a else b) := by
      intro rec hrec
      split
      · rename_i hside
        exact ha rec (List.mem_filter.mpr ⟨hrec, decide_eq_true hside⟩)
      · rename_i hside
        exact hb rec (List.mem_filter.mpr ⟨hrec, decide_eq_true hside⟩)
    constructor
    · intro rec hrec
      rw [hresult rec hrec]
      rfl
    · intro rec hrec rec' hrec' hsame
      rw [hresult rec hrec, hresult rec' hrec', hsame]
  · rintro ⟨hdefined, hconstant⟩
    -- the first record of a side speaks for all of them
    have hone : ∀ p : ToolCallRecord → Bool,
        (∀ rec ∈ recs, ∀ rec' ∈ recs, p rec = true → p rec' = true →
          rec.argsHash = rec'.argsHash) →
        recs.filter p ≠ [] → OneResult none (recs.filter p) := by
      intro p hp hfilter
      obtain ⟨first, hfirst⟩ := List.exists_mem_of_ne_nil _ hfilter
      obtain ⟨hmem, hpfirst⟩ := List.mem_filter.mp hfirst
      obtain ⟨rh, hrh⟩ := Option.isSome_iff_exists.mp (hdefined first hmem)
      refine ⟨rh, by simp, ?_, fun _ => hfilter⟩
      intro rec hrec
      obtain ⟨hrec', hprec⟩ := List.mem_filter.mp hrec
      rw [← hrh]
      exact hconstant rec hrec' first hmem (hp rec hrec' first hmem hprec hpfirst)
    constructor
    · refine hone _ ?_ hlast
      intro rec _ rec' _ h h'
      exact (of_decide_eq_true h).trans (of_decide_eq_true h').symm
    · refine hone _ ?_ hother
      intro rec hrec rec' hrec' h h'
      rw [(hsides rec hrec).resolve_left (of_decide_eq_true h),
        (hsides rec' hrec').resolve_left (of_decide_eq_true h')]

/-- **`ping_pong_streak`.** The records before the current call alternate between the last
signature and the current one, at least nineteen of them, and are settled. -/
def PingPong (history : List ToolCallRecord) (current : UInt64) : Prop :=
  ∃ last s, history.getLast? = some last ∧ last.argsHash ≠ current ∧
    MaximalSuffix (Alternates last.argsHash current) history s ∧ 19 ≤ s.length ∧ Settled s

/-- A ping-pong shows in the record before the last one. -/
theorem PingPong.before_last {newest : ToolCallRecord} {older : List ToolCallRecord}
    {current : UInt64} (hrev : d.history.reverse = newest :: older)
    (h : PingPong d.history current) :
    newest.argsHash ≠ current ∧ (∃ rec rest, older = rec :: rest ∧ rec.argsHash = current) ∧
      ∃ s, MaximalSuffix (Alternates newest.argsHash current) d.history s ∧ 19 ≤ s.length ∧
        Settled s := by
  obtain ⟨last, s, hlast, hne, hmax, hlen, hsettled⟩ := h
  have hnewest : last = newest := by
    rw [← List.head?_reverse, hrev] at hlast
    exact (Option.some.inj hlast).symm
  subst hnewest
  refine ⟨hne, ?_, s, hmax, hlen, hsettled⟩
  obtain ⟨pre, hpre⟩ := hmax.isSuffix
  obtain ⟨second, hsecond, -⟩ := @exists_record_before s 1 (by omega)
  have hhash := hmax.holds 1 second hsecond
  have holder : (last :: older)[1]? = s.reverse[1]? := by
    rw [← hrev, ← hpre, List.reverse_append, List.getElem?_append_left (by simp; omega)]
  cases older with
  | nil =>
      rw [hsecond] at holder
      cases holder
  | cons rec rest =>
      rw [hsecond] at holder
      refine ⟨rec, rest, rfl, ?_⟩
      rw [← Option.some.inj holder] at hhash
      exact hhash

/-- The ping-pong of a signature is the longest suffix that alternates with it. -/
theorem pingPong_iff_of_maximal {newest : ToolCallRecord} {older s : List ToolCallRecord}
    {current : UInt64} (hrev : d.history.reverse = newest :: older)
    (hne : newest.argsHash ≠ current)
    (hmax : MaximalSuffix (Alternates newest.argsHash current) d.history s) :
    PingPong d.history current ↔ 19 ≤ s.length ∧ Settled s := by
  constructor
  · intro h
    obtain ⟨-, -, s', hs, hlen, hsettled⟩ := h.before_last hrev
    rw [hs.unique hmax] at hlen hsettled
    exact ⟨hlen, hsettled⟩
  · rintro ⟨hlen, hsettled⟩
    refine ⟨newest, s, ?_, hne, hmax, hlen, hsettled⟩
    rw [← List.head?_reverse, hrev]
    rfl

theorem pingPongStreak_iff (d : LoopDetector) (current : UInt64) :
    (criticalThreshold ≤ (d.pingPongStreak current).count ∧
      (d.pingPongStreak current).noProgress = true) ↔ PingPong d.history current := by
  unfold pingPongStreak
  cases hrev : d.history.reverse with
  | nil =>
      have hnil : d.history = [] := List.reverse_eq_nil_iff.mp hrev
      constructor
      · rintro ⟨-, h⟩
        cases h
      · rintro ⟨last, -, hlast, -⟩
        rw [hnil] at hlast
        cases hlast
  | cons newest older =>
      simp only
      cases hfind : older.find? (fun rec => rec.argsHash != newest.argsHash) with
      | none =>
          constructor
          · rintro ⟨-, h⟩
            cases h
          · intro h
            obtain ⟨hne, ⟨rec, rest, rfl, hrec⟩, -⟩ := h.before_last hrev
            have hsame := List.find?_eq_none.mp hfind rec List.mem_cons_self
            rw [hrec] at hsame
            exact absurd hne.symm (by simpa using hsame)
      | some rec =>
          simp only
          have hdiff : rec.argsHash ≠ newest.argsHash := by
            simpa using List.find?_some hfind
          -- in a ping-pong the first different signature is the current one
          have hcurrent : PingPong d.history current → current = rec.argsHash := by
            intro h
            obtain ⟨hne, ⟨second, rest, rfl, hsecond⟩, -⟩ := h.before_last hrev
            rw [List.find?_cons_of_pos (by simpa [hsecond] using hne.symm)] at hfind
            rw [← Option.some.inj hfind, hsecond]
          obtain ⟨s, hmax, hlength, hdrop⟩ :=
            alternating_maximal newest.argsHash rec.argsHash d.history
          rw [hrev] at hlength hdrop
          rw [← hlength] at hdrop ⊢
          rw [← hdrop]
          by_cases hshort : s.length < 2
          · rw [if_pos hshort]
            constructor
            · rintro ⟨-, h⟩
              cases h
            · intro h
              have heq := hcurrent h
              subst heq
              have hlong := ((pingPong_iff_of_maximal hrev hdiff.symm hmax).mp h).1
              omega
          · rw [if_neg hshort]
            by_cases hother : current ≠ rec.argsHash
            · rw [if_pos hother]
              constructor
              · rintro ⟨-, h⟩
                cases h
              · intro h
                exact absurd (hcurrent h) hother
            · rw [if_neg hother]
              have heq : current = rec.argsHash := not_not.mp hother
              subst heq
              have hsides := sidesAgree_of_alternates hdiff hmax.holds (by omega)
              rw [pingPong_iff_of_maximal hrev hdiff.symm hmax]
              simp only [hsides]
              refine and_congr_left fun _ => ?_
              unfold criticalThreshold
              omega

/-! ## §4  Verdicts -/

/-- The streak that is critical for a call. -/
def criticalStreak (toolName args : String) : ℕ :=
  if isKnownPollTool toolName args then criticalThreshold else circuitBreakerThreshold

/-- A call that has just been made without progress is not one side of a ping-pong. -/
theorem pingPong_of_streak {current : UInt64}
    (hstreak : 0 < d.noProgressStreak toolName current) : ¬ PingPong d.history current := by
  rintro ⟨last, s, hlast, hne, -⟩
  obtain ⟨t, hmax, hlen⟩ := noProgressStreak_maximal d toolName current
  obtain ⟨rh, hall⟩ := hmax.holds
  have hpos : t ≠ [] := List.ne_nil_of_length_pos (by omega)
  -- the last record is part of the streak
  have hmem : last ∈ t := by
    obtain ⟨pre, hpre⟩ := hmax.isSuffix
    rw [← hpre, List.getLast?_append_of_ne_nil _ hpos] at hlast
    exact List.mem_of_getLast? hlast
  exact hne (hall last hmem).2.1

/-- **`detect` is critical** exactly for a long enough streak without progress and for a
settled ping-pong. -/
theorem detect_critical_iff (d : LoopDetector) (toolName args : String) :
    (d.detect hashStr toolName args).level = .critical ↔
      criticalStreak toolName args ≤
          d.noProgressStreak toolName (signature hashStr toolName args) ∨
        PingPong d.history (signature hashStr toolName args) := by
  rw [← pingPongStreak_iff]
  have hexclusive := @pingPong_of_streak d toolName (signature hashStr toolName args)
  rw [← pingPongStreak_iff] at hexclusive
  unfold detect criticalStreak
  simp only
  generalize d.noProgressStreak toolName (signature hashStr toolName args) = streak at *
  generalize d.pingPongStreak (signature hashStr toolName args) = pp at *
  generalize isKnownPollTool toolName args = isPoll
  by_cases hbreaker : circuitBreakerThreshold ≤ streak
  · rw [if_pos hbreaker]
    refine iff_of_true rfl (Or.inl ?_)
    split
    · exact Nat.le_trans (by decide) hbreaker
    · exact hbreaker
  · rw [if_neg hbreaker]
    by_cases hpoll : isPoll = true ∧ criticalThreshold ≤ streak
    · rw [if_pos hpoll]
      refine iff_of_true rfl (Or.inl ?_)
      rw [if_pos hpoll.1]
      exact hpoll.2
    · rw [if_neg hpoll]
      have hshort : ¬ (if isPoll = true then criticalThreshold else circuitBreakerThreshold) ≤
          streak := by
        split
        · rename_i h
          exact fun hle => hpoll ⟨h, hle⟩
        · exact hbreaker
      by_cases hwarn : isPoll = true ∧ warningThreshold ≤ streak
      · rw [if_pos hwarn]
        apply iff_of_false (by simp [LoopDetectionResult.warn])
        rintro (h | h)
        · exact hshort h
        · exact hexclusive (Nat.lt_of_lt_of_le (by decide) hwarn.2) h
      · rw [if_neg hwarn]
        by_cases hpp : criticalThreshold ≤ pp.count ∧ pp.noProgress = true
        · rw [if_pos hpp]
          exact iff_of_true rfl (Or.inr hpp)
        · rw [if_neg hpp]
          refine iff_of_false ?_ (not_or.mpr ⟨hshort, hpp⟩)
          split
          · simp [LoopDetectionResult.warn]
          · split <;> simp [LoopDetectionResult.warn, LoopDetectionResult.ok]

end Oclaw.AgentCore.LoopDetector
