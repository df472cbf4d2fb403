import Mathlib.Data.List.DropRight
import Oclaw.Lib.IpAddr
import Oclaw.AutoReply.Queue

/-!
# What the overflow summary accounts for

Under `Summarize` a full queue evicts its oldest message, counts it and quotes it in one
line, and `take_summary_prompt` reports what was counted. The number a prompt reports is
read back from its text.
-/

namespace Oclaw.AutoReply

open Oclaw.Lib

/-! ## §1  The newest elements of a list -/

section Newest

variable {α β : Type} {k : ℕ} {l : List α}

theorem rtake_drop {n : ℕ} (h : n ≤ l.length - k) : (l.drop n).rtake k = l.rtake k := by
  rw [List.rtake, List.rtake, List.drop_drop, List.length_drop]
  congr 1
  omega

/-- The newest of the newest and of what comes after them. -/
theorem rtake_append_of_rtake (l' : List α) : (l.rtake k ++ l').rtake k = (l ++ l').rtake k := by
  have hdrop : l.rtake k ++ l' = (l ++ l').drop (l.length - k) := by
    rw [List.rtake, List.drop_append_of_le_length (Nat.sub_le _ _)]
  rw [hdrop, rtake_drop]
  rw [List.length_append]
  omega

theorem rtake_map (f : α → β) : (l.map f).rtake k = (l.rtake k).map f := by
  simp [List.rtake, List.map_drop]

theorem rtake_of_suffix {l' : List α} (h : l' <:+ l) :
    l'.rtake k = l.rtake (min l'.length k) := by
  obtain ⟨pre, rfl⟩ := h
  have hdrop : l' = (pre ++ l').drop pre.length := by simp
  conv_lhs => rw [hdrop, List.rtake, List.drop_drop]
  rw [List.rtake, List.length_drop, List.length_append]
  congr 1
  omega

end Newest

/-! ## §2  The number a prompt reports -/

def promptHead : String := "[Queue overflow] Dropped "

/-- The number that stands after the first words of a prompt. -/
def reportedCount (prompt : String) : ℕ :=
  digitsValue 10 ((prompt.toList.drop promptHead.length).takeWhile (isDigitOf 10))

theorem intercalate_start (sep a : String) (as : List String) :
    ∃ rest, sep.intercalate (a :: as) = a ++ rest := by
  cases as with
  | nil => exact ⟨"", by rw [String.intercalate_singleton, String.append_empty]⟩
  | cons b as =>
      exact ⟨sep ++ sep.intercalate (b :: as), by
        rw [String.intercalate_cons_cons, String.append_assoc]⟩

theorem reportedCount_prompt (n : ℕ) (noun plural : String) (lines : List String) :
    reportedCount ("\n".intercalate ((promptHead ++ toString n ++ " " ++ noun ++ plural ++
      " due to queue cap.") :: lines)) = n := by
  obtain ⟨rest, hrest⟩ := intercalate_start "\n"
    (promptHead ++ toString n ++ " " ++ noun ++ plural ++ " due to queue cap.") lines
  have hdigits : (toString n).toList = Nat.toDigits 10 n := by
    show (Nat.repr n).toList = _
    simp [Nat.repr]
  have hspace : isDigitOf 10 ' ' = false := by decide
  rw [hrest, reportedCount]
  simp only [String.toList_append, List.append_assoc, hdigits]
  rw [show promptHead.length = promptHead.toList.length from rfl, List.drop_left]
  have hafter : " ".toList = [' '] := rfl
  rw [hafter, List.takeWhile_append_of_pos (fun c hc => isDigitOf_toDigits c hc),
    List.singleton_append, List.takeWhile_cons_of_neg (by simp [hspace]), List.append_nil,
    digitsValue_toDigits]

namespace MessageQueue

variable {M : Type} [AgentBody M] {q : MessageQueue M} {un : List M} {c : ℕ} {op : Op M}

/-- The line that the prompt quotes of a message. -/
def summaryLine (m : M) : String := summarizeQueueText (AgentBody.bodyForAgent m) 160

/-- The number a call reports. -/
def reportedBy (q : MessageQueue M) (op : Op M) : Option ℕ :=
  match (q.call op).1 with
  | .prompt p => p.map reportedCount
  | _ => none

/-- Counter and lines of the queue are those of these messages, oldest first: they were
evicted since the last prompt. -/
structure Unreported (q : MessageQueue M) (un : List M) : Prop where
  summarizes : q.dropPolicy = .summarize
  count : q.droppedCount = min un.length usizeMax
  lines : q.summaryLines = (un.rtake (min q.cap 256)).map summaryLine

/-! ## §3  Evictions -/

theorem unreported_dropOldest (h : q.Unreported un) :
    q.dropOldest.Unreported (un ++ q.pending.take 1) := by
  obtain ⟨hpolicy, hcount, hlines⟩ := h
  cases hp : q.pending with
  | nil =>
      rw [List.take_nil, List.append_nil, dropOldest, hp]
      exact ⟨hpolicy, hcount, hlines⟩
  | cons m rest =>
      have hdrop : q.dropOldest =
          { q with
            pending := rest
            droppedCount := satAdd q.droppedCount 1
            summaryLines := (q.summaryLines ++ [summaryLine m]).rtake (min q.cap 256) } := by
        unfold dropOldest
        simp only [hp, hpolicy, if_true]
        rfl
      rw [hdrop]
      refine ⟨hpolicy, ?_, ?_⟩
      · show satAdd q.droppedCount 1 = _
        rw [hcount, satAdd]
        simp only [List.take_succ_cons, List.take_zero, List.length_append, List.length_singleton]
        omega
      · show (q.summaryLines ++ [summaryLine m]).rtake (min q.cap 256) = _
        rw [hlines, ← List.map_singleton, ← List.map_append, rtake_map, rtake_append_of_rtake]
        rfl

theorem unreported_dropOldest_iterate (n : ℕ) (h : q.Unreported un) :
    (dropOldest^[n] q).Unreported (un ++ q.pending.take n) := by
  induction n generalizing q un with
  | zero => simpa using h
  | succ n ih =>
      have hstep := ih (unreported_dropOldest h)
      rw [dropOldest_pending, List.append_assoc] at hstep
      rw [Function.iterate_succ_apply, show q.pending.take (n + 1) =
        q.pending.take 1 ++ (q.pending.drop 1).take n by rw [Nat.add_comm, List.take_add]]
      exact hstep

theorem unreported_pushPending (h : q.Unreported un) (ctx : M) (nowMs : ℕ) :
    (q.pushPending ctx nowMs).2.Unreported (un ++ q.pending.take q.overflow) := by
  have hstamp : (q.stamp nowMs).Unreported un := ⟨h.summarizes, h.count, h.lines⟩
  have hpolicy : q.dropPolicy ≠ .new := by
    rw [h.summarizes]
    decide
  unfold pushPending overflow
  simp only
  by_cases hfull : q.isFull = true
  · rw [if_pos (show (q.stamp nowMs).isFull = true from hfull),
      if_neg (show ¬ (q.stamp nowMs).dropPolicy = .new from hpolicy), if_pos ⟨hfull, hpolicy⟩]
    obtain ⟨hsum, hcount, hlines⟩ := unreported_dropOldest_iterate q.dropCount hstamp
    exact ⟨hsum, hcount, hlines⟩
  · rw [if_neg (show ¬ (q.stamp nowMs).isFull = true from hfull),
      if_neg (fun hboth => hfull hboth.1), List.take_zero, List.append_nil]
    exact ⟨h.summarizes, h.count, h.lines⟩

/-- A push leaves no more than the cap. -/
theorem pushPending_length_le (hcap : q.cap < usizeMax) (hpos : 0 < q.cap)
    (hpolicy : q.dropPolicy ≠ .new) (hlen : q.pending.length ≤ q.cap) (ctx : M) (nowMs : ℕ) :
    (q.pushPending ctx nowMs).2.pending.length ≤ q.cap := by
  have href : q.refuses = false := by simp [refuses, hpolicy]
  rw [pushPending_pending, href, List.length_append, List.length_drop]
  simp only [Bool.false_eq_true, if_false, List.length_singleton]
  unfold overflow isFull dropCount satAdd
  by_cases hfull : q.cap ≤ q.pending.length
  · rw [if_pos ⟨by simpa [hfull] using hcap.ne, hpolicy⟩]
    omega
  · omega

/-! ## §4  Sequences of calls -/

/-- The calls that leave cap and policy alone. -/
def isTraffic : Op M → Bool
  | .setCap _ | .setDropPolicy _ => false
  | _ => true

/-- The messages that a call evicts, oldest first. -/
def evictedBy (q : MessageQueue M) (op : Op M) : List M :=
  ((q.departures op).filter (fun d => decide (d.2 = .evicted))).map Prod.fst

/-- What a sequence of calls has evicted, what of it since the last prompt, and the sum of
the numbers that the prompts reported. -/
structure Tally (M : Type) : Type where
  queue : MessageQueue M
  evicted : List M
  sincePrompt : List M
  reported : ℕ

def Tally.record (t : Tally M) (op : Op M) : Tally M where
  queue := (t.queue.call op).2
  evicted := t.evicted ++ t.queue.evictedBy op
  sincePrompt :=
    match t.queue.reportedBy op with
    | some _ => []
    | none => t.sincePrompt ++ t.queue.evictedBy op
  reported := t.reported + (t.queue.reportedBy op).getD 0

def tally (q : MessageQueue M) (ops : List (Op M)) : Tally M :=
  ops.foldl Tally.record ⟨q, [], [], 0⟩

/-- What holds between two calls when the cap is `c`. -/
structure Tally.Kept (c : ℕ) (t : Tally M) : Prop where
  cap : t.queue.cap = c
  bounded : t.queue.pending.length ≤ c
  unreported : t.queue.Unreported t.sincePrompt
  suffix : t.sincePrompt <:+ t.evicted
  reported : t.evicted.length ≤ usizeMax →
    t.reported + t.sincePrompt.length = t.evicted.length

/-- A call by which nothing is evicted or reported, and which changes neither the settings
nor the counts. -/
structure Quiet (q : MessageQueue M) (op : Op M) : Prop where
  evicted : q.evictedBy op = []
  reported : q.reportedBy op = none
  cap : (q.call op).2.cap = q.cap
  policy : (q.call op).2.dropPolicy = q.dropPolicy
  count : (q.call op).2.droppedCount = q.droppedCount
  lines : (q.call op).2.summaryLines = q.summaryLines
  shorter : (q.call op).2.pending.length ≤ q.pending.length

omit [AgentBody M] in
theorem filter_map_of_ne {fate : Fate} (hne : fate ≠ .evicted) (ms : List M) :
    ((ms.map (·, fate)).filter (fun d => decide (d.2 = .evicted))).map Prod.fst = [] := by
  simp [List.filter_map, Function.comp_def, hne]

theorem Tally.Kept.record_of_quiet {t : Tally M} (ht : t.Kept c) (h : t.queue.Quiet op) :
    (t.record op).Kept c := by
  obtain ⟨hpolicy, hcount, hlines⟩ := ht.unreported
  refine ⟨h.cap.trans ht.cap, h.shorter.trans ht.bounded, ?_, ?_, ?_⟩
  · simp only [Tally.record, h.reported, h.evicted, List.append_nil]
    exact ⟨h.policy.trans hpolicy, h.count.trans hcount, by rw [h.lines, h.cap, hlines]⟩
  · simp only [Tally.record, h.reported, h.evicted, List.append_nil]
    exact ht.suffix
  · simp only [Tally.record, h.reported, h.evicted, List.append_nil, Option.getD_none,
      Nat.add_zero]
    exact ht.reported

theorem Tally.Kept.record_push {t : Tally M} (hc : c < usizeMax) (hpos : 0 < c) (ht : t.Kept c)
    (hrun : t.queue.hasActiveRun = true) (hmode : t.queue.mode ≠ .interrupt) (ctx : M)
    (nowMs : ℕ) : (t.record (.enqueue ctx nowMs)).Kept c := by
  have hcap : t.queue.cap = c := ht.cap
  have hpolicy : t.queue.dropPolicy ≠ .new := by
    rw [ht.unreported.summarizes]
    decide
  have hcall : (t.queue.call (.enqueue ctx nowMs)).2 = (t.queue.pushPending ctx nowMs).2 := by
    simp [call, enqueue_queueing hrun hmode]
  have hreported : t.queue.reportedBy (.enqueue ctx nowMs) = none := rfl
  have hevicted : t.queue.evictedBy (.enqueue ctx nowMs) =
      t.queue.pending.take t.queue.overflow := by
    have hdep : t.queue.departures (.enqueue ctx nowMs) =
        (t.queue.pending.take t.queue.overflow).map (·, Fate.evicted) := by
      simp [departures, hrun, hmode]
    rw [evictedBy, hdep, List.filter_map]
    simp [Function.comp_def]
  have hsettings := pushPending_settings t.queue ctx nowMs
  simp only [settings, Prod.mk.injEq] at hsettings
  refine ⟨?_, ?_, ?_, ?_, ?_⟩
  · show (t.queue.call _).2.cap = c
    rw [hcall, hsettings.2.1, hcap]
  · show (t.queue.call _).2.pending.length ≤ c
    rw [hcall, ← hcap]
    exact pushPending_length_le (hcap ▸ hc) (hcap ▸ hpos) hpolicy (hcap ▸ ht.bounded) ctx nowMs
  · simp only [Tally.record, hreported, hcall, hevicted]
    exact unreported_pushPending ht.unreported ctx nowMs
  · simp only [Tally.record, hreported, hevicted]
    obtain ⟨pre, hpre⟩ := ht.suffix
    exact ⟨pre, by rw [← hpre, List.append_assoc]⟩
  · intro hlen
    simp only [Tally.record, hreported, hevicted, Option.getD_none, List.length_append] at hlen ⊢
    have := ht.reported (by omega)
    omega

/-- A prompt reports the whole counter and starts it anew. -/
theorem Tally.Kept.record_prompt {t : Tally M} (ht : t.Kept c) (noun : String)
    (hcount : t.queue.droppedCount ≠ 0) : (t.record (.takeSummaryPrompt noun)).Kept c := by
  obtain ⟨hpolicy, hdropped, hlines⟩ := ht.unreported
  have hskip : ¬ (t.queue.dropPolicy ≠ .summarize ∨ t.queue.droppedCount = 0) := by
    simp [hpolicy, hcount]
  have hcall : (t.queue.call (.takeSummaryPrompt noun)).2 =
      { t.queue with droppedCount := 0, summaryLines := [] } := by
    simp only [call, takeSummaryPrompt, if_neg hskip]
    rfl
  have hreported : t.queue.reportedBy (.takeSummaryPrompt noun) = some t.queue.droppedCount := by
    simp only [reportedBy, call, takeSummaryPrompt, if_neg hskip]
    apply congrArg some
    split
    · exact reportedCount_prompt t.queue.droppedCount noun _ _
    · exact reportedCount_prompt t.queue.droppedCount noun _ _
  have hevicted : t.queue.evictedBy (.takeSummaryPrompt noun) = [] := rfl
  refine ⟨?_, ?_, ?_, ?_, ?_⟩
  · show (t.queue.call _).2.cap = c
    rw [hcall]
    exact ht.cap
  · show (t.queue.call _).2.pending.length ≤ c
    rw [hcall]
    exact ht.bounded
  · simp only [Tally.record, hreported, hcall]
    exact ⟨hpolicy, rfl, by rw [List.rtake_nil, List.map_nil]⟩
  · simp only [Tally.record, hreported]
    exact List.nil_suffix
  · intro hlen
    simp only [Tally.record, hreported, hevicted, List.append_nil, Option.getD_some,
      List.length_nil, Nat.add_zero] at hlen ⊢
    have hsum := ht.reported hlen
    rw [hdropped]
    omega

/-- Traffic pushes, prompts, or changes nothing that is counted. -/
theorem traffic_cases (hop : isTraffic op = true) :
    q.Quiet op ∨
      (∃ ctx nowMs, op = .enqueue ctx nowMs ∧ q.hasActiveRun = true ∧
        q.mode ≠ .interrupt) ∨
      ∃ noun, op = .takeSummaryPrompt noun ∧ q.droppedCount ≠ 0 := by
  cases op with
  | enqueue ctx nowMs =>
      cases hrun : q.hasActiveRun with
      | false =>
          left
          constructor <;> simp [evictedBy, reportedBy, departures, call, enqueue_idle hrun, hrun]
      | true =>
          by_cases hmode : q.mode = .interrupt
          · left
            constructor <;>
              simp [evictedBy, reportedBy, departures, call, enqueue_interrupt hrun hmode, hrun,
                hmode, List.filter_map, Function.comp_def]
          · exact Or.inr (Or.inl ⟨ctx, nowMs, rfl, rfl, hmode⟩)
  | completeAndTakeNext =>
      left
      cases hp : q.pending with
      | nil =>
          constructor <;> simp [evictedBy, reportedBy, departures, call, completeAndTakeNext, hp]
      | cons m rest =>
          constructor <;> simp [evictedBy, reportedBy, departures, call, completeAndTakeNext, hp]
  | takeCollectBatch =>
      left
      refine ⟨filter_map_of_ne (by decide) _, rfl, ?_, ?_, ?_, ?_, ?_⟩ <;>
        simp only [call, takeCollectBatch, Prod.map_snd, id_eq] <;> split <;> simp
  | drain =>
      left
      exact ⟨filter_map_of_ne (by decide) _, rfl, rfl, rfl, rfl, rfl, Nat.zero_le _⟩
  | markRunComplete => exact Or.inl ⟨rfl, rfl, rfl, rfl, rfl, rfl, le_rfl⟩
  | setMode mode => exact Or.inl ⟨rfl, rfl, rfl, rfl, rfl, rfl, le_rfl⟩
  | takeSummaryPrompt noun =>
      by_cases hcount : q.droppedCount = 0
      · left
        constructor <;> simp [evictedBy, reportedBy, departures, call, takeSummaryPrompt, hcount]
      · exact Or.inr (Or.inr ⟨noun, rfl, hcount⟩)
  | setCap cap => cases hop
  | setDropPolicy policy => cases hop

theorem Tally.Kept.record {t : Tally M} (hc : c < usizeMax) (hpos : 0 < c) (ht : t.Kept c)
    (hop : isTraffic op = true) : (t.record op).Kept c := by
  rcases traffic_cases (q := t.queue) hop with
    h | ⟨ctx, nowMs, rfl, hrun, hmode⟩ | ⟨noun, rfl, hcount⟩
  · exact ht.record_of_quiet h
  · exact ht.record_push hc hpos hrun hmode ctx nowMs
  · exact ht.record_prompt noun hcount

theorem kept_tally (mode : QueueMode) (hc : c < usizeMax) {ops : List (Op M)}
    (hops : ∀ op ∈ ops, isTraffic op = true) :
    (tally ((MessageQueue.new mode : MessageQueue M).setCap c) ops).Kept (max c 1) := by
  induction ops using List.reverseRecOn with
  | nil =>
      exact ⟨rfl, Nat.zero_le _, ⟨rfl, rfl, by simp [tally, setCap, MessageQueue.new]⟩,
        List.nil_suffix, fun _ => rfl⟩
  | append_singleton ops op ih =>
      have hmax : max c 1 < usizeMax := max_lt hc (by decide)
      rw [tally, List.foldl_append]
      exact (ih (fun op' hop' => hops op' (List.mem_append_left _ hop'))).record hmax
        (le_max_right c 1) (hops op (by simp))

/-- The accounting of the overflow at cap `c`: `pending` stays within the cap, the prompts
and the counter together report every eviction, and the lines are those of the newest
evictions since the last prompt. -/
structure Tally.Accounts (c : ℕ) (t : Tally M) : Prop where
  bounded : t.queue.pending.length ≤ c
  reported : t.evicted.length < usizeMax → t.reported + t.queue.droppedCount = t.evicted.length
  lines : t.queue.summaryLines =
    (t.evicted.rtake (min t.sincePrompt.length (min c 256))).map summaryLine

theorem Tally.Kept.accounts {t : Tally M} (ht : t.Kept c) : t.Accounts c := by
  refine ⟨ht.bounded, ?_, ?_⟩
  · intro hlen
    have hsum := ht.reported hlen.le
    rw [ht.unreported.count]
    omega
  · rw [ht.unreported.lines, rtake_of_suffix ht.suffix, ht.cap]

/-- The accounting holds after every sequence of calls on a bounded queue that summarizes.
A cap of 0 is taken as 1. -/
theorem overflow_accounting (mode : QueueMode) (c : ℕ) (hc : c < usizeMax) (ops : List (Op M))
    (hops : ∀ op ∈ ops, isTraffic op = true) :
    (tally ((MessageQueue.new mode).setCap c) ops).Accounts (max c 1) :=
  (kept_tally mode hc hops).accounts

/-- Three messages and a prompt. The first runs, and the second is evicted by the third. -/
def threeMessages : List (Op FinalizedMsgContext) :=
  [.enqueue (sampleContext "a") 0, .enqueue (sampleContext "b") 0,
    .enqueue (sampleContext "c") 0, .takeSummaryPrompt "message"]

theorem three_messages_accounted :
    (tally ((MessageQueue.new .followup).setCap 1) threeMessages).Accounts 1 :=
  overflow_accounting .followup 1 (by decide) threeMessages (by simp [threeMessages, isTraffic])

example :
    let t := tally ((MessageQueue.new .followup).setCap 1) threeMessages
    t.evicted.map summaryLine = ["b"] ∧ t.reported = 1 := by
  decide

end MessageQueue

end Oclaw.AutoReply
