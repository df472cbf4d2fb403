import Oclaw.Lib.Json
import Oclaw.MemoryCore.Coverage
import Oclaw.MemoryCore.Manager

/-!
# Indexing a file again

`index_file` and `index_session_transcript` of `MemoryManager`
(`crates/memory-core/src/manager.rs`): the chunks of a path are deleted first, and the new
ones are entered one after the other when all of them have their embeddings. Nothing brings
the old ones back when one of these steps fails.
-/

namespace Oclaw.MemoryCore

open Oclaw.Lib

/-! ## §1  The calls -/

/-- Which statements of the database fail: the deletion, and the entering of a chunk by its
number. A statement that fails changes nothing. -/
structure Faults : Type where
  delete : Bool
  upsert : ℕ → Bool

def Faults.none : Faults := ⟨false, fun _ => false⟩

/-- How a call ends; it is `stuck` when a slice panics, or the loop of the chunks never ends. -/
inductive Outcome : Type where
  | ok (count : ℕ)
  | err
  | stuck
deriving DecidableEq

section Model

variable {E : Type}

/-- `DELETE FROM chunks WHERE path = ?1` -/
def deleteByPath (store : Store E) (path : String) : Store E :=
  HashMap.retain (fun _ chunk => chunk.path ≠ path) store

/-- Enter the chunks until one fails; whether none did. -/
def upsertEach (fails : ℕ → Bool) (store : Store E) :
    ℕ → List (MemoryChunk E) → Bool × Store E
  | _, [] => (true, store)
  | i, chunk :: chunks =>
      if fails i then (false, store) else upsertEach fails (upsert store chunk) (i + 1) chunks

/-- What both calls do with a text. -/
def replaceChunks (cfg : Chunking) (provider : Option (Embed E)) (faults : Faults) (now : ℕ)
    (path source : String) (text : Text) (store : Store E) : Outcome × Store E :=
  if faults.delete then (.err, store)
  else
    let store := deleteByPath store path
    match chunkByChars E cfg text path source now with
    | none => (.stuck, store)
    | some chunks =>
        match embedChunks provider chunks with
        | none => (.err, store)
        | some chunks =>
            let (done, store) := upsertEach faults.upsert store 0 chunks
            (if done then .ok chunks.length else .err, store)

/-- `content` is what is read from the file, if it can be read. -/
def indexFile (cfg : Chunking) (provider : Option (Embed E)) (faults : Faults) (now : ℕ)
    (path : String) (content : Option String) (store : Store E) : Outcome × Store E :=
  match content with
  | none => (.err, store)
  | some content => replaceChunks cfg provider faults now path "file" (utf8 content) store

/-- The text of a line of a transcript, if it is an assistant message and long enough. -/
def assistantText (fromStr : String → Option Value) (minContentBytes : ℕ) (line : String) :
    Option String := do
  let msg ← fromStr line
  let role := ((msg.val.get "role").bind Json.asStr).getD ""
  let content := ((msg.val.get "content").bind Json.asStr).getD ""
  if role = "assistant" ∧ minContentBytes ≤ byteLen content.toList then some content else none

def transcriptTexts (fromStr : String → Option Value) (minContentBytes : ℕ) (content : String) :
    List String :=
  let lines := (lines content.toList).map fun line => String.ofList (trimChars line)
  (lines.filter (· ≠ "")).filterMap (assistantText fromStr minContentBytes)

/-- `fromStr` is `serde_json::from_str`. -/
def indexSessionTranscript (cfg : Chunking) (fromStr : String → Option Value)
    (provider : Option (Embed E)) (faults : Faults) (now : ℕ) (path : String)
    (minContentBytes : ℕ) (content : Option String) (store : Store E) : Outcome × Store E :=
  match content with
  | none => (.err, store)
  | some content =>
      let texts := transcriptTexts fromStr minContentBytes content
      if texts = [] then (.ok 0, store)
      else
        let combined := "\n\n".intercalate texts
        replaceChunks cfg provider faults now path "session" (utf8 combined) store

/-! ## §2  What indexing again should do -/

/-- What is stored under an id, if it is of the path. -/
def rowFor (store : Store E) (path id : String) : Option (MemoryChunk E) :=
  (getMemory store id).filter (fun chunk => chunk.path = path)

/-- These are the chunks that are stored for the path. -/
def Holds (store : Store E) (path : String) (rows : List (MemoryChunk E)) : Prop :=
  ∀ id row, rowFor store path id = some row ↔ row ∈ rows ∧ row.id = id

/-- An error leaves the chunks of the path as they were. Otherwise they are those of the new
text, with their embeddings. -/
structure Replaces (cfg : Chunking) (provider : Option (Embed E)) (now : ℕ)
    (path source : String) (text : Text) (before : Store E) (result : Outcome × Store E) :
    Prop where
  err : result.1 = .err → ∀ id, rowFor result.2 path id = rowFor before path id
  ok : ∀ count, result.1 = .ok count → ∃ chunks rows,
    chunkByChars E cfg text path source now = some chunks ∧
    embedChunks provider chunks = some rows ∧ rows.length = count ∧ Holds result.2 path rows

/-- The provider answers every batch, with as many vectors as it has texts. -/
def Answers (provider : Option (Embed E)) (chunks : List (MemoryChunk E)) : Prop :=
  ∀ embed ∈ provider, ∀ batch ∈ batches 64 (chunks.map (·.content)),
    ∃ embs, embed batch = some embs ∧ embs.length = batch.length

/-- This statement is the first to fail. -/
def FirstFault (fails : ℕ → Bool) (i : ℕ) : Prop := fails i = true ∧ ∀ j < i, fails j = false

/-- A failure behind the deletion finds for the path just what it leaves: nothing when the
provider does not answer, and as many of the new chunks as are entered when one fails. -/
structure FailsSafely (cfg : Chunking) (provider : Option (Embed E)) (faults : Faults) (now : ℕ)
    (path source : String) (text : Text) (before : Store E) : Prop where
  unanswered : ∀ chunks, chunkByChars E cfg text path source now = some chunks →
    ¬ Answers provider chunks → Holds before path []
  broken : ∀ chunks rows i, chunkByChars E cfg text path source now = some chunks →
    embedChunks provider chunks = some rows → FirstFault faults.upsert i → i < rows.length →
    Holds before path (rows.take i)

/-! ## §3  Embeddings -/

variable {cfg : Chunking} {provider : Option (Embed E)} {embed : Embed E} {faults : Faults}
variable {now i k : ℕ} {path source id : String} {text : Text} {fails : ℕ → Bool}
variable {chunk row : MemoryChunk E} {chunks rows : List (MemoryChunk E)}
variable {store store' before : Store E}

theorem embedAll_isSome_iff {texts : List (List Text)} :
    (∃ embs, embedAll embed texts = some embs) ↔
      ∀ batch ∈ texts, ∃ embs, embed batch = some embs ∧ embs.length = batch.length := by
  induction texts with
  | nil => simp [embedAll]
  | cons batch texts ih =>
      rw [List.forall_mem_cons, ← ih]
      constructor
      · rintro ⟨embs, h⟩
        obtain ⟨first, hfirst, h⟩ := Option.bind_eq_some_iff.mp h
        obtain ⟨hlen, h⟩ := Option.ite_none_left_eq_some.mp h
        obtain ⟨more, hmore, -⟩ := Option.bind_eq_some_iff.mp h
        exact ⟨⟨first, hfirst, not_not.mp hlen⟩, more, hmore⟩
      · rintro ⟨⟨first, hfirst, hlen⟩, more, hmore⟩
        exact ⟨first ++ more, by simp [embedAll, hfirst, hlen, hmore]⟩

theorem embedChunks_isSome_iff :
    (∃ rows, embedChunks provider chunks = some rows) ↔ Answers provider chunks := by
  cases provider with
  | none => exact iff_of_true ⟨chunks, rfl⟩ (by simp [Answers])
  | some embed =>
      by_cases hnil : chunks = []
      · refine iff_of_true ⟨chunks, if_pos hnil⟩ ?_
        simp [Answers, hnil, batches]
      · have hbatches : Answers (some embed) chunks ↔
            ∃ embs, embedAll embed (batches 64 (chunks.map (·.content))) = some embs := by
          rw [embedAll_isSome_iff, Answers]
          simp
        rw [hbatches, embedChunks, if_neg hnil]
        constructor
        · rintro ⟨rows, h⟩
          obtain ⟨embs, hembs, -⟩ := Option.bind_eq_some_iff.mp h
          exact ⟨embs, hembs⟩
        · rintro ⟨embs, hembs⟩
          rw [hembs]
          exact ⟨_, rfl⟩

/-- Chunks of one path, no two of which have the same id. -/
structure OneEach (path : String) (rows : List (MemoryChunk E)) : Prop where
  path : ∀ row ∈ rows, row.path = path
  ids : (rows.map (·.id)).Nodup

theorem oneEach_of_chunks (h : chunkByChars E cfg text path source now = some chunks) :
    OneEach path chunks := by
  constructor
  · intro chunk hchunk
    obtain ⟨k, hk⟩ := List.mem_iff_getElem?.mp hchunk
    obtain ⟨s, e, -, rfl⟩ := isChunk_of_mem h hk
    rfl
  · rw [List.Nodup, List.pairwise_iff_getElem]
    intro i j hi hj hlt heq
    rw [List.length_map] at hi hj
    obtain ⟨s, e, hchunk, -⟩ := isChunk_of_mem h (List.getElem?_eq_getElem hi)
    obtain ⟨s', e', hchunk', -⟩ := isChunk_of_mem h (List.getElem?_eq_getElem hj)
    rw [List.getElem_map, List.getElem_map, hchunk.id, hchunk'.id] at heq
    exact absurd (chunkId_inj heq).2.1 (Nat.ne_of_lt hlt)

theorem OneEach.embedded (h : OneEach path chunks)
    (hrows : embedChunks provider chunks = some rows) : OneEach path rows := by
  have hids : rows.map (·.id) = chunks.map (·.id) := embedChunks_map (fun _ _ => rfl) hrows
  have hpaths : rows.map (·.path) = chunks.map (·.path) := embedChunks_map (fun _ _ => rfl) hrows
  constructor
  · intro row hrow
    have hmem : row.path ∈ chunks.map (·.path) := hpaths ▸ List.mem_map_of_mem hrow
    obtain ⟨chunk, hchunk, heq⟩ := List.mem_map.mp hmem
    rw [← heq]
    exact h.path chunk hchunk
  · rw [hids]
    exact h.ids

/-! ## §4  Rows -/

theorem Holds.same_iff (h : Holds store path rows) :
    (∀ id, rowFor store path id = rowFor store' path id) ↔ Holds store' path rows := by
  constructor
  · intro hsame id row
    rw [← hsame id]
    exact h id row
  · intro h' id
    ext row
    rw [h id row, h' id row]

theorem holds_deleteByPath : Holds (deleteByPath store path) path [] := by
  intro id row
  refine iff_of_false (fun h => ?_) (fun h => nomatch h.1)
  obtain ⟨hrow, hpath⟩ := Option.filter_eq_some_iff.mp h
  rw [getMemory, deleteByPath, HashMap.lookup_retain, Option.filter_eq_some_iff] at hrow
  simp only [decide_eq_true_eq] at hrow hpath
  exact hrow.2 hpath

theorem Holds.upsert (h : Holds store path rows) (hpath : chunk.path = path)
    (hnew : chunk.id ∉ rows.map (·.id)) :
    Holds (upsert store chunk) path (rows ++ [chunk]) := by
  intro id row
  rw [rowFor, getMemory, MemoryCore.upsert, HashMap.lookup_insert_eq, List.mem_append,
    List.mem_singleton]
  by_cases hid : id = chunk.id
  · rw [if_pos hid, Option.filter_some, if_pos (by simpa using hpath), Option.some.injEq]
    constructor
    · rintro rfl
      exact ⟨Or.inr rfl, hid.symm⟩
    · rintro ⟨hold | rfl, heq⟩
      · have hmem := List.mem_map_of_mem (f := (·.id)) hold
        rw [heq, hid] at hmem
        exact absurd hmem hnew
      · rfl
  · rw [if_neg hid]
    refine (h id row).trans ⟨fun hold => ⟨Or.inl hold.1, hold.2⟩, ?_⟩
    rintro ⟨hold | rfl, heq⟩
    · exact ⟨hold, heq⟩
    · exact absurd heq.symm hid

theorem holds_upsertAll (h : Holds store path []) (hrows : OneEach path rows) :
    Holds (upsertAll store rows) path rows := by
  induction rows using List.reverseRecOn with
  | nil => exact h
  | append_singleton rows row ih =>
      obtain ⟨hpath, hids⟩ := hrows
      rw [List.map_append, List.nodup_append] at hids
      obtain ⟨hrows, -, hnew⟩ := hids
      rw [upsertAll_concat]
      refine (ih ⟨fun r hr => hpath r (List.mem_append_left _ hr), hrows⟩).upsert
        (hpath row (by simp)) fun hmem => ?_
      exact hnew _ hmem _ (by simp) rfl

theorem OneEach.take (h : OneEach path rows) (n : ℕ) : OneEach path (rows.take n) := by
  refine ⟨fun row hrow => h.path row (List.mem_of_mem_take hrow), ?_⟩
  exact h.ids.sublist ((List.take_sublist n rows).map _)

/-! ## §5  How a call ends -/

/-- All the chunks are entered, or those before the first fault. -/
theorem upsertEach_cases (fails : ℕ → Bool) (store : Store E) (k : ℕ)
    (rows : List (MemoryChunk E)) :
    ((∀ j < rows.length, fails (k + j) = false) ∧
        upsertEach fails store k rows = (true, upsertAll store rows)) ∨
      ∃ i < rows.length, FirstFault (fun j => fails (k + j)) i ∧
        upsertEach fails store k rows = (false, upsertAll store (rows.take i)) := by
  induction rows generalizing store k with
  | nil => exact Or.inl ⟨fun j hj => absurd hj (Nat.not_lt_zero j), rfl⟩
  | cons row rows ih =>
      rw [upsertEach]
      cases hk : fails k with
      | true =>
          exact Or.inr ⟨0, Nat.succ_pos _, ⟨hk, fun j hj => absurd hj (Nat.not_lt_zero j)⟩, rfl⟩
      | false =>
          have hshift (j : ℕ) : fails (k + 1 + j) = fails (k + (j + 1)) := by
            rw [Nat.add_assoc, Nat.add_comm 1 j]
          rcases ih (upsert store row) (k + 1) with ⟨hnone, heq⟩ | ⟨i, hi, ⟨hfault, hbefore⟩, heq⟩
          · refine Or.inl ⟨fun j hj => ?_, heq⟩
            cases j with
            | zero => exact hk
            | succ j => exact hshift j ▸ hnone j (Nat.lt_of_succ_lt_succ hj)
          · refine Or.inr
              ⟨i + 1, Nat.succ_lt_succ hi, ⟨(hshift i).symm.trans hfault, fun j hj => ?_⟩, heq⟩
            cases j with
            | zero => exact hk
            | succ j => exact (hshift j).symm.trans (hbefore j (Nat.lt_of_succ_lt_succ hj))

/-- The ends of a call: the deletion fails, the chunks are not made, the provider does not
answer, entering a chunk fails, or all goes well. -/
inductive Ends (cfg : Chunking) (provider : Option (Embed E)) (faults : Faults) (now : ℕ)
    (path source : String) (text : Text) (before : Store E) : Outcome × Store E → Prop where
  | undeleted : faults.delete = true →
      Ends cfg provider faults now path source text before (.err, before)
  | stuck : faults.delete = false → chunkByChars E cfg text path source now = none →
      Ends cfg provider faults now path source text before (.stuck, deleteByPath before path)
  | unanswered {chunks : List (MemoryChunk E)} : faults.delete = false →
      chunkByChars E cfg text path source now = some chunks → ¬ Answers provider chunks →
      Ends cfg provider faults now path source text before (.err, deleteByPath before path)
  | broken {chunks rows : List (MemoryChunk E)} {i : ℕ} : faults.delete = false →
      chunkByChars E cfg text path source now = some chunks →
      embedChunks provider chunks = some rows → FirstFault faults.upsert i → i < rows.length →
      Ends cfg provider faults now path source text before
        (.err, upsertAll (deleteByPath before path) (rows.take i))
  | done {chunks rows : List (MemoryChunk E)} : faults.delete = false →
      chunkByChars E cfg text path source now = some chunks →
      embedChunks provider chunks = some rows →
      (∀ i < rows.length, faults.upsert i = false) →
      Ends cfg provider faults now path source text before
        (.ok rows.length, upsertAll (deleteByPath before path) rows)

theorem replaceChunks_ends : Ends cfg provider faults now path source text before
    (replaceChunks cfg provider faults now path source text before) := by
  rw [replaceChunks]
  cases hdelete : faults.delete with
  | true => exact .undeleted hdelete
  | false =>
      rw [if_neg Bool.false_ne_true]
      cases hchunks : chunkByChars E cfg text path source now with
      | none => exact .stuck hdelete hchunks
      | some chunks =>
          cases hrows : embedChunks provider chunks with
          | none =>
              simp only [hrows]
              refine .unanswered hdelete hchunks fun hanswers => ?_
              obtain ⟨rows, h⟩ := embedChunks_isSome_iff.mpr hanswers
              rw [hrows] at h
              cases h
          | some rows =>
              simp only [hrows]
              rcases upsertEach_cases faults.upsert (deleteByPath before path) 0 rows with
                ⟨hnone, heq⟩ | ⟨i, hi, hfault, heq⟩
              · simp only [Nat.zero_add] at hnone
                rw [heq]
                exact .done hdelete hchunks hrows hnone
              · simp only [Nat.zero_add] at hfault
                rw [heq]
                exact .broken hdelete hchunks hrows hfault hi

theorem FirstFault.unique {i j : ℕ} (h : FirstFault fails i) (h' : FirstFault fails j) : i = j := by
  rcases Nat.lt_trichotomy i j with hlt | heq | hgt
  · exact absurd h.1 (by rw [h'.2 i hlt]; exact Bool.false_ne_true)
  · exact heq
  · exact absurd h'.1 (by rw [h.2 j hgt]; exact Bool.false_ne_true)

/-- An end with an error is right when the path had just what is left. -/
theorem replaces_err_iff {after : Store E} {left : List (MemoryChunk E)}
    (h : Holds after path left) :
    Replaces cfg provider now path source text before (.err, after) ↔ Holds before path left := by
  rw [← h.same_iff]
  constructor
  · exact fun hright => hright.err rfl
  · exact fun hsame => ⟨fun _ => hsame, fun _ hok => nomatch hok⟩

theorem failsSafely_of_stuck (h : chunkByChars E cfg text path source now = none) :
    FailsSafely cfg provider faults now path source text before := by
  constructor
  · intro chunks hchunks
    rw [h] at hchunks
    cases hchunks
  · intro chunks rows i hchunks
    rw [h] at hchunks
    cases hchunks

theorem failsSafely_iff_of_unanswered
    (hchunks : chunkByChars E cfg text path source now = some chunks)
    (h : ¬ Answers provider chunks) :
    FailsSafely cfg provider faults now path source text before ↔ Holds before path [] := by
  refine ⟨fun hsafe => hsafe.unanswered chunks hchunks h, fun hnothing => ⟨?_, ?_⟩⟩
  · exact fun _ _ _ => hnothing
  · intro chunks' rows i hchunks' hrows
    rw [hchunks] at hchunks'
    cases hchunks'
    exact absurd (embedChunks_isSome_iff.mp ⟨rows, hrows⟩) h

theorem failsSafely_iff_of_rows
    (hchunks : chunkByChars E cfg text path source now = some chunks)
    (hrows : embedChunks provider chunks = some rows) :
    FailsSafely cfg provider faults now path source text before ↔
      ∀ i, FirstFault faults.upsert i → i < rows.length → Holds before path (rows.take i) := by
  refine ⟨fun hsafe i => hsafe.broken chunks rows i hchunks hrows, fun hleft => ⟨?_, ?_⟩⟩
  · intro chunks' hchunks' hno
    rw [hchunks] at hchunks'
    cases hchunks'
    exact absurd (embedChunks_isSome_iff.mp ⟨rows, hrows⟩) hno
  · intro chunks' rows' i hchunks' hrows'
    rw [hchunks] at hchunks'
    cases hchunks'
    rw [hrows] at hrows'
    cases hrows'
    exact hleft i

/-- The common part of the calls is right just when its failures are safe. -/
theorem replaceChunks_iff :
    Replaces cfg provider now path source text before
        (replaceChunks cfg provider faults now path source text before) ↔
      faults.delete = true ∨ FailsSafely cfg provider faults now path source text before := by
  have hends : Ends cfg provider faults now path source text before _ := replaceChunks_ends
  generalize replaceChunks cfg provider faults now path source text before = result at hends
  cases hends with
  | undeleted hdelete =>
      exact iff_of_true ⟨fun _ _ => rfl, fun _ hok => nomatch hok⟩ (Or.inl hdelete)
  | stuck hdelete hnone =>
      refine iff_of_true ⟨?_, ?_⟩ (Or.inr (failsSafely_of_stuck hnone))
      · exact fun herr => nomatch herr
      · exact fun _ hok => nomatch hok
  | unanswered hdelete hchunks hanswers =>
      rw [replaces_err_iff holds_deleteByPath, hdelete,
        failsSafely_iff_of_unanswered hchunks hanswers]
      exact ⟨Or.inr, fun h => h.resolve_left Bool.false_ne_true⟩
  | @broken chunks rows i hdelete hchunks hrows hfault hi =>
      have heach := (oneEach_of_chunks hchunks).embedded hrows
      rw [replaces_err_iff (holds_upsertAll holds_deleteByPath (heach.take i)), hdelete,
        failsSafely_iff_of_rows hchunks hrows]
      refine ⟨fun hleft => Or.inr fun j hj _ => hj.unique hfault ▸ hleft, fun h => ?_⟩
      exact h.resolve_left Bool.false_ne_true i hfault hi
  | @done chunks rows hdelete hchunks hrows hnone =>
      have heach := (oneEach_of_chunks hchunks).embedded hrows
      refine iff_of_true ⟨fun herr => ?_, fun count hok => ?_⟩
        (Or.inr ((failsSafely_iff_of_rows hchunks hrows).mpr fun i hfault hi => ?_))
      · cases herr
      · obtain rfl := Outcome.ok.inj hok
        exact ⟨chunks, rows, hchunks, hrows, rfl, holds_upsertAll holds_deleteByPath heach⟩
      · rw [FirstFault, hnone i hi] at hfault
        exact absurd hfault.1 Bool.false_ne_true

/-! ## §6  The calls -/

/-- The text of which a file has the chunks; it is read before anything is changed. -/
def IndexesFile (cfg : Chunking) (provider : Option (Embed E)) (faults : Faults) (now : ℕ)
    (path : String) (content : Option String) (before : Store E) : Prop :=
  Replaces cfg provider now path "file" (utf8 (content.getD "")) before
    (indexFile cfg provider faults now path content before)

/-- The text of which a transcript has the chunks: its long messages of the assistant. -/
def transcriptText (fromStr : String → Option Value) (minContentBytes : ℕ)
    (content : Option String) : Text :=
  utf8 ("\n\n".intercalate (transcriptTexts fromStr minContentBytes (content.getD "")))

def IndexesTranscript (cfg : Chunking) (fromStr : String → Option Value)
    (provider : Option (Embed E)) (faults : Faults) (now : ℕ) (path : String)
    (minContentBytes : ℕ) (content : Option String) (before : Store E) : Prop :=
  Replaces cfg provider now path "session" (transcriptText fromStr minContentBytes content) before
    (indexSessionTranscript cfg fromStr provider faults now path minContentBytes content before)

theorem indexesFile_iff {content : Option String} :
    IndexesFile cfg provider faults now path content before ↔
      ∀ text ∈ content, faults.delete = true ∨
        FailsSafely cfg provider faults now path "file" (utf8 text) before := by
  cases content with
  | none =>
      exact iff_of_true ⟨fun _ _ => rfl, fun _ hok => nomatch hok⟩ (by simp)
  | some text =>
      have hone : (∀ t ∈ some text, faults.delete = true ∨
          FailsSafely cfg provider faults now path "file" (utf8 t) before) ↔
          faults.delete = true ∨
            FailsSafely cfg provider faults now path "file" (utf8 text) before := by simp
      rw [hone]
      exact replaceChunks_iff

/-- Without a long message of the assistant, nothing is deleted and the call is well. -/
theorem indexesTranscript_iff {fromStr : String → Option Value} {minContentBytes : ℕ}
    {content : Option String} :
    IndexesTranscript cfg fromStr provider faults now path minContentBytes content before ↔
      ∀ lines ∈ content,
        if transcriptTexts fromStr minContentBytes lines = [] then Holds before path []
        else faults.delete = true ∨ FailsSafely cfg provider faults now path "session"
          (transcriptText fromStr minContentBytes content) before := by
  cases content with
  | none =>
      exact iff_of_true ⟨fun _ _ => rfl, fun _ hok => nomatch hok⟩ (by simp)
  | some lines =>
      rw [IndexesTranscript, indexSessionTranscript]
      by_cases hnone : transcriptTexts fromStr minContentBytes lines = []
      · have htext : transcriptText fromStr minContentBytes (some lines) = [] := by
          rw [transcriptText, Option.getD_some, hnone]
          rfl
        have hchunks : chunkByChars E cfg [] path "session" now = some [] := if_pos rfl
        have hrows : embedChunks provider ([] : List (MemoryChunk E)) = some [] := by
          cases provider with
          | none => rfl
          | some embed => simp [embedChunks]
        rw [htext, if_pos hnone]
        simp only [Option.mem_def, Option.some.injEq, forall_eq', if_pos hnone]
        constructor
        · intro hright
          obtain ⟨chunks, rows, hchunks', hrows', -, hholds⟩ := hright.ok 0 rfl
          rw [hchunks] at hchunks'
          cases hchunks'
          rw [hrows] at hrows'
          cases hrows'
          exact hholds
        · intro hnothing
          refine ⟨fun herr => ?_, fun count hok => ?_⟩
          · cases herr
          · obtain rfl := Outcome.ok.inj hok
            exact ⟨[], [], hchunks, hrows, rfl, hnothing⟩
      · simp only [Option.mem_def, Option.some.injEq, forall_eq', if_neg hnone]
        exact replaceChunks_iff

/-- **Indexing again.** A call changes the chunks of its path all at once just when a failure
behind the deletion finds nothing to lose, and so does a transcript without a long message. -/
theorem indexing_replaces_iff (cfg : Chunking) (fromStr : String → Option Value)
    (provider : Option (Embed E)) (faults : Faults) (now : ℕ) (path : String)
    (content : Option String) (before : Store E) :
    (IndexesFile cfg provider faults now path content before ↔
      ∀ text ∈ content, faults.delete = true ∨
        FailsSafely cfg provider faults now path "file" (utf8 text) before) ∧
    ∀ minContentBytes,
      IndexesTranscript cfg fromStr provider faults now path minContentBytes content before ↔
        ∀ lines ∈ content,
          if transcriptTexts fromStr minContentBytes lines = [] then Holds before path []
          else faults.delete = true ∨ FailsSafely cfg provider faults now path "session"
            (transcriptText fromStr minContentBytes content) before :=
  ⟨indexesFile_iff, fun _ => indexesTranscript_iff⟩

end Model

/-- A note that is indexed again while the provider is away: the chunk that was there is
lost. -/
theorem not_indexesFile_away :
    let old : MemoryChunk Unit := ⟨"a.md:0:3", "a.md", 1, 1, utf8 "old", "file", some (), 0⟩
    let before : Store Unit := upsert ∅ old
    let provider : Option (Embed Unit) := some fun _ => none
    (indexFile .default provider .none 1 "a.md" (some "new") before).1 = .err ∧
      rowFor before "a.md" "a.md:0:3" = some old ∧
      rowFor (indexFile .default provider .none 1 "a.md" (some "new") before).2 "a.md"
        "a.md:0:3" = none ∧
      ¬ ∀ content (store : Store Unit),
        IndexesFile .default provider .none 1 "a.md" content store := by
  intro old before provider
  have herr : (indexFile .default provider .none 1 "a.md" (some "new") before).1 = .err := by
    decide
  have hold : rowFor before "a.md" "a.md:0:3" = some old := by decide
  have hlost : rowFor (indexFile .default provider .none 1 "a.md" (some "new") before).2 "a.md"
      "a.md:0:3" = none := by decide
  refine ⟨herr, hold, hlost, fun h => ?_⟩
  have hsame := (h (some "new") before).err herr "a.md:0:3"
  rw [hold, hlost] at hsame
  cases hsame

end Oclaw.MemoryCore
