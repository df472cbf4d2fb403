import Mathlib.Data.Prod.Basic
import Oclaw.Lib.CharBoundary
import Oclaw.Lib.LineFile

/-!
# The run log

`run_log.rs` of `crates/cron-core`: one file per job, an entry a line. Every append puts
a line at the end and then cuts the file down to its last 500 lines. File operations
succeed; `serde_json` is a codec for entries.
-/

namespace Oclaw.CronCore

open Oclaw.Lib

/-! ## §1  Entries and files -/

/-- Result of delivering cron output to a single channel target. -/
structure DeliveryResult : Type where
  channel : String
  target : String
  success : Bool
  error : Option String
deriving DecidableEq

/-- A single run-log entry persisted as one line. -/
structure RunLogEntry : Type where
  timestampMs : ℕ
  status : String
  durationMs : ℕ
  outputPreview : String
  error : Option String
  deliveries : List DeliveryResult
deriving DecidableEq

def maxLogLines : ℕ := 500

def outputPreviewMax : ℕ := 500

/-- The text of the file at a path, if there is one. -/
abbrev Files : Type := String → Option (List Char)

/-- The log directory and what writes and reads entries. -/
structure RunLog : Type where
  dir : String
  codec : LineCodec RunLogEntry

namespace RunLog

variable (log : RunLog)

/-- A job id that is an absolute path takes the place of the directory. -/
def logPath (jobId : String) : String :=
  if jobId.toList.head? = some '/' then jobId ++ ".jsonl"
  else log.dir ++ "/" ++ jobId ++ ".jsonl"

def prune (path : String) (maxLines : ℕ) (files : Files) : Files :=
  let content := (files path).getD []
  let all := lines content
  if all.length ≤ maxLines then files
  else
    let keep := all.drop (all.length - maxLines)
    Function.update files path (some (['\n'].intercalate keep ++ ['\n']))

def append (jobId : String) (files : Files) (entry : RunLogEntry) : Files :=
  let path := log.logPath jobId
  let line := log.codec.toText entry ++ ['\n']
  prune path maxLogLines
    (Function.update files path (some ((files path).getD [] ++ line)))

def read (jobId : String) (limit : ℕ) (files : Files) : List RunLogEntry :=
  match files (log.logPath jobId) with
  | none => []
  | some content => ((lines content).reverse.take limit).filterMap log.codec.ofText

/-- Truncate output to a preview-safe length. A slice that ends inside a character is a
panic, here `none`. -/
def truncatePreview (s : String) : Option String :=
  if byteLen s.toList ≤ outputPreviewMax then some s
  else (strTo s.toList outputPreviewMax).map (fun start => String.ofList start ++ "…")

variable {log} {jobId : String} {files : Files} {entries : List RunLogEntry}

/-! ## §2  Appending -/

/-- The log of the job holds these entries. -/
def Holds (log : RunLog) (jobId : String) (files : Files) (entries : List RunLogEntry) : Prop :=
  (files (log.logPath jobId)).getD [] = log.codec.file entries

theorem prune_file {path : String} {n : ℕ} (hcodec : log.codec.Lawful) (hn : 0 < n)
    (h : files path = some (log.codec.file entries)) :
    prune path n files path = some (log.codec.file (entries.rtake n)) := by
  unfold prune
  simp only [h, Option.getD_some, LineCodec.lines_file hcodec, List.length_map]
  split
  · rename_i hle
    rw [h, rtake_of_length_le hle]
  · rename_i hlt
    have hne : entries.rtake n ≠ [] := rtake_ne_nil (Nat.lt_of_not_le hlt) hn
    rw [Function.update_self, ← List.map_drop, ← List.rtake, LineCodec.joined_eq_file hne]

/-- **Spec of an append.** The entry comes last, and the last 500 entries stay. -/
theorem Holds.append (hcodec : log.codec.Lawful) (h : log.Holds jobId files entries)
    (entry : RunLogEntry) :
    log.append jobId files entry (log.logPath jobId) =
      some (log.codec.file ((entries ++ [entry]).rtake maxLogLines)) := by
  apply prune_file hcodec (by decide)
  rw [Function.update_self, h, LineCodec.file_append]
  simp [LineCodec.file]

/-- What the file holds after any number of appends. -/
theorem holds_appends (hcodec : log.codec.Lawful) (hnew : files (log.logPath jobId) = none)
    (entries : List RunLogEntry) :
    log.Holds jobId (entries.foldl (log.append jobId) files) (entries.rtake maxLogLines) := by
  induction entries using List.reverseRecOn with
  | nil => simp [Holds, hnew, LineCodec.file]
  | append_singleton entries entry ih =>
      have hfile := ih.append hcodec entry
      rw [rtake_append_rtake] at hfile
      rw [List.foldl_append, List.foldl_cons, List.foldl_nil, Holds, hfile, Option.getD_some]

/-! ## §3  Reading -/

/-- The newest entries, newest first. -/
theorem read_of_holds (hcodec : log.codec.Lawful) (h : log.Holds jobId files entries)
    (limit : ℕ) : log.read jobId limit files = entries.reverse.take limit := by
  unfold read Holds at *
  cases hfile : files (log.logPath jobId) with
  | none =>
      rw [hfile, Option.getD_none] at h
      have hlines := LineCodec.lines_file hcodec entries
      rw [← h] at hlines
      have hnil : entries = [] := List.map_eq_nil_iff.mp hlines.symm
      simp [hnil]
  | some content =>
      rw [hfile, Option.getD_some] at h
      simp only [h, LineCodec.lines_file hcodec, ← List.map_reverse, ← List.map_take]
      exact LineCodec.filterMap_ofText hcodec _

/-- **Retention.** After appends to a new log, a read gives the newest entries, newest
first, as many as it asks for, as were appended and as are kept. -/
theorem read_newest (hcodec : log.codec.Lawful) (hnew : files (log.logPath jobId) = none)
    (entries : List RunLogEntry) (limit : ℕ) :
    log.read jobId limit (entries.foldl (log.append jobId) files) =
      entries.reverse.take (min limit (min maxLogLines entries.length)) := by
  rw [read_of_holds hcodec (holds_appends hcodec hnew entries), reverse_rtake, List.take_take,
    List.take_eq_take_iff, List.length_reverse]
  omega

/-! ## §4  A log of two entries -/

/-- The JSON of an entry without deliveries whose texts need no escapes. -/
def entryText (e : RunLogEntry) : List Char :=
  let error := (e.error.map (fun t => "\"" ++ t ++ "\"")).getD "null"
  ("\x7b\"timestampMs\":" ++ (toString e.timestampMs ++ ",\"status\":\"" ++ e.status ++
    "\",\"durationMs\":" ++ toString e.durationMs ++ ",\"outputPreview\":\"" ++
    e.outputPreview ++ "\",\"error\":" ++ error ++ ",\"deliveries\":[]\x7d")).toList

abbrev encodableEntry : Encodable RunLogEntry :=
  letI : Encodable ℕ := Nat.encodable
  letI : Encodable Bool := Bool.encodable
  letI : Encodable String := encodableString
  letI : Encodable DeliveryResult :=
    .ofLeftInverse (fun d => (d.channel, d.target, d.success, d.error))
      (fun p => ⟨p.1, p.2.1, p.2.2.1, p.2.2.2⟩) (fun _ => rfl)
  .ofLeftInverse
    (fun e => (e.timestampMs, e.status, e.durationMs, e.outputPreview, e.error, e.deliveries))
    (fun p => ⟨p.1, p.2.1, p.2.2.1, p.2.2.2.1, p.2.2.2.2.1, p.2.2.2.2.2⟩) (fun _ => rfl)

/-- A good run and a failed one. -/
def twoEntries : List RunLogEntry :=
  [⟨1000, "ok", 20, "done", none, []⟩, ⟨2000, "error", 30, "no answer", some "no answer", []⟩]

def twoEntryCodec : LineCodec RunLogEntry :=
  @LineCodec.ofKnown _ _ encodableEntry entryText twoEntries

theorem noLineEnd_twoEntries : ∀ e ∈ twoEntries, '\n' ∉ entryText e ∧ '\r' ∉ entryText e := by
  simp [twoEntries, entryText]
  -- what is left are the digits of the numbers
  decide

/-- Entries whose times start with different digits have different texts. -/
theorem entryText_ne {e e' : RunLogEntry}
    (h : (toString e.timestampMs).toList.head? ≠ (toString e'.timestampMs).toList.head?)
    (hne : (toString e.timestampMs).toList ≠ []) (hne' : (toString e'.timestampMs).toList ≠ []) :
    entryText e ≠ entryText e' := by
  intro heq
  simp only [entryText, String.toList_append, List.append_assoc] at heq
  have hhead := congrArg List.head? (List.append_cancel_left heq)
  rw [List.head?_append_of_ne_nil _ hne, List.head?_append_of_ne_nil _ hne'] at hhead
  exact h hhead

theorem find_twoEntries : ∀ e ∈ twoEntries,
    twoEntries.find? (fun e' => decide (entryText e' = entryText e)) = some e := by
  intro e he
  simp only [twoEntries, List.mem_cons, List.not_mem_nil, or_false] at he
  rcases he with rfl | rfl
  · exact List.find?_cons_of_pos (decide_eq_true rfl)
  · refine (List.find?_cons_of_neg ?_).trans (List.find?_cons_of_pos (decide_eq_true rfl))
    rw [decide_eq_true_eq]
    exact entryText_ne (by decide) (by decide) (by decide)

theorem twoEntryCodec_lawful : twoEntryCodec.Lawful :=
  @LineCodec.ofKnown_lawful _ _ encodableEntry _ _ (by simp [twoEntries, entryText])
    find_twoEntries noLineEnd_twoEntries

theorem last_entry_is_read :
    ∃ log : RunLog, log.read "backup" 1 (twoEntries.foldl (log.append "backup") (fun _ => none)) =
      [⟨2000, "error", 30, "no answer", some "no answer", []⟩] :=
  ⟨⟨"cron/runs", twoEntryCodec⟩,
    (read_newest twoEntryCodec_lawful rfl twoEntries 1).trans (by decide)⟩

end RunLog

end Oclaw.CronCore
