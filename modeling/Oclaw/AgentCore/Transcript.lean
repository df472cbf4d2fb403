import Oclaw.AgentCore.Chat
import Oclaw.Lib.Text

/-!
# The transcript file

`Transcript::append` and `Transcript::load` of `crates/agent-core/src/transcript.rs`:
one serialized message a line. The JSON library is a parameter; what is used of it
is that a message is written on one line and read back.
-/

namespace Oclaw.AgentCore

open Oclaw.Lib

/-- `serde_json` at `ChatMessage`. -/
structure JsonCodec : Type where
  toJson : ChatMessage → String
  ofJson : String → Option ChatMessage

/-- Messages are written on one line and are read back as they were. -/
structure JsonCodec.Lawful (codec : JsonCodec) : Prop where
  roundTrip : ∀ m, codec.ofJson (codec.toJson m) = some m
  oneLine : ∀ m, '\n' ∉ (codec.toJson m).toList ∧ '\r' ∉ (codec.toJson m).toList

namespace Transcript

variable (codec : JsonCodec)

/-- The file is missing until the first append. -/
def append (file : Option String) (message : ChatMessage) : Option String :=
  some (file.getD "" ++ codec.toJson message ++ "\n")

def load (file : Option String) : List ChatMessage :=
  match file with
  | none => []
  | some data => (lines data.toList).filterMap (fun l => codec.ofJson (String.ofList l))

/-- The file that holds the given messages. -/
def written (ms : List ChatMessage) : Option String :=
  ms.foldl (append codec) none

variable {codec}

theorem written_append (ms ms' : List ChatMessage) :
    ms'.foldl (append codec) (written codec ms) = written codec (ms ++ ms') := by
  unfold written
  rw [List.foldl_append]

theorem foldl_append_toList : ∀ (ms : List ChatMessage) (file : Option String),
    ((ms.foldl (append codec) file).getD "").toList =
      (file.getD "").toList ++
        (ms.map (fun m => (codec.toJson m).toList)).flatMap (· ++ ['\n'])
  | [], file => by simp
  | m :: ms, file => by
      rw [List.foldl_cons, foldl_append_toList ms]
      simp [append, String.toList_append]

theorem foldl_append_isSome : ∀ (ms : List ChatMessage) {file : Option String},
    file.isSome = true → (ms.foldl (append codec) file).isSome = true
  | [], _, h => h
  | _ :: ms, _, _ => foldl_append_isSome ms rfl

/-- What was appended is loaded. -/
theorem load_written (hcodec : codec.Lawful) (ms : List ChatMessage) :
    load codec (written codec ms) = ms := by
  cases ms with
  | nil => rfl
  | cons m ms =>
      have hsome : (written codec (m :: ms)).isSome = true :=
        foldl_append_isSome ms (rfl : (append codec none m).isSome = true)
      obtain ⟨data, hdata⟩ := Option.isSome_iff_exists.mp hsome
      have htext : data.toList =
          ((m :: ms).map (fun m => (codec.toJson m).toList)).flatMap (· ++ ['\n']) := by
        have h := @foldl_append_toList codec (m :: ms) none
        unfold written at hdata
        rw [hdata] at h
        simpa using h
      have hlines : lines data.toList = (m :: ms).map (fun m => (codec.toJson m).toList) := by
        rw [htext]
        apply lines_written
        · intro l hl
          obtain ⟨m', -, rfl⟩ := List.mem_map.mp hl
          exact (hcodec.oneLine m').1
        · intro l hl
          obtain ⟨m', -, rfl⟩ := List.mem_map.mp hl
          exact (hcodec.oneLine m').2
      have hread : ((fun l => codec.ofJson (String.ofList l)) ∘
          fun m => (codec.toJson m).toList) = some := by
        funext m'
        simp [hcodec.roundTrip]
      rw [hdata]
      show (lines data.toList).filterMap _ = _
      rw [hlines, List.filterMap_map, hread, List.filterMap_some]

end Transcript

end Oclaw.AgentCore
