import Oclaw.Lib.Utf8
import Oclaw.Lib.Text
import Oclaw.Lib.Json
import Oclaw.Lib.Delimited
import Oclaw.AgentCore.Chat

/-!
# Streaming replies

The tasks that the `chat_stream` functions of `crates/llm-core/src/providers/openai.rs`
and `anthropic.rs` spawn. A task decodes the bytes of each network chunk, appends them
to a buffer, cuts complete lines off it and sends what the lines say. `serde_json` is a
parameter, and sending succeeds. The two loops differ only in what they do with a line
and with what is left in the buffer at the end.
-/

namespace Oclaw.LlmCore

open Oclaw.Lib
open Oclaw.AgentCore

/-! ## §1  What is sent -/

structure StreamChoice : Type where
  index : Int
  delta : Option ChatMessage
  finishReason : Option String
deriving DecidableEq

structure StreamChunk : Type where
  id : String
  object : String
  created : Int
  model : String
  choices : List StreamChoice
deriving DecidableEq

/-- The one variant of `LlmError` that a stream task sends. -/
inductive LlmError : Type where
  | networkError (message : String)
deriving DecidableEq

abbrev Sent := Except LlmError StreamChunk

/-- What a task does with a line: it goes on, having sent some chunks, or returns. -/
inductive LineFlow : Type where
  | next (sent : List StreamChunk)
  | stop

/-! ## §2  The loops -/

/-- The complete lines of a buffer and what is left behind the last of them. -/
def cutLines : List Char → List (List Char) × List Char
  | [] => ([], [])
  | c :: cs =>
      if c = '\n' then ([] :: (cutLines cs).1, (cutLines cs).2)
      else
        match (cutLines cs).1 with
        | [] => ([], c :: cs)
        | line :: lines => ((c :: line) :: lines, (cutLines cs).2)

/-- The sent chunks of some lines, and whether the task goes on behind them. -/
def handleLines (onLine : List Char → LineFlow) : List (List Char) → List Sent × Bool
  | [] => ([], true)
  | line :: lines =>
      match onLine (trimChars line) with
      | .stop => ([], false)
      | .next sent =>
          let rest := handleLines onLine lines
          (sent.map .ok ++ rest.1, rest.2)

/-- The loop over the network chunks: what is sent, and what is in the buffer behind
the loop, unless the task returned from within it. -/
def streamLoop (onLine : List Char → LineFlow) (buffer : List Char) :
    List (Except String (List UInt8)) → List Sent × Option (List Char)
  | [] => ([], some buffer)
  | .error e :: _ => ([.error (.networkError e)], some buffer)
  | .ok bytes :: chunks =>
      let cut := cutLines (buffer ++ fromUtf8Lossy bytes)
      match handleLines onLine cut.1 with
      | (sent, false) => (sent, none)
      | (sent, true) =>
          let rest := streamLoop onLine cut.2 chunks
          (sent ++ rest.1, rest.2)

def stripPrefix (pre cs : List Char) : Option (List Char) :=
  if pre.isPrefixOf cs then some (cs.drop pre.length) else none

/-! ### OpenAI -/

section OpenAi

variable (fromStr : String → Option StreamChunk)

def openAiLine (line : List Char) : LineFlow :=
  match stripPrefix "data: ".toList line with
  | none => .next []
  | some data =>
      if data = "[DONE]".toList then .stop
      else .next (fromStr (String.ofList data)).toList

/-- What is left in the buffer when the stream has ended. -/
def openAiRest (buffer : List Char) : List Sent :=
  match stripPrefix "data: ".toList (trimChars buffer) with
  | none => []
  | some data =>
      if data = "[DONE]".toList then []
      else (fromStr (String.ofList data)).toList.map .ok

def openAiStream (chunks : List (Except String (List UInt8))) : List Sent :=
  match streamLoop (openAiLine fromStr) [] chunks with
  | (sent, none) => sent
  | (sent, some buffer) => sent ++ openAiRest fromStr buffer

end OpenAi

/-! ### Anthropic -/

section Anthropic

-- the id, the model and the timestamp are the same for all chunks of a task
variable (id model : String) (created : Int) (fromStr : String → Option Json)

def anthropicChunk (text : String) : StreamChunk where
  id := id
  object := "chat.completion.chunk"
  created := created
  model := model
  choices := [⟨0, some ⟨.assistant, text, none, none, none⟩, none⟩]

def anthropicLine (line : List Char) : LineFlow :=
  if line.isEmpty || !"data: ".toList.isPrefixOf line then .next []
  else
    match fromStr (String.ofList (line.drop 6)) with
    | none => .next []
    | some event =>
        if (event.get "type").bind Json.asStr = some "content_block_delta" then
          -- `pointer("/delta/text")`
          match (((event.get "delta").bind (Json.get "text")).bind Json.asStr) with
          | some text => .next [anthropicChunk id model created text]
          | none => .next []
        else if (event.get "type").bind Json.asStr = some "message_stop" then .stop
        else .next []

def anthropicStream (chunks : List (Except String (List UInt8))) : List Sent :=
  (streamLoop (anthropicLine id model created fromStr) [] chunks).1

end Anthropic

/-! ## §3  What is sent depends on the decoded text only -/

/-- The loop `while let Some(line_end) = buffer.find('\n')`. -/
theorem cutLines_loop (cs : List Char) :
    cutLines cs =
      match splitOnce '\n' cs with
      | none => ([], cs)
      | some (line, rest) => (line :: (cutLines rest).1, (cutLines rest).2) := by
  induction cs with
  | nil => rfl
  | cons c cs ih =>
      simp only [cutLines, splitOnce]
      split
      · rfl
      · rw [ih]
        cases splitOnce '\n' cs <;> rfl

/-- The lines of a buffer to which a text is appended. -/
theorem cutLines_append (a b : List Char) :
    cutLines (a ++ b) =
      ((cutLines a).1 ++ (cutLines ((cutLines a).2 ++ b)).1,
        (cutLines ((cutLines a).2 ++ b)).2) := by
  induction a with
  | nil => rfl
  | cons c a ih =>
      simp only [List.cons_append, cutLines]
      split
      · rw [ih]
        rfl
      · rename_i hc
        cases hlines : (cutLines a).1 with
        | nil => simp [cutLines, hc]
        | cons line lines =>
            rw [ih, hlines]
            rfl

theorem cutLines_rest (cs : List Char) : cutLines (cutLines cs).2 = ([], (cutLines cs).2) := by
  induction cs with
  | nil => rfl
  | cons c cs ih =>
      simp only [cutLines]
      split
      · exact ih
      · rename_i hc
        cases hlines : (cutLines cs).1 with
        | nil => simp [cutLines, hc, hlines]
        | cons line lines => exact ih

theorem handleLines_append (onLine : List Char → LineFlow) (ls ms : List (List Char)) :
    handleLines onLine (ls ++ ms) =
      match handleLines onLine ls with
      | (sent, false) => (sent, false)
      | (sent, true) => (sent ++ (handleLines onLine ms).1, (handleLines onLine ms).2) := by
  induction ls with
  | nil => rfl
  | cons l ls ih =>
      cases hline : onLine (trimChars l) with
      | stop => simp only [List.cons_append, handleLines, hline]
      | next sent =>
          simp only [List.cons_append, handleLines, hline, ih]
          rcases handleLines onLine ls with ⟨more, _ | _⟩ <;> simp

/-- The loop on a text that has been decoded and cut into lines. -/
def readLines (onLine : List Char → LineFlow) (cut : List (List Char) × List Char) :
    List Sent × Option (List Char) :=
  match handleLines onLine cut.1 with
  | (sent, false) => (sent, none)
  | (sent, true) => (sent, some cut.2)

theorem streamLoop_decoded (onLine : List Char → LineFlow) {buffer : List Char}
    (hbuffer : cutLines buffer = ([], buffer)) (chunks : List (List UInt8)) :
    streamLoop onLine buffer (chunks.map .ok) =
      readLines onLine (cutLines (buffer ++ chunks.flatMap fromUtf8Lossy)) := by
  induction chunks generalizing buffer with
  | nil =>
      rw [List.flatMap_nil, List.append_nil, hbuffer]
      rfl
  | cons bytes chunks ih =>
      -- the lines of the first chunk come first, and its rest is the next buffer
      rw [List.flatMap_cons, ← List.append_assoc, cutLines_append]
      have hrest := ih (cutLines_rest (buffer ++ fromUtf8Lossy bytes))
      simp only [List.map_cons, streamLoop, readLines, handleLines_append, hrest]
      rcases handleLines onLine (cutLines (buffer ++ fromUtf8Lossy bytes)).1 with ⟨sent, _ | _⟩
      · rfl
      · simp only
        split <;> simp [*]

/-- What the tasks send when their chunks decode to a text. -/
theorem streamLoop_of_decoded (onLine : List Char → LineFlow) {chunks : List (List UInt8)}
    {text : List Char} (h : chunks.flatMap fromUtf8Lossy = text) :
    streamLoop onLine [] (chunks.map .ok) = streamLoop onLine [] [.ok (utf8 text)] := by
  have hone : streamLoop onLine [] ([utf8 text].map .ok) = _ :=
    streamLoop_decoded onLine rfl [utf8 text]
  rw [streamLoop_decoded onLine rfl, h]
  simpa [fromUtf8Lossy_utf8] using hone.symm

def helloData (content : String) : String :=
  "\x7b\"type\":\"content_block_delta\",\"delta\":\x7b\"text\":\"" ++ content ++ "\"\x7d\x7d"

def helloEvent (content : String) : Json :=
  .obj [("delta", .obj [("text", .str content)]), ("type", .str "content_block_delta")]

/-- `serde_json` on the data of `helloText` and on what a cut inside the `é` makes of it. -/
def helloFromStr (data : String) : Option Json :=
  (["é", "\uFFFD\uFFFD"].find? (fun content => data == helloData content)).map helloEvent

def helloText : List Char := ("data: " ++ helloData "é" ++ "\n").toList

def helloStream : List (Except String (List UInt8)) → List Sent :=
  anthropicStream "1" "m" 0 helloFromStr

/-- The first chunk ends right before the `é`, or behind the first of its bytes. -/
def helloCut (inside : Bool) : List (List UInt8) :=
  let pos := (helloText.idxOf 'é') + inside.toNat
  [(utf8 helloText).take pos, (utf8 helloText).drop pos]

end Oclaw.LlmCore
