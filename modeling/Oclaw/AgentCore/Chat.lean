import Oclaw.Lib.Pairing

/-!
# Chat messages

The messages of `crates/llm-core/src/chat.rs`, and when a conversation is paired:
a provider accepts a history only if every assistant message is followed at once
by the results of exactly the tool calls it carries, in order.
-/

namespace Oclaw.AgentCore

open Oclaw.Lib

inductive MessageRole : Type where
  | system
  | user
  | assistant
  | tool
deriving DecidableEq

structure ToolCallFunction : Type where
  name : String
  arguments : String
deriving DecidableEq

structure ToolCall : Type where
  id : String
  type_ : String
  function : ToolCallFunction
deriving DecidableEq

structure ChatMessage : Type where
  role : MessageRole
  content : String
  name : Option String
  toolCalls : Option (List ToolCall)
  toolCallId : Option String
deriving DecidableEq

namespace ChatMessage

def isTool (m : ChatMessage) : Bool := m.role == .tool

/-- The tool calls of an assistant message. Other roles issue no calls. -/
def calls (m : ChatMessage) : List ToolCall :=
  if m.role = .assistant then m.toolCalls.getD [] else []

def callIds (m : ChatMessage) : List String := m.calls.map ToolCall.id

/-- What pairing looks at: everything but the text and the display name. -/
def shape (m : ChatMessage) : MessageRole × Option (List ToolCall) × Option String :=
  (m.role, m.toolCalls, m.toolCallId)

theorem isTool_iff {m : ChatMessage} : m.isTool = true ↔ m.role = .tool := beq_iff_eq

theorem isTool_eq_false_iff {m : ChatMessage} : m.isTool = false ↔ m.role ≠ .tool :=
  beq_eq_false_iff_ne

theorem callIds_of_assistant {m : ChatMessage} (h : m.role = .assistant) :
    m.callIds = (m.toolCalls.getD []).map ToolCall.id := by
  rw [callIds, calls, if_pos h]

theorem callIds_of_not_assistant {m : ChatMessage} (h : m.role ≠ .assistant) :
    m.callIds = [] := by
  simp [callIds, calls, h]

theorem assistant_of_mem_callIds {m : ChatMessage} {id : String} (h : id ∈ m.callIds) :
    m.role = .assistant := by
  by_contra hrole
  rw [callIds_of_not_assistant hrole] at h
  cases h

theorem calls_of_tool {m : ChatMessage} (h : m.isTool = true) : m.calls = [] := by
  simp [calls, isTool_iff.mp h]

theorem callIds_of_tool {m : ChatMessage} (h : m.isTool = true) : m.callIds = [] := by
  rw [callIds, calls_of_tool h, List.map_nil]

end ChatMessage

/-- Tool results answer the tool calls of assistant messages, by id. -/
def toolPairing : Pairing ChatMessage String where
  isAnswer := ChatMessage.isTool
  key := ChatMessage.toolCallId
  opens := ChatMessage.callIds

/-- Every assistant message is followed by exactly the results of its calls, and
there are no other tool messages. -/
abbrev Paired (ms : List ChatMessage) : Prop := toolPairing.Paired ms

/-- The messages that are not tool results. -/
abbrev nonTool (ms : List ChatMessage) : List ChatMessage := toolPairing.entries ms

/-- The ids of all tool calls of a conversation, in order. -/
def allCallIds (ms : List ChatMessage) : List String := ms.flatMap ChatMessage.callIds

theorem allCallIds_append (xs ys : List ChatMessage) :
    allCallIds (xs ++ ys) = allCallIds xs ++ allCallIds ys := by
  simp [allCallIds]

theorem allCallIds_cons (m : ChatMessage) (ms : List ChatMessage) :
    allCallIds (m :: ms) = m.callIds ++ allCallIds ms := by
  simp [allCallIds]

theorem allCallIds_nonTool (ms : List ChatMessage) : allCallIds (nonTool ms) = allCallIds ms := by
  induction ms with
  | nil => rfl
  | cons m ms ih =>
      cases htool : m.isTool with
      | false => simpa [allCallIds, nonTool, Pairing.entries, toolPairing, htool] using ih
      | true =>
          have hcalls : m.callIds = [] := ChatMessage.callIds_of_tool htool
          simpa [allCallIds, nonTool, Pairing.entries, toolPairing, htool, hcalls] using ih

/-- A tool result as the agent writes it. -/
def toolResult (tc : ToolCall) (content : String) : ChatMessage where
  role := .tool
  content := content
  name := some tc.function.name
  toolCalls := none
  toolCallId := some tc.id

/-- A message of the given role that carries only a text. -/
def plainMessage (role : MessageRole) (content : String) : ChatMessage where
  role := role
  content := content
  name := none
  toolCalls := none
  toolCallId := none

/-- An assistant message as the agent records it. -/
def assistantMessage (content : String) (toolCalls : Option (List ToolCall)) : ChatMessage where
  role := .assistant
  content := content
  name := none
  toolCalls := toolCalls
  toolCallId := none

end Oclaw.AgentCore
