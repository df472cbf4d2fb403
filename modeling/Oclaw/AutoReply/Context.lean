import Oclaw.Lib.Text

/-!
# Message contexts of the auto-reply pipeline

`crates/auto-reply/src/context.rs`: the raw context a channel webhook builds and
its finalized form. The JSON value `raw` only ever carries the metadata map of
the inbound message, so it is that map here.
-/

namespace Oclaw.AutoReply

open Oclaw.Lib

/-- String metadata of an inbound message, a `HashMap<String, String>`. -/
abbrev Metadata : Type := List (String × String)

def Metadata.get (md : Metadata) (key : String) : Option String := md.lookup key

inductive ChatType : Type where
  | direct
  | group
  | channel
  | thread
deriving DecidableEq

structure MsgContext : Type where
  body : String
  rawBody : Option String
  from_ : String
  fromName : Option String
  to_ : String
  provider : String
  surface : Option String
  chatType : ChatType
  sessionKey : String
  messageId : Option String
  threadId : Option String
  wasMentioned : Bool
  mediaPaths : List String
  timestampMs : ℕ
  raw : Metadata
deriving DecidableEq

structure FinalizedMsgContext : Type where
  ctx : MsgContext
  bodyForAgent : String
  bodyForCommands : String
  conversationLabel : String
  commandAuthorized : Bool
  senderLabel : String
deriving DecidableEq

/-- Normalize an inbound context: CRLF becomes LF in the body for the agent,
commands see the raw body, and only direct chats are authorized for commands. -/
def finalizeInboundContext (ctx : MsgContext) : FinalizedMsgContext :=
  let bodyNormalized := replace ctx.body "\r\n" "\n"
  let senderLabel := ctx.fromName.getD ctx.from_
  let conversationLabel :=
    match ctx.chatType with
    | .direct => "DM with " ++ senderLabel
    | .group | .channel => "Group " ++ ctx.to_ ++ " (" ++ senderLabel ++ ")"
    | .thread =>
        "Thread " ++ ctx.threadId.getD ctx.to_ ++ " (" ++ senderLabel ++ ")"
  { ctx := ctx
    bodyForAgent := bodyNormalized
    bodyForCommands := ctx.rawBody.getD bodyNormalized
    conversationLabel := conversationLabel
    commandAuthorized := decide (ctx.chatType = .direct)
    senderLabel := senderLabel }

end Oclaw.AutoReply
