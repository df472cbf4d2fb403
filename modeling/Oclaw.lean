import Oclaw.Lib.Transition
import Oclaw.Lib.Text
import Oclaw.AutoReply.Context
import Oclaw.AutoReply.Queue
import Oclaw.Gateway.SessionKey
import Oclaw.Gateway.Turn
import Oclaw.Gateway.Pipeline
import Oclaw.Gateway.ActiveRun
import Oclaw.Gateway.ReplyRouting
import Oclaw.Gateway.DeliveryOrder
import Oclaw.Gateway.CollectWindow
import Oclaw.AgentCore.Chat
import Oclaw.AgentCore.TranscriptRepair
import Oclaw.AgentCore.LoopDetect
import Oclaw.ToolsCore.Approval
import Oclaw.AgentCore.ContextBudget
import Oclaw.AgentCore.Transcript
import Oclaw.AgentCore.Agent
import Oclaw.AgentCore.AgentSteps
import Oclaw.AgentCore.ToolPairing
import Oclaw.AgentCore.Replay
import Oclaw.AgentCore.TaskGraph
import Oclaw.AgentCore.TaskRunner
import Oclaw.AgentCore.TaskFlow
import Oclaw.AgentCore.TaskInputs
import Oclaw.AgentCore.Subagent
import Oclaw.AgentCore.TaskBranches
import Oclaw.CronCore.Retry
import Oclaw.CronCore.Scheduler
import Oclaw.Gateway.SessionIsolation
import Oclaw.Gateway.Evolution
import Oclaw.Gateway.MessageHandler
import Oclaw.Gateway.SessionStore
import Oclaw.Lib.Utf8
import Oclaw.LlmCore.Sse
import Oclaw.AgentCore.Approvals
import Oclaw.Lib.HashMap
import Oclaw.Lib.IpAddr
import Oclaw.Lib.RwLock
import Oclaw.MemoryCore.Chunks
import Oclaw.MemoryCore.Manager
import Oclaw.PluginCore.Registry
import Oclaw.SecurityCore.Deadlock
import Oclaw.SecurityCore.DeviceTokens
import Oclaw.SecurityCore.UserSessions
import Oclaw.ToolsCore.Policy
import Oclaw.ToolsCore.UrlGuard
import Oclaw.Gateway.TelegramWebhook
import Oclaw.Lib.FileTree
import Oclaw.Lib.TreeWalk
import Oclaw.ToolsCore.Workspace
import Oclaw.AgentCore.Compaction
import Oclaw.AgentCore.HistoryLimit
import Oclaw.AgentCore.RepairReport
import Oclaw.AgentCore.TaskValidate
import Oclaw.AgentCore.Truncation
import Oclaw.AutoReply.Overflow
import Oclaw.Lib.Memo
import Oclaw.MediaUnderstanding.Cache
import Oclaw.MediaUnderstanding.Pipeline
import Oclaw.MediaUnderstanding.Transparency
import Oclaw.AgentCore.ChunkerFences
import Oclaw.AgentCore.ChunkerRounds
import Oclaw.AgentCore.ChunkerText
import Oclaw.AgentCore.KeyRotator
import Oclaw.AgentCore.LoopRuns
import Oclaw.AgentCore.ModelFallback
import Oclaw.CronCore.Trigger
import Oclaw.CronCore.ExecuteJob
import Oclaw.CronCore.Interval
import Oclaw.Gateway.Bindings
import Oclaw.Gateway.RateLimit
import Oclaw.Lib.Solo
import Oclaw.LlmCore.MediaMarkdown
import Oclaw.Pairing.Store
import Oclaw.SecurityCore.PairingLife
import Oclaw.ToolsCore.BashEnv
import Oclaw.ToolsCore.PolicyMerge
import Oclaw.AutoReply.BlockPipeline
import Oclaw.AutoReply.Normalize
import Oclaw.Lib.Greedy
import Oclaw.Lib.MaximalRuns
import Oclaw.Lib.Recency
import Oclaw.MemoryCore.Coverage
import Oclaw.MemoryCore.EmbeddingCache
import Oclaw.MemoryCore.FtsQuery
import Oclaw.MemoryCore.Indexing
import Oclaw.MemoryCore.Keywords
import Oclaw.MemoryCore.Mmr
import Oclaw.ToolsCore.ResultCut
import Oclaw.AutoReply.Debounce
import Oclaw.Config.Migration
import Oclaw.Gateway.HeartbeatRunner
import Oclaw.Lib.Marked
import Oclaw.MediaUnderstanding.Fallback
import Oclaw.PluginCore.Hooks
import Oclaw.PluginCore.Lifecycle
import Oclaw.ToolsCore.HtmlStrip
import Oclaw.ToolsCore.SearchBlocks
import Oclaw.Gateway.AnnounceDrain
import Oclaw.Gateway.AnnounceFlow
import Oclaw.Gateway.AnnounceOnce
import Oclaw.Gateway.AnnounceRounds
import Oclaw.Gateway.RpcAgent
import Oclaw.Gateway.RpcAgentKeys
import Oclaw.Gateway.RpcChat
import Oclaw.Gateway.RpcChatWindow
import Oclaw.Gateway.RpcSendOnce
import Oclaw.Gateway.SubagentCleanup
import Oclaw.Gateway.SubagentHistories
import Oclaw.Gateway.SubagentOrphans
import Oclaw.BrowserCore.Connection
import Oclaw.BrowserCore.Unserved
import Oclaw.Gateway.HeartbeatLoop
import Oclaw.Gateway.HeartbeatServed
import Oclaw.Gateway.SessionAccess
import Oclaw.Gateway.SessionMetadata
import Oclaw.Gateway.SpawnAccess
import Oclaw.Gateway.NodeConnected
import Oclaw.Gateway.NodeInvoke
import Oclaw.Gateway.ExecApprovals
