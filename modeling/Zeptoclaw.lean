import Zeptoclaw.Lib.Support
import Zeptoclaw.Spec.Repair
import Zeptoclaw.Proof.SessionKey
import Zeptoclaw.Proof.Repair
import Zeptoclaw.Proof.RepairFix
import Zeptoclaw.Proof.Compaction
import Zeptoclaw.Lib.Behind
import Zeptoclaw.Proof.Shrink
import Zeptoclaw.Proof.Recovery
import Zeptoclaw.Spec.Preflight
import Zeptoclaw.Lib.FileTree
import Zeptoclaw.Spec.Error
import Zeptoclaw.Spec.Workspace
import Zeptoclaw.Proof.Workspace
import Zeptoclaw.Lib.Run
import Zeptoclaw.Spec.Http
import Zeptoclaw.Proof.Http
import Zeptoclaw.Proof.Limits
import Zeptoclaw.Lib.Utf8
import Zeptoclaw.Lib.Lines
import Zeptoclaw.Spec.Stream
import Zeptoclaw.Spec.Claude
import Zeptoclaw.Proof.Claude
import Zeptoclaw.Spec.OpenAi
import Zeptoclaw.Proof.Stream
import Zeptoclaw.Spec.Cache
import Zeptoclaw.Proof.Cache
import Zeptoclaw.Proof.CacheContents
import Zeptoclaw.Spec.Turn
import Zeptoclaw.Proof.Turn
import Zeptoclaw.Spec.Bus
import Zeptoclaw.Spec.Queue
import Zeptoclaw.Proof.Queue
import Zeptoclaw.Spec.Limits
import Zeptoclaw.Spec.Gate
import Zeptoclaw.Spec.ToolLoop
import Zeptoclaw.Proof.ToolLoop
import Zeptoclaw.Lib.Shell
import Zeptoclaw.Proof.CustomTool
import Zeptoclaw.Spec.ShellGuard
import Zeptoclaw.Proof.ShellGuard
import Zeptoclaw.Proof.Transcript
import Zeptoclaw.Proof.SessionStore
import Zeptoclaw.Lib.Assoc
import Zeptoclaw.Spec.Memory
import Zeptoclaw.Proof.Memory
import Zeptoclaw.Proof.Broker
import Zeptoclaw.Proof.StartupGuard
import Zeptoclaw.Proof.Taint
import Zeptoclaw.Proof.Kernel
import Zeptoclaw.Lib.Regex
import Zeptoclaw.Proof.Leak
import Zeptoclaw.Lib.Base64
import Zeptoclaw.Lib.Offset
import Zeptoclaw.Spec.Encryption
import Zeptoclaw.Proof.Encryption
import Zeptoclaw.Spec.Pairing
import Zeptoclaw.Proof.Pairing
import Zeptoclaw.Proof.Lockout
import Zeptoclaw.Lib.TextLines
import Zeptoclaw.Spec.Diff
import Zeptoclaw.Proof.Diff
import Zeptoclaw.Proof.DiffRender
import Zeptoclaw.Lib.Occurrence
import Zeptoclaw.Spec.Edit
import Zeptoclaw.Proof.Edit
import Zeptoclaw.Proof.EditNormalize
import Zeptoclaw.Proof.EditMarks
import Zeptoclaw.Proof.EditWalk
import Zeptoclaw.Proof.EditRange
import Zeptoclaw.Proof.EditSelect
import Zeptoclaw.Spec.Cron
import Zeptoclaw.Spec.CronRun
import Zeptoclaw.Proof.Cron
import Zeptoclaw.Proof.CronTick
import Zeptoclaw.Proof.CronFile
import Zeptoclaw.Proof.CronCrash
import Zeptoclaw.Lib.History
import Zeptoclaw.Spec.Recent
import Zeptoclaw.Proof.RateLimit
import Zeptoclaw.Proof.Dedup
import Zeptoclaw.Proof.Idempotency
import Zeptoclaw.Spec.Audit
import Zeptoclaw.Proof.Audit
import Zeptoclaw.Spec.Cooldown
import Zeptoclaw.Proof.Cooldown
import Zeptoclaw.Spec.Fallback
import Zeptoclaw.Proof.Fallback
import Zeptoclaw.Spec.Rotation
import Zeptoclaw.Proof.Rotation
import Zeptoclaw.Spec.Quota
import Zeptoclaw.Proof.Quota
import Zeptoclaw.Lib.Literal
import Zeptoclaw.Spec.Ipc
import Zeptoclaw.Proof.Ipc
import Zeptoclaw.Lib.Tally
import Zeptoclaw.Spec.LoopGuard
import Zeptoclaw.Proof.LoopGuard
import Zeptoclaw.Spec.ThreadApproval
import Zeptoclaw.Proof.ThreadApproval
import Zeptoclaw.Proof.MemoryWrite
import Zeptoclaw.Spec.AcpProtocol
import Zeptoclaw.Spec.Acp
import Zeptoclaw.Proof.AcpPrompt
import Zeptoclaw.Proof.Acp
import Zeptoclaw.Spec.AcpHttp
import Zeptoclaw.Proof.AcpHttp
import Zeptoclaw.Proof.AcpRouting
import Zeptoclaw.Proof.AcpIntercept
import Zeptoclaw.Spec.Reminder
import Zeptoclaw.Proof.Reminder
import Zeptoclaw.Proof.Preflight
import Zeptoclaw.Proof.SyncTrimmed
import Zeptoclaw.Proof.RepairMerge
import Zeptoclaw.Lib.Pattern
import Zeptoclaw.Spec.Telegram
import Zeptoclaw.Proof.PingPong
import Zeptoclaw.Proof.CircuitBreaker
import Zeptoclaw.Proof.CallBatch
import Zeptoclaw.Proof.TelegramTags
import Zeptoclaw.Proof.TelegramMarkup
import Zeptoclaw.Proof.Telegram
import Zeptoclaw.Lib.Options
import Zeptoclaw.Lib.Chain
import Zeptoclaw.Lib.Attempts
import Zeptoclaw.Proof.GitOptions
import Zeptoclaw.Proof.ShellSegments
import Zeptoclaw.Spec.ShellIndex
import Zeptoclaw.Proof.ShellIndex
import Zeptoclaw.Proof.CrashCount
import Zeptoclaw.Proof.CacheRestore
import Zeptoclaw.Spec.LlmError
import Zeptoclaw.Spec.Retry
import Zeptoclaw.Proof.Retry
import Zeptoclaw.Lib.Fields
import Zeptoclaw.Spec.Mount
import Zeptoclaw.Proof.Mount
import Zeptoclaw.Lib.Marking
import Zeptoclaw.Lib.Outline
import Zeptoclaw.Spec.Sanitizer
import Zeptoclaw.Proof.Sanitizer
import Zeptoclaw.Spec.Safety
import Zeptoclaw.Proof.Safety
import Zeptoclaw.Lib.Windows
import Zeptoclaw.Lib.Substitution
import Zeptoclaw.Spec.ToolResult
import Zeptoclaw.Proof.ToolResult
import Zeptoclaw.Proof.DiffLines
import Zeptoclaw.Proof.CronSearch
import Zeptoclaw.Spec.MemorySearch
import Zeptoclaw.Proof.MemorySearch
import Zeptoclaw.Spec.CustomTool
import Zeptoclaw.Spec.A2ui
import Zeptoclaw.Proof.A2ui
import Zeptoclaw.Proof.ClaudePairing
import Zeptoclaw.Proof.OpenAiCalls
import Zeptoclaw.Proof.Transition
import Zeptoclaw.Proof.TelegramChunks
import Zeptoclaw.Proof.TelegramEscape
import Zeptoclaw.Proof.TelegramRoom
import Zeptoclaw.Spec.AcpRequest
import Zeptoclaw.Proof.AcpRequest
import Zeptoclaw.Spec.Skills
import Zeptoclaw.Proof.Skills
import Zeptoclaw.Proof.Backoff
import Zeptoclaw.Spec.ChannelManager
import Zeptoclaw.Proof.ChannelManager
import Zeptoclaw.Proof.Dispatcher
import Zeptoclaw.Spec.Mcp
import Zeptoclaw.Proof.Mcp
import Zeptoclaw.Proof.McpFrame
import Zeptoclaw.Lib.ReplacedFile
import Zeptoclaw.Spec.Kanban
import Zeptoclaw.Proof.Kanban
import Zeptoclaw.Lib.EditDistance
import Zeptoclaw.Spec.Suggest
import Zeptoclaw.Proof.Suggest
import Zeptoclaw.Spec.Webhook
import Zeptoclaw.Proof.Webhook
import Zeptoclaw.Spec.ChainAlert
import Zeptoclaw.Proof.ChainAlert
import Zeptoclaw.Proof.Android
import Zeptoclaw.Spec.ModelSwitch
import Zeptoclaw.Proof.ModelSwitch
import Zeptoclaw.Proof.MemorySnapshot
import Zeptoclaw.Spec.Delegate
import Zeptoclaw.Proof.Delegate
