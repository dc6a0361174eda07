import Echadron.Agent.ProjectStrict
import Echadron.Agent.ContextSize
import Echadron.Agent.InjectorPositions
import Echadron.Agent.ContextRehydrate
import Echadron.Agent.CompactionShrink
import Echadron.Agent.CompactionSelection
import Echadron.Agent.ToolScheduler
import Echadron.Agent.ToolDedupe
import Echadron.Agent.PromptService
import Echadron.Agent.TranscriptLength
import Echadron.Agent.FoldExchanges
import Echadron.Agent.ToolCallIds
import Echadron.Agent.CarriedRequests
import Echadron.MiniDb.WalRecovery
import Echadron.MiniDb.Snapshot
import Echadron.MiniDb.FrameParser
import Echadron.MiniDb.SkipListScan
import Echadron.Server.TranscriptFanout
import Echadron.Server.SessionEventJournal
import Echadron.Transcript.Convergence
import Echadron.Persistence.AppendLog
import Echadron.Persistence.StoreFlush
import Echadron.Persistence.CrashRuns
import Echadron.Session.InteractionService
import Echadron.Session.BatchConcurrency
import Echadron.Session.CronRuns
import Echadron.Task.TaskRuns
import Echadron.Task.NotificationRuns
import Echadron.Tsugite.SentTurns
import Echadron.Tsugite.ToolCallIdPolicies
import Echadron.Tsugite.ResponseAssembly
import Echadron.Tsugite.StreamedMessage
import Echadron.Tool.LiteralRules
import Echadron.Tool.FileEdit
import Echadron.Wire.RestoreAgain
import Echadron.Session.LifecycleRuns
import Echadron.OAuth.RefreshRuns
import Echadron.MiniDb.LockFile
import Echadron.MiniDb.UniqueRun
import Echadron.Web.SeededSteps
import Echadron.Config.ConfigRuns
import Echadron.Agent.ToolExecutorResults
import Echadron.Base.LifecycleRuns
import Echadron.Session.SessionMetadata
import Echadron.Base.LedgerTree
import Echadron.Base.RotatingFileWriterRuns
import Echadron.OAuth.TokenTransactionRuns
import Echadron.Web.MessageMirrorRuns
import Echadron.Session.FileReadWindows
import Echadron.Wire.Record
import Echadron.Transcript.ReceivedText
import Echadron.Transcript.Paginate
import Echadron.Transcript.TurnHeal
import Echadron.Session.GrepAgreement
import Echadron.MiniDb.TextIndex
import Echadron.Agent.ByteLruCache
