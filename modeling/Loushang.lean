import Loushang.Conversation.Agreement
import Loushang.Conversation.Retries
import Loushang.Branch.Compatible
import Loushang.Branch.Repository
import Loushang.Schema.Termination
import Loushang.Facts.Selection
import Loushang.Projection.ActionTargets
import Loushang.Storage.Replace
import Loushang.AppServer.CapacityRuns
import Loushang.AppServer.Framing
import Loushang.Ai.AssemblyRuns
import Loushang.Ai.StrictRenaming
import Loushang.Workspace.EditMatches
import Loushang.Tui.EditorBuffer
import Loushang.Tui.InputPieces
import Loushang.Tui.RenderRuns
import Loushang.Tui.SegmentCache
import Loushang.AppService.AttachmentRuns
import Loushang.AppService.ExecutionRuns
import Loushang.AppService.GuardRuns
import Loushang.AppService.OperationRuns
import Loushang.AppHost.CaptureRuns
import Loushang.AppHost.EventLogRuns
import Loushang.AppHost.ServiceJournalRuns
import Loushang.Agent.QueuedInput
import Loushang.Agent.RunResults
import Loushang.Policy.GitSoundness
import Loushang.Policy.Wrappers
import Loushang.Plugins.DesiredRuns
import Loushang.Multiagent.ClosePlan
import Loushang.Transcript.CompactionRuns
import Loushang.UnitOfWork.ReplayCache
import Loushang.Query.SortOrder
import Loushang.Exec.StreamCapture
