import Kross.Mutation.JournalCrash
import Kross.Mutation.Concurrent
import Kross.Mutation.CoordinatorRun
import Kross.Worker.JournalReplay
import Kross.Web.CommandQueue
import Kross.Web.DeliveryComplete
import Kross.Server.Reconnection
import Kross.Service.Redelivery
import Kross.Verification.RunnerSound
import Kross.Runtime.ResumedRun
import Kross.Runtime.SubagentSound
import Kross.Server.GatewayLifecycle
import Kross.Runtime.Delegation
import Kross.Worker.JournalIsolation
import Kross.Context.ThreadRestore
import Kross.Context.SavedThread
import Kross.Context.SavedOperations
import Kross.Context.SavedRestore
import Kross.Context.RestoreAtomic
import Kross.Runtime.ConductorComplete
import Kross.Tools.Sandbox
import Kross.Mcp.ReloadSound
import Kross.Persistence.MigrationRun
import Kross.Persistence.MigrationComplete
import Kross.Mutation.BlobStore
import Kross.Mutation.SnapshotModes
import Kross.Mutation.SnapshotRoundTrip
import Kross.Occurrence
import Kross.Lines
import Kross.Tools.ApplyPatch
import Kross.Finding
import Kross.RegexRuns
import Kross.Tools.Edit
import Kross.Tools.EditLiteral
import Kross.Contiguous
import Kross.Context.Selection
import Kross.Context.CompactionText
import Kross.Context.ThreadOrder
import Kross.Context.CompactionKeeps
import Kross.Context.RecentKept
import Kross.Tools.CallAttempts
import Kross.LabelledRuns
import Kross.Worker.StreamSegments
import Kross.Worker.StreamPersisted
import Kross.Outstanding
import Kross.Mcp.JsonRpc
import Kross.Mcp.JsonRpcStdio
import Kross.Mcp.StreamableHttp
import Kross.Mcp.RequestsAnswered
import Kross.AsyncGenerator
import Kross.Runtime.AbortableIterable
import Kross.CommandLine
import Kross.Tools.Git
import Kross.Llm.OpenAiProtocol
import Kross.Llm.OpenAiStream
import Kross.Llm.AnthropicProtocol
import Kross.Llm.AnthropicStream
import Kross.Llm.StreamedComplete
import Kross.Wildcard
import Kross.Tools.Glob
import Kross.Tools.GlobGrammar
import Kross.Utf8
import Kross.Utf8Strict
import Kross.Framing
import Kross.Mcp.StdioFraming
import Kross.EventStream
import Kross.Llm.Sse
import Kross.Mcp.ConsumeSse
import Kross.Web.StreamChunks
import Kross.Web.StreamCuts
import Kross.Process.OutputPolls
import Kross.CommonSubsequence
import Kross.Tools.DiffPreview
import Kross.Tools.DiffContext
import Kross.Server.ContainerOrchestrator
import Kross.Server.CreateTidy
import Kross.Web.CloudState
import Kross.Web.SnapshotMessages
import Kross.Coalescing
import Kross.Web.DeltaCoalescing
import Kross.Workspace.ProjectInstructions
import Kross.SoftWrap
import Kross.Tui.DisplayWidth
import Kross.Tui.MarkdownParse
import Kross.Tui.ToolDisplay
import Kross.Tui.MessagePaint
import Kross.Tui.PaintCalls
import Kross.Tui.RowsFit
import Kross.Tui.TableRows
import Kross.RowLayout
import Kross.Tui.PaintKeys
import Kross.Tui.ViewportHits
import Kross.Tui.CacheRuns
import Kross.Tui.TextSelection
import Kross.Tui.MouseTracking
import Kross.Tui.FrameOutput
import Kross.Workspace.InstructionLimits
import Kross.Config.ConfigUpdates
import Kross.Runtime.BatchSequential
import Kross.Runtime.TurnPairing
