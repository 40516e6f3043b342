import Gyre.Agent.CallRecords
import Gyre.Agent.CompactionCoverage
import Gyre.Agent.CostAgreement
import Gyre.Agent.CostLimits
import Gyre.Agent.CronInstants
import Gyre.Agent.EventCooldown
import Gyre.Agent.JobPersistence
import Gyre.Agent.JobRecovery
import Gyre.Agent.RoutineLimits
import Gyre.Agent.RoutineStorage
import Gyre.Agent.SessionInterleaving
import Gyre.Agent.Submission
import Gyre.Agent.ThreadCoherence
import Gyre.Agent.ToolCeiling
import Gyre.Agent.ToolFencing
import Gyre.Agent.ToolGate
import Gyre.Agent.ToolTranscript
import Gyre.Agent.TurnPersistence
import Gyre.Agent.UndoTimeline
import Gyre.Channels.Wasm.Emission
import Gyre.Channels.Wasm.OAuth
import Gyre.Channels.Wasm.RateLimits
import Gyre.Channels.Wasm.WebhookAuth
import Gyre.Channels.Web.LogStream
import Gyre.Channels.Web.Sse
import Gyre.Channels.Web.StreamedCompletion
import Gyre.Cognitive.CuriosityRuns
import Gyre.Cognitive.InjectionDefence
import Gyre.Cognitive.KgIdentity
import Gyre.Cognitive.LayeredRecall
import Gyre.Cognitive.Learning
import Gyre.Cognitive.Mailbox
import Gyre.Cognitive.RecallMerge
import Gyre.Cognitive.SpreadingActivation
import Gyre.Cognitive.Uocs
import Gyre.Config.MergeFrom
import Gyre.Context.Manager
import Gyre.Hooks.Chain
import Gyre.Lib.Lines
import Gyre.Lib.Ranking
import Gyre.Lib.Segments
import Gyre.Lib.Shares
import Gyre.Lib.Spread
import Gyre.Licensing.Anchoring
import Gyre.Llm.Attribution
import Gyre.Llm.BreakerAdmission
import Gyre.Llm.CacheTransparency
import Gyre.Llm.FailoverOrder
import Gyre.Llm.ToolCallRecovery
import Gyre.Orchestrator.AllowedTools
import Gyre.Orchestrator.JobLifecycle
import Gyre.Orchestrator.TokenIsolation
import Gyre.Pairing.Approvals
import Gyre.Pairing.Pending
import Gyre.Safety.EgressDecision
import Gyre.Safety.Neutralising
import Gyre.Safety.Prefilter
import Gyre.Safety.Redaction
import Gyre.Sandbox.HostPatterns
import Gyre.Secrets.Store
import Gyre.Skills.Consistency
import Gyre.Skills.ContentFences
import Gyre.Skills.Selector
import Gyre.Skills.TrustEscalation
import Gyre.Template.Archive
import Gyre.Template.AxiomImport
import Gyre.Template.AxiomPrivacy
import Gyre.Template.ExtractionSafety
import Gyre.Template.InstallContainment
import Gyre.Template.Manifest
import Gyre.Tools.Builtin.JsonQuery
import Gyre.Tools.Builtin.ReadFile
import Gyre.Tools.Builtin.ShellDenial
import Gyre.Tools.Builtin.SsrfGuards
import Gyre.Tools.Mcp.EventStream
import Gyre.Tools.Mcp.SessionUse
import Gyre.Tools.Mcp.Wire
import Gyre.Tools.ProtectedNames
import Gyre.Tools.Wasm.AllowlistVerdict
import Gyre.Tools.Wasm.CredentialInjector
import Gyre.Tools.Wasm.InjectionScan
import Gyre.Tools.Wasm.ResponseScan
import Gyre.Tools.Wasm.Secrecy
import Gyre.Workspace.ChunkCoverage
import Gyre.Workspace.ConcurrentAppends
import Gyre.Workspace.Paths
import Gyre.Workspace.Search
