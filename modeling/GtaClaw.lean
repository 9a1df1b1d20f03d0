import GtaClaw.Discovery.Codec
import GtaClaw.Channel.ClusterSafety
import GtaClaw.Channel.FenceBalance
import GtaClaw.Mcp.Recovery
import GtaClaw.Gateway.Concurrent
import GtaClaw.Runtime.Stream
import GtaClaw.Runtime.Quiesce
import GtaClaw.Worker.Fencing
import GtaClaw.Runtime.WorkerFence
import GtaClaw.Approval.Settle
import GtaClaw.Goal.OneActive
import GtaClaw.Goal.CrashSafe
import GtaClaw.Secret.Atomic
import GtaClaw.Pairing.Durable
import GtaClaw.Gateway.NodeQueues
import GtaClaw.Watch.Delivery
import GtaClaw.Provider.CircuitRuns
import GtaClaw.Provider.SseLimits
import GtaClaw.Tools.SandboxListing
import GtaClaw.Tools.PatchRoundTrip
import GtaClaw.Tools.PatchExact
import GtaClaw.Tools.UrlPolicy
import GtaClaw.Tools.Exec
import GtaClaw.Tools.ProcessTree
import GtaClaw.Memory.Context
import GtaClaw.Plugin.Http
import GtaClaw.Runtime.Shutdown
import GtaClaw.Runtime.TurnIds
import GtaClaw.Discovery.Presentation
import GtaClaw.Application.Turns
import GtaClaw.Application.Egress
import GtaClaw.Migrate.Digest
import GtaClaw.Updater.Recovery
import GtaClaw.Config.Hub
import GtaClaw.Discovery.Bounds
