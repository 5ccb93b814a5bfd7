import AristoteDispatcher.Lib.Runs
import AristoteDispatcher.Lib.Logged
import AristoteDispatcher.Lib.Places
import AristoteDispatcher.Lib.PyDict
import AristoteDispatcher.Lib.Regex
import AristoteDispatcher.Lib.Window
import AristoteDispatcher.Lib.Http
import AristoteDispatcher.Lib.Rotation
import AristoteDispatcher.Lib.JsonDumps
import AristoteDispatcher.Lib.Exposition
import AristoteDispatcher.Settings
import AristoteDispatcher.Fields
import AristoteDispatcher.Histogram
import AristoteDispatcher.MetricsTracker
import AristoteDispatcher.SlidingWindow
import AristoteDispatcher.Strategy
import AristoteDispatcher.WindowCounts
import AristoteDispatcher.HistogramText
import AristoteDispatcher.HistogramParse
import AristoteDispatcher.Messages
import AristoteDispatcher.Policies
import AristoteDispatcher.RpcServer
import AristoteDispatcher.StrategyInvariant
import AristoteDispatcher.ConsumerInvariant
import AristoteDispatcher.Duplicates
import AristoteDispatcher.Settlement
import AristoteDispatcher.AcceptedServers
import AristoteDispatcher.DeclaredTypes
import AristoteDispatcher.ParallelLimit
import AristoteDispatcher.Completions
import AristoteDispatcher.Slots
import AristoteDispatcher.Cluster
import AristoteDispatcher.Broker
import AristoteDispatcher.Deliveries
import AristoteDispatcher.Candidates
import AristoteDispatcher.HealthyServers
import AristoteDispatcher.Ownership
import AristoteDispatcher.Copies
import AristoteDispatcher.PrivateRouting
import AristoteDispatcher.LiveCopies
import AristoteDispatcher.RpcClient
import AristoteDispatcher.ClientInvariant
import AristoteDispatcher.PendingCalls
import AristoteDispatcher.ReplyHandler
import AristoteDispatcher.Replies
import AristoteDispatcher.Queues
import AristoteDispatcher.Subscriptions
import AristoteDispatcher.QueueNames
import AristoteDispatcher.Clock
import AristoteDispatcher.Deadlines
import AristoteDispatcher.Proxy
import AristoteDispatcher.SenderInvariant
import AristoteDispatcher.GivenBack
import AristoteDispatcher.Forwarded
import AristoteDispatcher.SelectionPaths
import AristoteDispatcher.PolicyContract
import AristoteDispatcher.Fairness
import AristoteDispatcher.Timers
import AristoteDispatcher.Monitoring
import AristoteDispatcher.Selection
import AristoteDispatcher.Lib.PyText
import AristoteDispatcher.Lib.JsonBytes
import AristoteDispatcher.Middleware
import AristoteDispatcher.Rights
import AristoteDispatcher.Validation
import AristoteDispatcher.Priorities
import AristoteDispatcher.Lib.JsonAlike
import AristoteDispatcher.Usage
import AristoteDispatcher.Lib.SortedScan
import AristoteDispatcher.Percentile
import AristoteDispatcher.UsageRows
import AristoteDispatcher.Thresholds
import AristoteDispatcher.ModelList
import AristoteDispatcher.Startup
import AristoteDispatcher.Users
import AristoteDispatcher.Lib.Sql
import AristoteDispatcher.Lib.Alembic
import AristoteDispatcher.Migrations
import AristoteDispatcher.Tables
import AristoteDispatcher.Rollback
import AristoteDispatcher.Lib.JsonText
import AristoteDispatcher.Lib.JsonValid
import AristoteDispatcher.Transparency
import AristoteDispatcher.Lib.Traverse
import AristoteDispatcher.Lib.Url
import AristoteDispatcher.ServerSettings
import AristoteDispatcher.Lib.Simulation
import AristoteDispatcher.Lib.Leases
import AristoteDispatcher.Lib.Draining
import AristoteDispatcher.SlotLeases
import AristoteDispatcher.Tended
import AristoteDispatcher.Draining
import AristoteDispatcher.Pacing
import AristoteDispatcher.ModelCache
import AristoteDispatcher.Lifecycle
import AristoteDispatcher.Shutdown
import AristoteDispatcher.WireFormat
import AristoteDispatcher.Grants
import AristoteDispatcher.Audit
import AristoteDispatcher.Recovery
import AristoteDispatcher.Directory
import AristoteDispatcher.Deployment
import AristoteDispatcher.Downgrades
import AristoteDispatcher.Acked
import AristoteDispatcher.LeastLatency
