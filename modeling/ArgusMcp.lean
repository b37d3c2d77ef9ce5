import ArgusMcp.Bridge.Priority
import ArgusMcp.Workflows.Schedule
import ArgusMcp.Plugins.Conditions
import ArgusMcp.Plugins.ToolBreaker
import ArgusMcp.Plugins.ResponseCache
import ArgusMcp.Server.Transport
import ArgusMcp.Plugins.Refinement
import ArgusMcp.Bridge.PoolConservation
import ArgusMcp.Bridge.Visibility
import ArgusMcp.Config.Watcher
import ArgusMcp.Config.Diff
import ArgusMcp.Runtime.Reload
import ArgusMcp.Bridge.Resources
import ArgusMcp.Bridge.StartupOutcome
import ArgusMcp.Runtime.Lifecycle
import ArgusMcp.Server.Optimizer
import ArgusMcp.Bridge.TokenExpiry
import ArgusMcp.Bridge.TokenRejection
import ArgusMcp.Bridge.TokenFetch
import ArgusMcp.Bridge.PkceFlow
import ArgusMcp.Server.RateWindow
import ArgusMcp.Server.AuthLockout
import ArgusMcp.Bridge.DockerfileSafety
import ArgusMcp.Runtime.StdioWrapper
import ArgusMcp.Runtime.WrapperShutdown
import ArgusMcp.Plugins.UnifiedPdp
import ArgusMcp.Config.Catalog
import ArgusMcp.Config.RoundTrip
import ArgusMcp.Argusd.Scope
import ArgusMcp.Workflows.SinglePass
import ArgusMcp.Plugins.RateLimiter
import ArgusMcp.Server.PayloadLimits
import ArgusMcp.Bridge.TokenResolution
import ArgusMcp.Server.ForwardedFor
import ArgusMcp.Plugins.SecretsStopped
import ArgusMcp.Bridge.AuthDiscovery
import ArgusMcp.Config.SecretProviders
import ArgusMcp.Bridge.DiscoveryReach
import ArgusMcp.Bridge.ClientRegistration
import ArgusMcp.Config.YamlParsers
import ArgusMcp.Server.OidcProvider
import ArgusMcp.Bridge.GoAdapter
import ArgusMcp.Config.ExportSecrets
import ArgusMcp.Argusd.Stats
import ArgusMcp.Argusd.EventStream
import ArgusMcp.Bridge.RuntimeFactory
import ArgusMcp.Bridge.UvxArgs
import ArgusMcp.Bridge.Subprocess
import ArgusMcp.Bridge.AdapterCalls
import ArgusMcp.Argusd.PodLogs
import ArgusMcp.Audit.Serializers
import ArgusMcp.Bridge.FilterSwap
import ArgusMcp.Bridge.Retry
import ArgusMcp.Plugins.ClamAv
import ArgusMcp.Registry.Client
import ArgusMcp.Plugins.VirusTotal
import ArgusMcp.Bridge.Reindex
import ArgusMcp.Server.SessionExpiry
import ArgusMcp.Runtime.Skills
import ArgusMcp.Runtime.SkillConfinement
import ArgusMcp.Server.EventStream
import ArgusMcp.Runtime.EventPolling
import ArgusMcp.Bridge.Elicitation
