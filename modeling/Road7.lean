import Road7.Text
import Road7.UriGrammar
import Road7.Http
import Road7.Build
import Road7.Runs
import Road7.Time
import Road7.CircuitBreaker
import Road7.BreakerHistory
import Road7.BreakerProtocol
import Road7.OpenPeriod
import Road7.HalfOpenPeriod
import Road7.Config
import Road7.Validate
import Road7.Auth
import Road7.BotDetector
import Road7.RateLimiter
import Road7.RateBucket
import Road7.LoadBalancer
import Road7.RetryStrategy
import Road7.CacheStore
import Road7.CacheHistory
import Road7.CacheSweep
import Road7.CacheEntries
import Road7.CacheKey
import Road7.RwLock
import Road7.GetLock
import Road7.Transform
import Road7.SecurityHeaders
import Road7.FindTarget
import Road7.RebuildRequest
import Road7.Crates
import Road7.CachedResponse
import Road7.RetryLoop
import Road7.RetryTurn
import Road7.RetryBound
import Road7.Exchange
import Road7.HttpUri
import Road7.UpstreamAuthority
import Road7.Progress
import Road7.ProxyRequest
import Road7.RequestStages
import Road7.Arrival
import Road7.PlainProxy
import Road7.ForwardedBody
import Road7.AuthGate
import Road7.BalancerPicks
import Road7.TargetRouting
import Road7.BreakerClients
import Road7.BreakerSlots
import Road7.CacheClients
import Road7.CacheReplies
import Road7.CacheHits
import Road7.CorsReplay
import Road7.ReadThrough
import Road7.LoopReads
import Road7.SharedClients
import Road7.UserSeparation
import Road7.ForwardedHeaders
import Road7.FirstMatch
import Road7.TargetChoice
import Road7.LimiterChoice
import Road7.PathWalk
import Road7.StaticFiles
import Road7.BreakerTable
import Road7.Rotation
import Road7.RoundRobin
import Road7.Connections
import Road7.ClientAffinity
import Road7.Server
import Road7.Handler
import Road7.RequestMetrics
import Road7.HandlerTasks
import Road7.RefillInterval
import Road7.RefillTask
import Road7.HeaderRules
import Road7.BalancerPanics
import Road7.BackendAdded
import Road7.RetryReports
import Road7.RetryTimeouts
import Road7.EntityTags
import Road7.CacheSize
import Road7.LeastLoaded
import Road7.LeastConnections
import Road7.PrefixCode
import Road7.KeyStream
import Road7.KeyedUpdates
import Road7.HeaderTransforms
import Road7.AppendedHeaders
import Road7.AsciiText
import Road7.Base64
import Road7.BasicLogin
import Road7.BotRules
import Road7.RetryDelays
import Road7.RetryPanics
import Road7.StoredHeaders
import Road7.Semaphore
import Road7.Permits
import Road7.GracefulShutdown
import Road7.Tally
import Road7.RequestCounts
import Road7.LimiterRates
import Road7.CacheAge
import Road7.ReplayedReplies
import Road7.ClientResponses
import Road7.Revalidation
import Road7.StartupCaches
import Road7.JwtTokens
import Road7.UpstreamUris
import Road7.RunTotals
import Road7.OutageLoad
import Road7.Failover
import Road7.BreakerShares
import Road7.ForwardedResponse
import Road7.ForwardedRequest
import Road7.LimiterTasks
import Road7.DecisiveAttempt
import Road7.BreakerKeys
import Road7.WorkerThreads
