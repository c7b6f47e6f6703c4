import ResilienceKit.Adapters.Envelope
import ResilienceKit.Audit.CardNumbers
import ResilienceKit.Audit.Dispatch
import ResilienceKit.Audit.Fixpoint
import ResilienceKit.Audit.PiiPatterns
import ResilienceKit.Audit.Positions
import ResilienceKit.Audit.Redaction
import ResilienceKit.Cache.Agreement
import ResilienceKit.Cache.TimedMap
import ResilienceKit.CircuitBreaker.HalfOpen
import ResilienceKit.CircuitBreaker.KeyExpiry
import ResilienceKit.CircuitBreaker.MemoryRuns
import ResilienceKit.CircuitBreaker.Metered
import ResilienceKit.CircuitBreaker.OpenTimeout
import ResilienceKit.CircuitBreaker.Outages
import ResilienceKit.CircuitBreaker.PyBreakerRuns
import ResilienceKit.CircuitBreaker.RedisSteps
import ResilienceKit.CircuitBreaker.Refinement
import ResilienceKit.CircuitBreaker.StateReads
import ResilienceKit.Crypto.Corrupt
import ResilienceKit.Crypto.Rotation
import ResilienceKit.Decorators.Overlap
import ResilienceKit.Decorators.Registered
import ResilienceKit.Dispatch.ContextLeak
import ResilienceKit.Dispatch.Shutdown
import ResilienceKit.Health.Flags
import ResilienceKit.HttpClient.DnsPin
import ResilienceKit.HttpClient.Hmac
import ResilienceKit.HttpClient.Idempotency
import ResilienceKit.HttpClient.RawSend
import ResilienceKit.HttpClient.RequestsPin
import ResilienceKit.HttpClient.UrlSecrets
import ResilienceKit.HttpClient.Wire
import ResilienceKit.Lib.Binary64
import ResilienceKit.Lib.Firsts
import ResilienceKit.Lib.Layers
import ResilienceKit.Lib.Locks
import ResilienceKit.Lib.RemoteCalls
import ResilienceKit.Metrics.Cardinality
import ResilienceKit.Metrics.Prometheus
import ResilienceKit.Middleware.BodyLimit
import ResilienceKit.Middleware.CorsVary
import ResilienceKit.Middleware.HeadersOnce
import ResilienceKit.Middleware.Stack
import ResilienceKit.Numbers
import ResilienceKit.Recovery.Monitor
import ResilienceKit.RegistryThreads
import ResilienceKit.Retry.Contract
import ResilienceKit.Retry.Delays
import ResilienceKit.Retry.Repeats
import ResilienceKit.Retry.Success
import ResilienceKit.Singletons.Race
import ResilienceKit.Ssrf.Failures
import ResilienceKit.Ssrf.IpChecks
import ResilienceKit.Tasks.Queue
import ResilienceKit.Throttle.ExactWait
import ResilienceKit.Throttle.FixedWindow
import ResilienceKit.Throttle.Fleet
import ResilienceKit.Throttle.Interference
import ResilienceKit.Throttle.LuaClock
import ResilienceKit.Throttle.RateParse
import ResilienceKit.Throttle.SharedKey
