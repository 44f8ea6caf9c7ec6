import Varco.Job.DeadLetter
import Varco.Job.Holders
import Varco.Job.Terminal
import Varco.Job.StartOnce
import Varco.Job.RedisFencing
import Varco.Job.SqlFencing
import Varco.Idempotency.SqlExclusive
import Varco.Idempotency.Refinement
import Varco.Idempotency.ScopeKey
import Varco.Service.SagaOrder
import Varco.Service.OutboxDelivery
import Varco.Service.InboxDelivery
import Varco.Cache.Invalidation
import Varco.Cache.Coalescing
import Varco.Cache.Coherence
import Varco.Resilience.BreakerPaths
import Varco.Encryption.Shredding
import Varco.Encryption.Rotation
import Varco.Encryption.Destruction
import Varco.Schedule.Rematerializer
import Varco.Schedule.Progress
import Varco.Query.Agreement
import Varco.Query.Joins
import Varco.Event.CloudEvents
import Varco.Tenancy.PoolShutdown
import Varco.Tenancy.CatalogFreshness
import Varco.Tenancy.FanoutSafety
import Varco.Tenancy.Readiness
import Varco.Tenancy.Resurrection
import Varco.Authority.RefreshRate
import Varco.Event.ConsumerOutcome
import Varco.Webhook.Isolation
import Varco.Authority.VerificationPaths
import Varco.Service.TenantNoninterference
import Varco.Service.AuditDelivery
import Varco.Coordination.Reload
import Varco.Service.AuditWriters
import Varco.Persistence.UnitOfWork
import Varco.Job.Beanie
import Varco.Persistence.OptimisticLock
import Varco.Resilience.Bulkhead
import Varco.Cache.Staleness
import Varco.Coordination.RedisLock
import Varco.Tenancy.StorageNames
import Varco.Idempotency.Beanie
import Varco.Policy.BeanieAdapter
import Varco.Event.BrokerDlq
import Varco.Event.StreamBus
import Varco.Event.KafkaBus
import Varco.Coordination.AdvisoryLock
import Varco.Cache.RemoteCaches
import Varco.Query.ReadBack
import Varco.Dto.Pagination
import Varco.Schedule.CronSearch
import Varco.Encryption.Framing
import Varco.Query.Like
import Varco.Webhook.Ssrf
import Varco.Job.TaskArguments
import Varco.Schedule.Resolution
import Varco.Job.ClaimNext
import Varco.Job.Scheduled
import Varco.Resilience.Hedge
import Varco.Event.Redrive
import Varco.Cache.TenantKeys
import Varco.Jwt.ForeignClaims
import Varco.Service.BulkAgreement
import Varco.Resilience.RateLimitExact
import Varco.Resilience.RetryLoop
import Varco.Persistence.DomainMigrator
import Varco.Tenancy.MigrationFanout
import Varco.Authority.Grants
import Varco.Event.MemoryBus
import Varco.Persistence.MigrationTargets
import Varco.Cache.ReadAge
import Varco.Service.SoftDelete
