import WebhookEngine.AttemptBound
import WebhookEngine.TerminalStatus
import WebhookEngine.Fencing
import WebhookEngine.SingleFlight
import WebhookEngine.EventAgreement
import WebhookEngine.Retention
import WebhookEngine.Tokens
import WebhookEngine.ConcurrentSettle
import WebhookEngine.Maintenance
import WebhookEngine.Recovery
import WebhookEngine.StaleRecovery
import WebhookEngine.Pipeline
import WebhookEngine.SafeUrl
import WebhookEngine.Duplicates
import WebhookEngine.Schedule
import WebhookEngine.RateLimiter
import WebhookEngine.Ingestion
import WebhookEngine.Rotation
import WebhookEngine.Verification
import WebhookEngine.Migration
import WebhookEngine.Authentication
import WebhookEngine.Deactivation
import WebhookEngine.Provisioning
import WebhookEngine.Isolation
import WebhookEngine.Throttling
import WebhookEngine.RowShape
import WebhookEngine.AttemptNumbers
import WebhookEngine.SignedRequests
import WebhookEngine.Backoff
import WebhookEngine.Pages
import WebhookEngine.AddressClass
import WebhookEngine.Resubscription
import WebhookEngine.Redaction
import WebhookEngine.ResponseText
import WebhookEngine.PublisherTrace
import WebhookEngine.PublisherBatch
import WebhookEngine.Drain
import WebhookEngine.Interaction
import WebhookEngine.Programs
import WebhookEngine.Metrics
import WebhookEngine.RequestText
import WebhookEngine.Throughput
import WebhookEngine.Snippets
import WebhookEngine.Cluster
import WebhookEngine.Evidence
import WebhookEngine.Secrets
