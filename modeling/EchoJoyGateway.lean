import EchoJoyGateway.Quota.Quiescent
import EchoJoyGateway.Redaction.Agreement
import EchoJoyGateway.Health.Convergence
import EchoJoyGateway.Quota.Admission
import EchoJoyGateway.Concurrency.Safety
import EchoJoyGateway.Subscription.Chain
import EchoJoyGateway.Subscription.Lease
import EchoJoyGateway.Gateway.Discipline
import EchoJoyGateway.Scheduler.Joining
import EchoJoyGateway.HTTPRoute.Ownership
import EchoJoyGateway.Control.Progress
import EchoJoyGateway.AutoModel.Budget
import EchoJoyGateway.Pricing.Currency
import EchoJoyGateway.Catalog.Price
import EchoJoyGateway.RateLimit.AccessKey
import EchoJoyGateway.Control.Lockout
import EchoJoyGateway.Control.Reconciliation
import EchoJoyGateway.State.ModelTurns
import EchoJoyGateway.Scheduler.Cooldown
import EchoJoyGateway.Judge.Replay
import EchoJoyGateway.Pricing.Quote
import EchoJoyGateway.RequestRedact.Signature
import EchoJoyGateway.Lib.Update
import EchoJoyGateway.Lib.IntervalRuns
import EchoJoyGateway.RequestRedact.Rewrite
import EchoJoyGateway.Health.Stats
import EchoJoyGateway.Gateway.ClientIP
