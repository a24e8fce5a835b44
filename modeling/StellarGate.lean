import StellarGate.Base.Run
import StellarGate.Base.Table
import StellarGate.Money
import StellarGate.Db.Timestamp
import StellarGate.Db.Schema
import StellarGate.Db.Statements
import StellarGate.Config
import StellarGate.Horizon.Record
import StellarGate.Webhook.Payload
import StellarGate.Webhook.Dispatch
import StellarGate.Horizon.Reconcile
import StellarGate.Expiry
import StellarGate.Api.Create
import StellarGate.System
import StellarGate.Frame
import StellarGate.Settlement.Soundness
import StellarGate.Settlement.Intent
import StellarGate.Settlement.Schedule
import StellarGate.Settlement.Finality
import StellarGate.Settlement.Received
import StellarGate.Settlement.Sequential
import StellarGate.Settlement.Recovery
import StellarGate.Horizon.Poller
import StellarGate.Webhook.Durability
import StellarGate.Api.Idempotency
import StellarGate.Horizon.Paging
import StellarGate.Api.Keys
import StellarGate.Api.Retry
import StellarGate.Db.Listing
import StellarGate.Api.Cursor
import StellarGate.Api.Offset
import StellarGate.Api.Tenant
import StellarGate.Webhook.Verbatim
import StellarGate.Webhook.Redrive
import StellarGate.Webhook.Retention
import StellarGate.Webhook.Grace
import StellarGate.Strkey
import StellarGate.Addresses
import StellarGate.Restart
import StellarGate.Db.Legacy
import StellarGate.Api.Revocation
import StellarGate.Webhook.Ssrf
import StellarGate.Horizon.Resume
import StellarGate.Horizon.Detection
import StellarGate.Base.Ascii
import StellarGate.Assets.AllowList
import StellarGate.Deployment
import StellarGate.Horizon.Verdict
import StellarGate.Api.Invoice
import StellarGate.Horizon.Utf8
import StellarGate.Horizon.Sse
import StellarGate.Net.IpAddr
import StellarGate.Net.IpText
import StellarGate.Api.ClientIp
import StellarGate.Api.RateLimit
import StellarGate.Settlement.Agreement
import StellarGate.Webhook.Amounts
import StellarGate.Assets.Confusion
import StellarGate.Assets.Codes
import StellarGate.Base.Fixed
import StellarGate.Money.Grammar
import StellarGate.Api.AmountText
import StellarGate.Webhook.Backoff
import StellarGate.Horizon.Backoff
import StellarGate.Base.Batch
import StellarGate.Db.Backlog
import StellarGate.Webhook.PruneOnce
import StellarGate.Base.Bits
import StellarGate.Base.Crc
import StellarGate.Strkey.Base32
import StellarGate.Strkey.Account
import StellarGate.Strkey.Typing
import StellarGate.Webhook.Embedded
import StellarGate.Supervise.Correct
import StellarGate.Db.Pending
import StellarGate.Webhook.Window
import StellarGate.Webhook.Delay
import StellarGate.Supervise.Calm
import StellarGate.Supervise.Shutdown
import StellarGate.Base.Locks
import StellarGate.Supervise.Locks
import StellarGate.Settlement.Conservation
import StellarGate.Boot.FromEnv
import StellarGate.Boot.Cors
import StellarGate.Webhook.Targets
import StellarGate.Settlement.Refinement
