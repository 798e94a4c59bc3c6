import CodeZard.Followers
import CodeZard.StreamScans
import CodeZard.Dispatches
import CodeZard.Probes
import CodeZard.Projects
import CodeZard.Sales
import CodeZard.Counterfeits
import CodeZard.Confirmations
import CodeZard.Crossings
import CodeZard.Deliveries
import CodeZard.FreeWeeks
import CodeZard.Approvals
import CodeZard.Versions
import CodeZard.FrozenPlans
import CodeZard.Generations
import CodeZard.Grants
import CodeZard.LostGrants
import CodeZard.Overdrafts
import CodeZard.Overspends
import CodeZard.PaidPlans
import CodeZard.Redemptions
import CodeZard.Renewals
import CodeZard.Silences
import CodeZard.Accounts
import CodeZard.Rollovers
import CodeZard.Mirrors
import CodeZard.Receipts
import CodeZard.Takings
import CodeZard.Documents
import CodeZard.Pinning
import CodeZard.Timestamps
import CodeZard.Identity
import CodeZard.Sessions
import CodeZard.Indexes
import CodeZard.SqliteStore
import CodeZard.StoredRows
import CodeZard.Meters
import CodeZard.Balances
import CodeZard.Extensions
import CodeZard.Sweeps
import CodeZard.Pages
import CodeZard.Envelopes
import CodeZard.Quotes
import CodeZard.Fallbacks
import CodeZard.Questionnaires
import CodeZard.Charges
import CodeZard.Prices
import CodeZard.Exchanges
import CodeZard.Micros
import CodeZard.Panels
import CodeZard.Refusals
import CodeZard.Paths
import CodeZard.Retries
import CodeZard.Failovers
import CodeZard.HeaderPolicies
import CodeZard.Urls
import CodeZard.Bookkeeping
import CodeZard.Traces
import CodeZard.Wakings
import CodeZard.LiveReaders
import CodeZard.Evictions
import CodeZard.Recencies
import CodeZard.RunStores
import CodeZard.Prints
import CodeZard.Chronology
import CodeZard.PaymentGate
import CodeZard.Sources
import CodeZard.Connections
import CodeZard.Audiences
import CodeZard.Payments
import CodeZard.Calendars
import CodeZard.Namings
import CodeZard.Refinements
