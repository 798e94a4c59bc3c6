import CodeZard.Ledgers

namespace CodeZard.Periods

open Products Ledgers

inductive SubscriptionStatus
  | active
  | expired
  | cancelled
  deriving DecidableEq, Repr

structure Subscription where
  account : String
  planId : String
  startedAt : Datetime
  renewsAt : Datetime
  status : SubscriptionStatus := .active
  deriving DecidableEq, Repr

namespace Subscription

def begin (account : String) (plan : Plan) (now : Datetime) : Subscription :=
  ⟨account, plan.id, now, now + plan.period, .active⟩

/-- The period is over and the next one has not been paid for. -/
def due (s : Subscription) (now : Datetime) : Bool := s.status = .active && s.renewsAt ≤ now

def renewed (s : Subscription) (plan : Plan) (now : Datetime) : Subscription :=
  { s with startedAt := now, renewsAt := now + plan.period, status := .active }

def ended (s : Subscription) : Subscription := { s with status := .expired }

/-- The references built from `period_key`. -/
def grantReference (s : Subscription) : Reference := .grant s.planId s.renewsAt

def expiryReference (s : Subscription) : Reference := .expiry s.planId s.renewsAt

theorem due_iff {s : Subscription} {now : Datetime} :
    s.due now = true ↔ s.status = .active ∧ s.renewsAt ≤ now := by
  simp [due]

end Subscription

/-- One subscriber's standing, as the contract records it. -/
structure OnChainSubscription where
  plan : String
  started : Datetime
  expires : Datetime
  periods : Nat
  deriving DecidableEq, Repr

namespace OnChainSubscription

def active (o : OnChainSubscription) (now : Datetime) : Bool := now < o.expires

/-- `int(started.timestamp())`: whole seconds, rounded towards zero. -/
def reference (o : OnChainSubscription) : Reference := .chain o.plan (o.started.tdiv SECOND)

end OnChainSubscription

end CodeZard.Periods
