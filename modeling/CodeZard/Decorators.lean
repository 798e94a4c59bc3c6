import CodeZard.Paths
import CodeZard.Scripts

namespace CodeZard.Decorators

open Programs Scripts Upstreams Paths Values

variable {C σ : Type} {A : C → Type}

/-- What the retries are given: a call of the client inside, how to let an
outcome go, and the wait after an attempt. -/
structure Retrying (C : Type) (A : C → Type) (σ : Type) where
  call : Prog C A Error σ
  discard : σ → Prog C A Error Unit
  sleep : Nat → Prog C A Error Unit
  status : σ → Nat

namespace Retrying

variable (policy : RetryPolicy) (inner : Retrying C A σ) (request : OutboundRequest)

def backoff (attempt : Nat) : Prog C A Error Unit := do
  let _ ← (ofExcept ((url request).mapError Error.other) : Prog C A Error String)
  inner.sleep attempt

def attempting (attempt : Nat) : Prog C A Error σ := do
  let outcome ← caught inner.call
  match outcome with
  | .error e =>
      if h : e.isUpstream = false ∨ policy.maxAttempts ≤ attempt then .raise e
      else do
        inner.backoff request attempt
        attempting (attempt + 1)
  | .ok outcome =>
      if h : policy.maxAttempts ≤ attempt ∨ policy.shouldRetryStatus (inner.status outcome) = false then return outcome
      else do
        inner.discard outcome
        inner.backoff request attempt
        attempting (attempt + 1)
  termination_by policy.maxAttempts - attempt

/-- Non-idempotent methods are never retried. -/
def attempts : Prog C A Error σ :=
  if !request.isIdempotent then inner.call else attempting policy inner request 1

end Retrying

/-- What a breaker is given: itself, and a call of the client inside. -/
structure Guarding (C : Type) (A : C → Type) (σ : Type) where
  tryAcquire : String → Prog C A Error Bool
  onSuccess : String → Prog C A Error Unit
  onFailure : String → Prog C A Error Unit
  onAbort : String → Prog C A Error Unit
  call : Prog C A Error σ
  status : σ → Nat

def Guarding.guarded (failureStatusCodes : List Nat) (inner : Guarding C A σ) (request : OutboundRequest) :
    Prog C A Error σ := do
  let acquired ← inner.tryAcquire request.target
  if !acquired then .raise (.circuitOpen request.service.name)
  else do
    let outcome ← inner.call.rescue fun e => do
      if e.isUpstream then inner.onFailure request.target else inner.onAbort request.target
      .raise e
    if failureStatusCodes.contains (inner.status outcome) then inner.onFailure request.target
    else inner.onSuccess request.target
    return outcome

/-- What the balancer is given: the turns of a service, a call of the client
inside, and how to name the server on an outcome. -/
structure Balancing (C : Type) (A : C → Type) (σ : Type) where
  rotation : ServiceDefinition → Prog C A Error (List ServiceInstance)
  call : OutboundRequest → Prog C A Error σ
  tag : σ → String → σ

/-- An instance that was actually tried explains more than one whose circuit was
open. -/
def lastFailure (errors : List Error) : Error :=
  match (errors.filter Error.isUpstream).getLast?.or errors.getLast? with
  | some e => e
  | none => .other (.exception "IndexError" "list index out of range")

namespace Balancing

variable (inner : Balancing C A σ)

def sendTo (server : ServiceInstance) (request : OutboundRequest) : Prog C A Error σ := do
  let outcome ← inner.call { request with server := some server }
  return inner.tag outcome server.id

def failover (request : OutboundRequest) (errors : List Error) : List ServiceInstance → Prog C A Error σ
  | [] => .raise (lastFailure errors)
  | server :: servers => do
      let result ← (Except.ok <$> inner.sendTo server request : Prog C A Error (Except Error σ)).rescue fun e =>
        if passesOver request e then .ret (.error e) else .raise e
      match result with
      | .ok outcome => return outcome
      | .error e => failover request (errors ++ [e]) servers

def balanced (request : OutboundRequest) : Prog C A Error σ :=
  match request.server with
  | some server => inner.sendTo server request
  | none => do inner.failover request [] (← inner.rotation request.service)

end Balancing

end CodeZard.Decorators
