import Varco.Foundations.Python

/-!
# Idempotency records

The value objects of `varco_core.idempotency`: what a store keeps for a key once the request behind
it has run, and what it answers when a key is reserved. The calls are the methods of
`AbstractIdempotencyStore`.
-/

namespace Varco

/-- `IdempotencyRecord`: a captured response. -/
structure IdempotencyRecord where
  status : ℤ
  body : Bytes
  headers : List (String × String)
  fingerprint : String
  createdAt : Instant
  deriving DecidableEq

inductive ReserveOutcome
  | acquired
  | inFlight
  | replay
  deriving DecidableEq

/-- The refusal of a time to live that is not positive, the same in every store. -/
def ttlError (ttl : PyFloat) : PyException :=
  .valueError ("reserve() ttl must be > 0, got " ++ ttl.repr ++ ".")

/-- The calls of a store. -/
inductive IdempotencyCall
  | reserve (key fingerprint : String) (ttl : PyFloat)
  | complete (key : String) (record : IdempotencyRecord)
  | get (key : String)
  | release (key : String)

def IdempotencyCall.key : IdempotencyCall → String
  | .reserve key _ _ => key
  | .complete key _ => key
  | .get key => key
  | .release key => key

/-- What a call returns. -/
inductive IdempotencyAnswer
  | outcome (o : ReserveOutcome)
  | record (r : Option IdempotencyRecord)
  | done
  deriving DecidableEq

end Varco
