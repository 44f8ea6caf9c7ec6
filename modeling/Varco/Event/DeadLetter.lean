import Mathlib.Data.Rat.Defs

/-!
# Dead letters

`DeadLetterEntry` of `varco_core.event.dlq`: what is kept of something that could not be delivered
or carried out. Job runners and the outbox relay push such entries.
-/

namespace Varco

/-- The subsystem that a dead letter entry comes from. -/
inductive DeadLetterSource
  | consumer
  | outboxRelay
  | job
  deriving DecidableEq

/-- A dead letter entry. -/
structure DeadLetterEntry where
  channel : String := ""
  handlerName : String := ""
  errorType : String := ""
  errorMessage : String := ""
  attempts : ℤ := 0
  source : DeadLetterSource := .consumer
  sourceRef : Option String := none
  deriving DecidableEq

end Varco
