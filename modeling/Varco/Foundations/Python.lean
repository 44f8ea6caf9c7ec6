import Mathlib.Data.Rat.Defs

/-!
# Python values shared by the models

Identifiers, instants and exceptions as the modelled programs use them. An instant is a UTC
`datetime`, a duration a `timedelta`: both whole numbers of microseconds, which is the resolution
of either type.
-/

namespace Varco

/-- A `uuid.UUID`: 128 bits. -/
abbrev UUID := BitVec 128

def UUID.digits (u : UUID) : List Char :=
  List.replicate (32 - (Nat.toDigits 16 u.toNat).length) '0' ++ Nat.toDigits 16 u.toNat

/-- `str(uuid)`: the hexadecimal digits in groups of 8, 4, 4, 4 and 12. -/
def UUID.str (u : UUID) : String :=
  let group (i n : ℕ) : String := String.ofList ((u.digits.drop i).take n)
  "-".intercalate [group 0 8, group 8 4, group 12 4, group 16 4, group 20 12]

/-- A UTC `datetime`, in microseconds. -/
abbrev Instant := ℤ

/-- A `timedelta`, in microseconds. -/
abbrev Duration := ℤ

/-- A number in decimal, padded with zeros to `width` digits. -/
def zeroPad (width n : ℕ) : String :=
  let digits := toString n
  String.ofList (List.replicate (width - digits.length) '0') ++ digits

/-- `str(timedelta)`: the days, if there are any, then `H:MM:SS` and the microseconds, if there are
any. The days carry the sign. -/
def Duration.str (d : Duration) : String :=
  let days := d / 86400000000
  let rest := (d % 86400000000).toNat
  let seconds := rest / 1000000
  let micros := rest % 1000000
  (if days = 0 then "" else toString days ++ (if days.natAbs = 1 then " day, " else " days, ")) ++
    toString (seconds / 3600) ++ ":" ++ zeroPad 2 (seconds / 60 % 60) ++ ":" ++
    zeroPad 2 (seconds % 60) ++ (if micros = 0 then "" else "." ++ zeroPad 6 micros)

/-- A finite `float`: its value, and its `repr()`. -/
structure PyFloat where
  val : ℚ
  repr : String
  deriving DecidableEq

/-- The integer nearest to `n / d`, and the even one of two that are equally near. -/
def roundHalfEven (n : ℤ) (d : ℕ) : ℤ :=
  let below := n / d
  let rest := n % d
  if 2 * rest < d then below
  else if d < 2 * rest then below + 1
  else if below % 2 = 0 then below
  else below + 1

/-- `timedelta(seconds=x)`. -/
def PyFloat.timedelta (x : PyFloat) : Duration := roundHalfEven (x.val.num * 1000000) x.val.den

/-- A `bytes` value. -/
abbrev Bytes := List UInt8

/-- An instance of a subclass of `Exception`: the name of its class and its `str()`. -/
structure PyException where
  typeName : String
  message : String
  deriving DecidableEq

/-- `ValueError(message)`. -/
def PyException.valueError (message : String) : PyException := ⟨"ValueError", message⟩

theorem exists_of_map_ok {ε α β : Type} {x : Except ε α} {f : α → β} {b : β}
    (h : x.map f = .ok b) : ∃ a, x = .ok a ∧ f a = b := by
  cases x with
  | error e => cases h
  | ok a =>
    cases h
    exact ⟨a, rfl, rfl⟩

theorem exists_of_bind_ok {ε α β : Type} {x : Except ε α} {f : α → Except ε β} {b : β}
    (h : (x >>= f) = .ok b) : ∃ a, x = .ok a ∧ f a = .ok b := by
  cases x with
  | error e => cases h
  | ok a => exact ⟨a, rfl, h⟩

/-- What a coroutine can raise: `asyncio.CancelledError`, or an `Exception`. -/
inductive Exc
  | cancelled
  | error (e : PyException)
  deriving DecidableEq

/-- What is raised at an await arrives before the awaited call has taken effect, or after it. -/
inductive Interrupt
  | none
  | before
  | after
  deriving DecidableEq

end Varco
