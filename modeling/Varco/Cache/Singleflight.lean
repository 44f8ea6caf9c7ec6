import Varco.Foundations.Async
import Varco.Foundations.Dict
import Varco.Foundations.EventLoop

/-!
# Request coalescing

`Singleflight` of `varco_core.cache.singleflight`, run by tasks of one event loop. A task suspends
before it starts, at `await loader()`, at `await asyncio.shield(future)` of a future that is not
done, and at `async with lock` if the lock is held; at all of these it may be cancelled. The loader
is not modelled further: it may end with any value or exception at any time.

The queue of those who wait for the lock is left out, since there are none: no task suspends while
it holds the lock.
-/

namespace Varco

variable {V : Type}

/-! ## Commands -/

/-- What a call does one at a time. -/
inductive FlightCmd (V : Type)
  /-- The task is scheduled. -/
  | start
  /-- `lock.__aenter__()` -/
  | acquire
  /-- `lock.__aexit__()` -/
  | release
  /-- `self._in_flight.get(key)` -/
  | inFlightGet (key : String)
  /-- `loop.create_future()` -/
  | createFuture
  /-- `self._in_flight[key] = future` -/
  | inFlightSet (key : String) (future : ℕ)
  /-- `await loader()` -/
  | load (key : String)
  /-- `self._in_flight.pop(key, None)` -/
  | inFlightPop (key : String)
  /-- `future.done()` -/
  | done (future : ℕ)
  /-- `future.set_result(result)` -/
  | setResult (future : ℕ) (result : V)
  /-- `future.set_exception(exc)` -/
  | setException (future : ℕ) (exc : Exc)
  /-- `await asyncio.shield(future)` -/
  | shield (future : ℕ)

abbrev FlightCmd.Res : FlightCmd V → Type
  | .start => Except Exc Unit
  | .acquire => Except Exc Unit
  | .release => Unit
  | .inFlightGet _ => Option ℕ
  | .createFuture => ℕ
  | .inFlightSet .. => Unit
  | .load _ => Except Exc V
  | .inFlightPop _ => Unit
  | .done _ => Bool
  | .setResult .. => Except Exc Unit
  | .setException .. => Except Exc Unit
  | .shield _ => Except Exc V

abbrev Flight (V α : Type) := ExceptT Exc (Prog (FlightCmd V) FlightCmd.Res) α

/-! ## `Singleflight` -/

namespace Singleflight

/-- `async with lock: body` -/
def withLock {α : Type} (body : Flight V α) : Flight V α := do
  Prog.await FlightCmd.acquire id
  match ← Prog.attempt body with
  | .error exc =>
    Prog.call FlightCmd.release
    throw exc
  | .ok a =>
    Prog.call FlightCmd.release
    return a

def slot (key : String) : Flight V (ℕ × Bool) := do
  match ← Prog.call (FlightCmd.inFlightGet key) with
  | none =>
    let future ← Prog.call FlightCmd.createFuture
    Prog.call (FlightCmd.inFlightSet key future)
    return (future, true)
  | some future => return (future, false)

def lead (key : String) (future : ℕ) : Flight V (V × Bool) := do
  match ← Prog.attempt (Prog.await (FlightCmd.load key) id) with
  | .error exc =>
    withLock (Prog.call (FlightCmd.inFlightPop key))
    if !(← Prog.call (FlightCmd.done future)) then
      Prog.await (FlightCmd.setException future exc) id
    throw exc
  | .ok result =>
    withLock (Prog.call (FlightCmd.inFlightPop key))
    if !(← Prog.call (FlightCmd.done future)) then
      Prog.await (FlightCmd.setResult future result) id
    return (result, true)

def follow (future : ℕ) : Flight V (V × Bool) := do
  let value ← Prog.await (FlightCmd.shield future) id
  return (value, false)

/-- `do` -/
def «do» (key : String) : Flight V (V × Bool) := do
  let (future, isLeader) ← withLock (slot key)
  if isLeader then lead key future else follow future

end Singleflight

/-- A task that awaits `do(key, loader)`, or that `spawn_refresh(key, loader)` has created. -/
inductive FlightClient
  | do (key : String)
  | spawnRefresh (key : String)

namespace FlightClient

def key : FlightClient → String
  | .do key => key
  | .spawnRefresh key => key

/-- How the task ends when its call of `do` has ended: a background refresh swallows what is not a
cancellation. -/
def finish : FlightClient → Except Exc (V × Bool) → Except Exc (Option (V × Bool))
  | .do _, r => r.map some
  | .spawnRefresh _, .error .cancelled => .error .cancelled
  | .spawnRefresh _, .error (.error _) => .ok none
  | .spawnRefresh _, .ok _ => .ok none

/-- The task around its call of `do`. -/
def around (client : FlightClient) (call : Flight V (V × Bool)) : Flight V (Option (V × Bool)) :=
  ExceptT.mk (call.run >>= fun r => pure (client.finish r))

def run (client : FlightClient) : Flight V (Option (V × Bool)) := do
  Prog.await FlightCmd.start id
  client.around (Singleflight.do client.key)

end FlightClient

/-! ## The event loop -/

/-- The lock, the table of the slots, and for each future what it is done with. -/
structure Flights (V : Type) where
  locked : Bool := false
  inFlight : Dict String ℕ := .empty
  futures : List (Option (Except Exc V)) := []

namespace Flights

def outcome (s : Flights V) (future : ℕ) : Option (Except Exc V) := (s.futures[future]?).join

def invalidState : PyException := ⟨"InvalidStateError", "invalid state"⟩

def resolve (s : Flights V) (future : ℕ) (r : Except Exc V) : Except Exc Unit × Flights V :=
  match s.outcome future with
  | none => (.ok (), { s with futures := s.futures.set future (some r) })
  | some _ => (.error (.error invalidState), s)

def now (c : FlightCmd V) (s : Flights V) : Option (c.Res × Flights V) :=
  match c with
  | .start => none
  | .acquire => if s.locked then none else some (.ok (), { s with locked := true })
  | .release => some ((), { s with locked := false })
  | .inFlightGet key => some (s.inFlight.get? key, s)
  | .createFuture => some (s.futures.length, { s with futures := s.futures ++ [none] })
  | .inFlightSet key future => some ((), { s with inFlight := s.inFlight.set key future })
  | .load _ => none
  | .inFlightPop key => some ((), { s with inFlight := s.inFlight.erase key })
  | .done future => some ((s.outcome future).isSome, s)
  | .setResult future result => some (s.resolve future (.ok result))
  | .setException future exc => some (s.resolve future (.error exc))
  | .shield future => (s.outcome future).map fun r => (r, s)

/-- What a suspended task is woken with; the loader ends as the environment chooses. -/
def wake (w : Wake (Except Exc V)) (c : FlightCmd V) (s : Flights V) : Option (c.Res × Flights V) :=
  match w, c with
  | .resume _, .start => some (.ok (), s)
  | .resume _, .acquire => now .acquire s
  | .resume r, .load _ => some (r, s)
  | .resume _, .shield future => now (.shield future) s
  | .cancel, .start => some (.error .cancelled, s)
  | .cancel, .acquire => some (.error .cancelled, s)
  | .cancel, .load _ => some (.error .cancelled, s)
  | .cancel, .shield _ => some (.error .cancelled, s)
  | _, _ => none

end Flights

abbrev FlightPool (V ι : Type) :=
  Pool ι (Flights V) (FlightCmd V) FlightCmd.Res (Except Exc (Option (V × Bool)))

/-- Any number of tasks over one `Singleflight`. -/
def Singleflight.pool {ι : Type} (V : Type) (clients : ι → FlightClient) : FlightPool V ι where
  shared := {}
  prog i := (clients i).run.run

/-- A task is woken; for the leader, with what its loader ends with. -/
abbrev FlightEvent (V ι : Type) := LoopEvent ι (Except Exc V)

abbrev FlightStep {V ι : Type} [DecidableEq ι] :
    FlightPool V ι → FlightEvent V ι → FlightPool V ι → Prop :=
  EventLoop.Step Flights.now Flights.wake

/-! ## From one suspension to the next -/

namespace Singleflight

variable {s s' : Flights V} {key : String} {future : ℕ}

open EventLoop

theorem drive_withLock {α : Type} {body : Flight V α} {a : α} (hfree : s.locked = false)
    (h : drive Flights.now body.run { s with locked := true } = (.ret (.ok a), s')) :
    drive Flights.now (withLock body).run s = (.ret (.ok a), { s' with locked := false }) := by
  have hacquire : Flights.now .acquire s = some (.ok (), { s with locked := true }) := by
    simp [Flights.now, hfree]
  refine (drive_bindExcept_ok (drive_await hacquire)).trans ?_
  exact (drive_bindExcept_ok (drive_attempt h)).trans rfl

/-- **The leader**: a call for an empty slot fills it with a new future and suspends at the loader.
-/
theorem drive_do_lead (hfree : s.locked = false) (hslot : s.inFlight.get? key = none) :
    drive Flights.now (Singleflight.do key).run s = ((lead key s.futures.length).run,
      { s with
        inFlight := s.inFlight.set key s.futures.length, futures := s.futures ++ [none] }) := by
  have hbody : drive Flights.now (slot key).run { s with locked := true } =
      (.ret (.ok (s.futures.length, true)), { s with
        locked := true, inFlight := s.inFlight.set key s.futures.length,
        futures := s.futures ++ [none] }) := by
    have hget : Flights.now (.inFlightGet key) { s with locked := true } =
        some (none, { s with locked := true }) := by
      simp [Flights.now, hslot]
    exact (drive_cmd_some hget).trans rfl
  refine (drive_bindExcept_ok (drive_withLock hfree hbody)).trans ?_
  obtain ⟨locked, inFlight, futures⟩ := s
  cases hfree
  rfl

/-- **A follower**: a call for a slot with a future that is not done suspends at the future. -/
theorem drive_do_follow (hfree : s.locked = false) (hslot : s.inFlight.get? key = some future)
    (hpending : s.outcome future = none) :
    drive Flights.now (Singleflight.do key).run s = ((follow future).run, s) := by
  have hbody : drive Flights.now (slot key).run { s with locked := true } =
      (.ret (.ok (future, false)), { s with locked := true }) := by
    have hget : Flights.now (.inFlightGet key) { s with locked := true } =
        some (some future, { s with locked := true }) := by
      simp [Flights.now, hslot]
    exact (drive_cmd_some hget).trans rfl
  refine (drive_bindExcept_ok (drive_withLock hfree hbody)).trans ?_
  obtain ⟨locked, inFlight, futures⟩ := s
  cases hfree
  have hshield : Flights.now (.shield future) ⟨false, inFlight, futures⟩ = none := by
    simp only [Flights.now, hpending, Option.map_none]
  exact drive_cmd_none hshield

/-- What is left of a flight once its loader has ended. -/
theorem drive_pop (hfree : s.locked = false) :
    drive Flights.now (withLock (Prog.call (FlightCmd.inFlightPop key)) : Flight V Unit).run s =
      (.ret (.ok ()), { s with inFlight := s.inFlight.erase key }) := by
  refine (drive_withLock hfree rfl).trans ?_
  obtain ⟨locked, inFlight, futures⟩ := s
  cases hfree
  rfl

/-- **The end of a flight**: when its loader has ended the leader empties the slot, hands the
outcome to the future and ends with it, without suspending. -/
theorem drive_lead (hfree : s.locked = false) (hpending : s.outcome future = none) :
    ∃ k, (lead key future).run = .cmd (.load key) k ∧
      ∀ r : Except Exc V, drive Flights.now (k r) s = (.ret (r.map (·, true)), { s with
        inFlight := s.inFlight.erase key, futures := s.futures.set future (some r) }) := by
  refine ⟨_, rfl, fun r => ?_⟩
  have hnone : Flights.outcome { s with inFlight := s.inFlight.erase key } future = none :=
    hpending
  have hdone : Flights.now (.done future) { s with inFlight := s.inFlight.erase key } =
      some (false, { s with inFlight := s.inFlight.erase key }) := by
    simp [Flights.now, hnone]
  have hresolve : Flights.resolve { s with inFlight := s.inFlight.erase key } future r =
      (.ok (), { s with
        inFlight := s.inFlight.erase key, futures := s.futures.set future (some r) }) := by
    simp [Flights.resolve, hnone]
  cases r with
  | error exc =>
    refine (drive_bindExcept_ok (drive_pop hfree)).trans ?_
    refine (drive_cmd_some hdone).trans ?_
    exact (drive_cmd_some (congrArg some hresolve)).trans rfl
  | ok result =>
    refine (drive_bindExcept_ok (drive_pop hfree)).trans ?_
    refine (drive_cmd_some hdone).trans ?_
    exact (drive_cmd_some (congrArg some hresolve)).trans rfl

end Singleflight

end Varco
