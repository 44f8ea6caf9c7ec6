import Mathlib.Data.List.Sort
import Varco.Event.Base
import Varco.Foundations.Text

/-!
# Dispatch within a process

`InMemoryEventBus` of `varco_core.event.memory`, without middleware and in `SYNC` mode. A publish
takes the matching subscriptions before it runs a handler, so that what handlers subscribe or cancel
does not change it; but the filters are asked as they are taken, outside the `try` statement of the
handlers, and one that raises keeps every handler from running (`publishes_meet`).
-/

namespace Varco.InMemoryEventBus

open List

/-! ## Subscriptions -/

inductive ErrorPolicy
  | failFast
  | collectAll
  | fireForget
  deriving DecidableEq

/-- What `event_type` may be: a class, `none` for `Event` itself, or a name. -/
inductive EventSelector
  | ofClass (c : Option EventClass)
  | named (name : String)
  deriving DecidableEq

/-- `_SubscriptionEntry`, the how-manieth of its bus, and whether it has a filter. -/
structure SubscriptionEntry where
  id : ℕ
  eventType : EventSelector
  channel : String
  filtered : Bool
  priority : ℤ
  cancelled : Bool := false
  deriving DecidableEq

/-- A call of `subscribe` or of `cancel`. -/
inductive HandlerOp
  | subscribe (eventType : EventSelector) (channel : String) (filtered : Bool) (priority : ℤ)
  | cancel (id : ℕ)

/-- The subscriptions of a bus, and how many there ever were. -/
structure Bus where
  subscriptions : List SubscriptionEntry := []
  created : ℕ := 0

def Bus.perform (bus : Bus) : HandlerOp → Bus
  | .subscribe eventType channel filtered priority =>
    { subscriptions := bus.subscriptions ++
        [{ id := bus.created, eventType, channel, filtered, priority }]
      created := bus.created + 1 }
  | .cancel id =>
    { bus with subscriptions :=
        bus.subscriptions.map fun e => if e.id = id then { e with cancelled := true } else e }

/-- `isinstance(event, c)`, of an event of a class. -/
def isInstance : EventClass → EventClass → Bool
  | .ofEvent name eventType, c => c = .ofEvent name eventType
  | .ofClass base name eventType, c => c = .ofClass base name eventType || isInstance base c

def matchesEventType (event : EventClass) : EventSelector → Bool
  | .ofClass none => true
  | .ofClass (some c) => isInstance event c
  | .named name => name = event.eventTypeName

def matchesChannel (publishChannel subscribeChannel : String) : Bool :=
  subscribeChannel = "*" || subscribeChannel = publishChannel

/-- The bus without its cancelled entries. -/
def Bus.flush (bus : Bus) : Bus :=
  { bus with subscriptions := bus.subscriptions.filter (!·.cancelled) }

/-! ## Publishing -/

/-- A call of `publish`, and what the filters and the handlers do in it: a handler subscribes and
cancels before it returns or raises. -/
structure Publish where
  event : EventClass
  channel : String
  filter : ℕ → Except Exc Bool
  ops : ℕ → List HandlerOp
  outcome : ℕ → Except Exc Unit

/-- How a publish ends: it returns, or raises an exception or an `ExceptionGroup`. -/
inductive Outcome
  | returned
  | raised (exc : Exc)
  | group (message : String) (errors : List PyException)
  deriving DecidableEq

/-- What comes of a publish: the handlers that it invokes, in order, and how it ends. -/
structure Dispatch where
  bus : Bus
  invoked : List ℕ
  outcome : Outcome

namespace Publish

variable (p : Publish)

/-- An entry whose filter is asked, if it has one. -/
def consults (e : SubscriptionEntry) : Bool :=
  !e.cancelled && matchesEventType p.event e.eventType && matchesChannel p.channel e.channel

/-- `e.filter is None or e.filter(event)` -/
def ask (e : SubscriptionEntry) : Except Exc Bool := if e.filtered then p.filter e.id else .ok true

/-- The entries that the generator in `_dispatch` yields. -/
def select : List SubscriptionEntry → Except Exc (List SubscriptionEntry)
  | [] => .ok []
  | e :: rest =>
    if p.consults e then do
      let keep ← p.ask e
      let entries ← select rest
      return if keep then e :: entries else entries
    else select rest

/-- What is raised for the errors that were collected. -/
def report (p : Publish) : List PyException → Outcome
  | [] => .returned
  | [exc] => .raised (.error exc)
  | errors => .group (s!"Event handlers raised {errors.length} error(s) " ++
      s!"for {pyRepr p.event.name} on channel {pyRepr p.channel}") errors

/-- The loop of `_dispatch`. -/
def dispatchLoop (policy : ErrorPolicy) :
    List SubscriptionEntry → Bus → List PyException → Dispatch
  | [], bus, errors => ⟨bus, [], p.report errors⟩
  | e :: rest, bus, errors =>
    let bus := (p.ops e.id).foldl Bus.perform bus
    let go (errors : List PyException) : Dispatch :=
      let out := dispatchLoop policy rest bus errors
      { out with invoked := e.id :: out.invoked }
    match p.outcome e.id with
    | .ok () => go errors
    | .error .cancelled => ⟨bus, [e.id], .raised .cancelled⟩
    | .error (.error exc) =>
      match policy with
      | .failFast => ⟨bus, [e.id], .raised (.error exc)⟩
      | .collectAll => go (errors ++ [exc])
      | .fireForget => go errors

/-- `sorted(entries, key=lambda e: e.priority, reverse=True)` -/
def sorted (entries : List SubscriptionEntry) : List SubscriptionEntry :=
  entries.mergeSort fun e e' => e'.priority ≤ e.priority

/-- `publish(event, channel=channel)` -/
def run (policy : ErrorPolicy) (bus : Bus) : Dispatch :=
  match p.select bus.flush.subscriptions with
  | .error exc => ⟨bus.flush, [], .raised exc⟩
  | .ok entries => p.dispatchLoop policy (sorted entries) bus.flush []

end Publish

/-- A call on the bus. -/
inductive Call
  | op (op : HandlerOp)
  | publish (p : Publish)

def Bus.step (policy : ErrorPolicy) (bus : Bus) : Call → Bus
  | .op op => bus.perform op
  | .publish p => (p.run policy bus).bus

/-- The bus after some calls. -/
def after (policy : ErrorPolicy) (calls : List Call) : Bus := calls.foldl (Bus.step policy) {}

/-! ## What is asked of a publish -/

/-- By decreasing priority, then in the order of subscription. -/
def Before (e e' : SubscriptionEntry) : Prop :=
  e'.priority < e.priority ∨ e'.priority = e.priority ∧ e.id < e'.id

namespace Publish

variable (p : Publish) (policy : ErrorPolicy) (bus : Bus)

/-- A subscription that is active and matching. -/
def Keeps (e : SubscriptionEntry) : Prop := p.consults e = true ∧ p.ask e = .ok true

def Matches (e : SubscriptionEntry) : Prop := e ∈ bus.subscriptions ∧ p.Keeps e

/-- The exception of a handler. -/
def errorOf (e : SubscriptionEntry) : Option PyException :=
  match p.outcome e.id with
  | .error (.error exc) => some exc
  | _ => none

/-- How `FAIL_FAST` ends: with the first failure. -/
def firstFailure : List SubscriptionEntry → Outcome
  | [] => .returned
  | e :: rest =>
    match p.outcome e.id with
    | .ok () => firstFailure rest
    | .error exc => .raised exc

/-- The entries up to the first failure. -/
def upToFailure : List SubscriptionEntry → List SubscriptionEntry
  | [] => []
  | e :: rest =>
    match p.outcome e.id with
    | .ok () => e :: upToFailure rest
    | .error _ => [e]

/-- **What is asked of a publish**: it invokes the matching subscriptions in their order, up to the
first failure under `FAIL_FAST`, and reports the first failure, every error, or none. -/
def Meets : Prop :=
  ∃ order : List SubscriptionEntry, (∀ e, e ∈ order ↔ p.Matches bus e) ∧ order.Pairwise Before ∧
    (policy = .failFast → (p.run policy bus).invoked = (p.upToFailure order).map (·.id) ∧
      (p.run policy bus).outcome = p.firstFailure order) ∧
    (policy = .collectAll → (p.run policy bus).invoked = order.map (·.id) ∧
      (p.run policy bus).outcome = p.report (order.filterMap p.errorOf)) ∧
    (policy = .fireForget → (p.run policy bus).invoked = order.map (·.id) ∧
      (p.run policy bus).outcome = .returned)

/-- No filter that is asked raises, and no handler is interrupted, unless the first failure ends the
publish anyway. -/
def Quiet : Prop :=
  (∀ e ∈ bus.subscriptions, p.consults e = true → ∃ keep, p.ask e = .ok keep) ∧
  (policy = .failFast ∨ ∀ e, p.Matches bus e → p.outcome e.id ≠ .error .cancelled)

/-! ## The order -/

variable {p policy bus} {l : List SubscriptionEntry}

theorem priority_trans (a b c : SubscriptionEntry) (h : decide (b.priority ≤ a.priority) = true)
    (h' : decide (c.priority ≤ b.priority) = true) : decide (c.priority ≤ a.priority) = true := by
  simp only [decide_eq_true_eq] at *
  exact h'.trans h

theorem priority_total (a b : SubscriptionEntry) :
    (decide (b.priority ≤ a.priority) || decide (a.priority ≤ b.priority)) = true := by
  simpa using le_total b.priority a.priority

/-- The sort is stable: the entries of one priority stay in the order of subscription. -/
theorem filter_sorted (l : List SubscriptionEntry) (v : ℤ) :
    (sorted l).filter (·.priority = v) = l.filter (·.priority = v) := by
  have hpairs : (l.filter (·.priority = v)).Pairwise fun e e' =>
      decide (e'.priority ≤ e.priority) = true := by
    refine pairwise_of_forall_mem_list fun e he e' he' => ?_
    have hv := (mem_filter.mp he).2
    have hv' := (mem_filter.mp he').2
    simp only [decide_eq_true_eq] at hv hv' ⊢
    rw [hv, hv']
  have hsub := (sublist_mergeSort priority_trans priority_total hpairs
    filter_sublist).filter (·.priority = v)
  rw [filter_filter] at hsub
  simp only [Bool.and_self] at hsub
  exact (hsub.eq_of_length ((mergeSort_perm l _).filter _).length_eq.symm).symm

theorem pairwise_sorted (h : l.Pairwise fun e e' => e.id < e'.id) :
    (sorted l).Pairwise Before := by
  have hle := pairwise_mergeSort priority_trans priority_total l
  rw [pairwise_iff_forall_sublist] at h hle ⊢
  intro a b hab
  have hpriority : b.priority ≤ a.priority := by simpa using hle hab
  rcases hpriority.lt_or_eq with hlt | heq
  · exact .inl hlt
  · have hfilter := hab.filter fun e => decide (e.priority = a.priority)
    rw [filter_sorted] at hfilter
    simp only [filter_cons, heq, decide_true, if_true, filter_nil] at hfilter
    exact .inr ⟨heq, h (hfilter.trans filter_sublist)⟩

/-! ## The loop -/

/-- Filters that do not raise select what is active and matching. -/
theorem select_quiet (h : ∀ e ∈ l, p.consults e = true → ∃ keep, p.ask e = .ok keep) :
    ∃ entries, p.select l = .ok entries ∧ entries.Sublist l ∧
      ∀ e, e ∈ entries ↔ e ∈ l ∧ p.Keeps e := by
  induction l with
  | nil => exact ⟨[], rfl, .slnil, by simp⟩
  | cons e rest ih =>
    obtain ⟨entries, hselect, hsub, hmem⟩ := ih fun e he => h e (mem_cons_of_mem _ he)
    unfold select
    by_cases hconsults : p.consults e = true
    · obtain ⟨keep, hask⟩ := h e mem_cons_self hconsults
      have hkeep : p.Keeps e ↔ keep = true := by simp [Keeps, hconsults, hask]
      refine ⟨if keep then e :: entries else entries, ?_, ?_, fun e' => ?_⟩
      · rw [if_pos hconsults, hask, hselect]
        rfl
      · split_ifs
        · exact hsub.cons_cons e
        · exact hsub.cons e
      · have hother := hmem e'
        by_cases heq : e' = e
        · subst heq
          cases keep <;> simp [hkeep, hother]
        · cases keep <;> simp [heq, hother]
    · have hkeep : ¬p.Keeps e := fun hkeep => hconsults hkeep.1
      refine ⟨entries, by rw [if_neg hconsults, hselect], hsub.cons e, fun e' => ?_⟩
      rw [hmem, mem_cons, or_and_right, or_iff_right]
      rintro ⟨rfl, h'⟩
      exact hkeep h'

theorem dispatchLoop_failFast (bus : Bus) :
    (p.dispatchLoop .failFast l bus []).invoked = (p.upToFailure l).map (·.id) ∧
      (p.dispatchLoop .failFast l bus []).outcome = p.firstFailure l := by
  induction l generalizing bus with
  | nil => exact ⟨rfl, rfl⟩
  | cons e rest ih =>
    unfold dispatchLoop upToFailure firstFailure
    cases houtcome : p.outcome e.id with
    | ok u => exact ⟨congrArg (e.id :: ·) (ih _).1, (ih _).2⟩
    | error exc => cases exc <;> exact ⟨rfl, rfl⟩

/-- Without an interruption, the loop comes to its end. -/
theorem dispatchLoop_all (hpolicy : policy ≠ .failFast) (bus : Bus) (errors : List PyException)
    (h : ∀ e ∈ l, p.outcome e.id ≠ .error .cancelled) :
    (p.dispatchLoop policy l bus errors).invoked = l.map (·.id) ∧
      (p.dispatchLoop policy l bus errors).outcome =
        p.report (if policy = .collectAll then errors ++ l.filterMap p.errorOf else errors) := by
  induction l generalizing bus errors with
  | nil => simp [dispatchLoop]
  | cons e rest ih =>
    have hrest : ∀ e ∈ rest, p.outcome e.id ≠ .error .cancelled :=
      fun e he => h e (mem_cons_of_mem _ he)
    have he := h e mem_cons_self
    unfold dispatchLoop
    cases houtcome : p.outcome e.id with
    | ok u =>
      have herror : p.errorOf e = none := by simp [errorOf, houtcome]
      rw [filterMap_cons_none herror]
      exact ⟨congrArg (e.id :: ·) (ih _ _ hrest).1, (ih _ _ hrest).2⟩
    | error exc =>
      cases exc with
      | cancelled => exact absurd houtcome he
      | error exc =>
        have herror : p.errorOf e = some exc := by simp [errorOf, houtcome]
        rw [filterMap_cons_some herror]
        cases policy with
        | failFast => exact absurd rfl hpolicy
        | collectAll =>
          obtain ⟨hinvoked, hend⟩ := ih ((p.ops e.id).foldl Bus.perform bus) (errors ++ [exc]) hrest
          refine ⟨congrArg (e.id :: ·) hinvoked, hend.trans ?_⟩
          simp
        | fireForget => exact ⟨congrArg (e.id :: ·) (ih _ _ hrest).1, (ih _ _ hrest).2⟩

end Publish

/-! ## The bus -/

/-- The entries of a bus are in the order in which they were created. -/
structure Bus.Good (bus : Bus) : Prop where
  ordered : bus.subscriptions.Pairwise fun e e' => e.id < e'.id
  below : ∀ e ∈ bus.subscriptions, e.id < bus.created

variable {bus : Bus} {policy : ErrorPolicy}

theorem Bus.Good.perform (h : bus.Good) (op : HandlerOp) : (bus.perform op).Good := by
  cases op with
  | subscribe eventType channel filtered priority =>
    constructor
    · refine pairwise_append.mpr ⟨h.ordered, pairwise_singleton _ _, ?_⟩
      intro e he e' he'
      obtain rfl := mem_singleton.mp he'
      exact h.below e he
    · intro e he
      rcases mem_append.mp he with he | he
      · exact Nat.lt_succ_of_lt (h.below e he)
      · obtain rfl := mem_singleton.mp he
        exact Nat.lt_succ_self _
  | cancel id =>
    have hid : ∀ e : SubscriptionEntry,
        (if e.id = id then { e with cancelled := true } else e).id = e.id := by
      intro e
      split_ifs <;> rfl
    constructor
    · exact pairwise_map.mpr (h.ordered.imp fun hlt => by rwa [hid, hid])
    · intro e he
      obtain ⟨e', he', rfl⟩ := mem_map.mp he
      rw [hid]
      exact h.below e' he'

theorem Bus.Good.performs (h : bus.Good) (ops : List HandlerOp) :
    (ops.foldl Bus.perform bus).Good := by
  induction ops generalizing bus with
  | nil => exact h
  | cons op ops ih => exact ih (h.perform op)

theorem Bus.Good.dispatchLoop (h : bus.Good) (p : Publish) (l : List SubscriptionEntry)
    (errors : List PyException) : (p.dispatchLoop policy l bus errors).bus.Good := by
  induction l generalizing bus errors with
  | nil => exact h
  | cons e rest ih =>
    have hops := h.performs (p.ops e.id)
    unfold Publish.dispatchLoop
    cases p.outcome e.id with
    | ok u => exact ih hops errors
    | error exc =>
      cases exc with
      | cancelled => exact hops
      | error exc =>
        cases policy with
        | failFast => exact hops
        | collectAll => exact ih hops _
        | fireForget => exact ih hops _

theorem Bus.Good.flush (h : bus.Good) : bus.flush.Good :=
  ⟨h.ordered.sublist filter_sublist, fun e he => h.below e (mem_of_mem_filter he)⟩

theorem Bus.Good.step (h : bus.Good) (call : Call) : (bus.step policy call).Good := by
  cases call with
  | op op => exact h.perform op
  | publish p =>
    change (p.run policy bus).bus.Good
    unfold Publish.run
    cases p.select bus.flush.subscriptions with
    | error exc => exact h.flush
    | ok entries => exact h.flush.dispatchLoop p _ _

/-- **The entries stay in order**, whatever is called. -/
theorem good_after (policy : ErrorPolicy) (calls : List Call) : (after policy calls).Good := by
  have hfold : ∀ bus : Bus, bus.Good → (calls.foldl (Bus.step policy) bus).Good := by
    induction calls with
    | nil => exact fun bus h => h
    | cons call calls ih => exact fun bus h => ih _ (h.step call)
  exact hfold {} ⟨List.Pairwise.nil, fun e he => absurd he not_mem_nil⟩

/-- **A publish does what is asked of it** where it is quiet. -/
theorem Bus.Good.meets (h : bus.Good) {p : Publish} (hquiet : p.Quiet policy bus) :
    p.Meets policy bus := by
  obtain ⟨entries, hselect, hsub, hmem⟩ := Publish.select_quiet (p := p)
    (l := bus.flush.subscriptions) fun e he => hquiet.1 e (mem_of_mem_filter he)
  have hrun : p.run policy bus =
      p.dispatchLoop policy (Publish.sorted entries) bus.flush [] := by
    unfold Publish.run
    rw [hselect]
  have horder : ∀ e, e ∈ Publish.sorted entries ↔ p.Matches bus e := by
    intro e
    rw [Publish.sorted, mem_mergeSort, hmem]
    refine and_congr_left fun hkeeps => ⟨mem_of_mem_filter, fun he => ?_⟩
    have hactive : (!e.cancelled) = true := by
      have hconsults := hkeeps.1
      simp only [Publish.consults, Bool.and_eq_true] at hconsults
      exact hconsults.1.1
    exact mem_filter.mpr ⟨he, hactive⟩
  have hall : policy ≠ .failFast →
      ∀ e ∈ Publish.sorted entries, p.outcome e.id ≠ .error .cancelled := by
    intro hpolicy e he
    exact hquiet.2.resolve_left hpolicy e ((horder e).mp he)
  refine ⟨Publish.sorted entries, horder,
    Publish.pairwise_sorted (h.flush.ordered.sublist hsub), ?_, ?_, ?_⟩
  · rintro rfl
    rw [hrun]
    exact Publish.dispatchLoop_failFast _
  · rintro rfl
    rw [hrun]
    exact Publish.dispatchLoop_all (by decide) _ [] (hall (by decide))
  · rintro rfl
    rw [hrun]
    exact Publish.dispatchLoop_all (by decide) _ [] (hall (by decide))

/-- **Every publish of a run reaches its subscribers** once and in order, and reports their errors,
if none of them asks a filter that raises, or is interrupted in a handler. -/
theorem publishes_meet (policy : ErrorPolicy) (calls : List Call)
    (hquiet : ∀ before p rest, calls = before ++ Call.publish p :: rest →
      p.Quiet policy (after policy before)) :
    ∀ before p rest, calls = before ++ Call.publish p :: rest →
      p.Meets policy (after policy before) :=
  fun before p rest hcalls => (good_after policy before).meets (hquiet before p rest hcalls)

/-- Three subscribers, of which the last one is cancelled, and the one of higher priority raises. -/
theorem publishes_meet_order :
    let p : Publish := ⟨.ofEvent "OrderPlaced" none, "default", fun _ => .ok true, fun _ => [],
      fun id => if id = 1 then .error (.error ⟨"ValueError", "total"⟩) else .ok ()⟩
    let subscribe : ℤ → Call := fun priority =>
      .op (.subscribe (.ofClass none) "*" true priority)
    let calls := [subscribe 0, subscribe 5, subscribe 9, .op (.cancel 2)]
    p.Meets .collectAll (after .collectAll calls) := by
  intro p subscribe calls
  refine publishes_meet .collectAll (calls ++ [Call.publish p]) ?_ calls p [] rfl
  intro before p' rest hcalls
  have hmem : Call.publish p' ∈ calls ++ [.publish p] := by
    rw [hcalls]
    simp
  obtain rfl : p' = p := by simpa [calls, subscribe] using hmem
  refine ⟨fun e _ _ => ⟨true, ?_⟩, .inr fun e _ hinterrupted => ?_⟩
  · unfold Publish.ask
    split_ifs <;> rfl
  · by_cases hid : e.id = 1 <;> simp [p, hid] at hinterrupted

/-- A filter that raises keeps another subscriber from its event. -/
theorem filter_ends_dispatch :
    let p : Publish := ⟨.ofEvent "OrderPlaced" none, "default",
      fun _ => .error (.error ⟨"AttributeError", "total"⟩), fun _ => [], fun _ => .ok ()⟩
    let bus := after .collectAll [.op (.subscribe (.ofClass none) "*" true 0),
      .op (.subscribe (.ofClass none) "*" false 0)]
    (p.run .collectAll bus).invoked = [] ∧ p.Matches bus ⟨1, .ofClass none, "*", false, 0, false⟩ ∧
      ¬p.Meets .collectAll bus := by
  intro p bus
  have hmatches : p.Matches bus ⟨1, .ofClass none, "*", false, 0, false⟩ :=
    ⟨by decide, by decide, rfl⟩
  refine ⟨rfl, hmatches, ?_⟩
  rintro ⟨order, horder, -, -, hall, -⟩
  have hmem := mem_map_of_mem (f := (·.id)) ((horder _).mpr hmatches)
  rw [← (hall rfl).1] at hmem
  exact absurd hmem not_mem_nil

end Varco.InMemoryEventBus
