import Varco.Event.DeadLetterQueue
import Varco.Foundations.Batch

/-!
# Redriving dead letters

`DlqRedriver.redrive_batch` of `varco_core.event.redrive`, as a program over the queue and the bus:
the entries are read, and each of them is published again and then acknowledged, or left. Whatever
the queue and the bus answer, the log of a batch is made of one block for each entry.

`EntryRedriven` is the decision table for one entry, and `redriven_iff` says when a batch follows it
to its end: an entry with an event and no channel to publish it to is not left like the others that
cannot be redriven, it raises out of the batch.
-/

namespace Varco

open List

variable {E W Q : Type}

/-- What the redriver asks of the queue and of the bus. -/
inductive RedriveCmd (E : Type)
  | listEntries (limit : ℤ) (channel : Option String) (source : Option DeadLetterSource)
      (tenantId : Option String)
  | popBatch (limit : ℤ)
  | publish (event : E) (channel : String)
  | ack (entryId : UUID)

abbrev RedriveCmd.Res (W : Type) : RedriveCmd E → Type
  | .listEntries .. => Except PyException (List (DeadLetter E W))
  | .popBatch _ => Except PyException (List (DeadLetter E W))
  | .publish .. => Except PyException Unit
  | .ack _ => Except PyException Unit

abbrev RedriveEntry (Q E W : Type) := Entry Q (RedriveCmd E) (RedriveCmd.Res W)

abbrev Redriving (E W α : Type) := ExceptT PyException (Prog (RedriveCmd E) (RedriveCmd.Res W)) α

namespace Redriving

/-- `dlq.list_entries(...)`, with what it raised as a value. -/
def listEntries (limit : ℤ) (channel : Option String) (source : Option DeadLetterSource)
    (tenantId : Option String) :
    Redriving E W (Except PyException (List (DeadLetter E W))) :=
  Prog.call (C := RedriveCmd E) (.listEntries limit channel source tenantId)

/-- `dlq.pop_batch(limit=...)` -/
def popBatch (limit : ℤ) : Redriving E W (List (DeadLetter E W)) := Prog.await (.popBatch limit) id

/-- `bus.publish(event, channel=...)`, with what it raised as a value. -/
def publish (event : E) (channel : String) : Redriving E W (Except PyException Unit) :=
  Prog.call (C := RedriveCmd E) (.publish event channel)

/-- `dlq.ack(entry_id)` -/
def ack (entryId : UUID) : Redriving E W Unit := Prog.await (.ack entryId) id

end Redriving

/-- Outcome of one entry's redrive attempt. -/
structure RedriveOutcome where
  entryId : UUID
  published : Bool
  acked : Bool
  error : Option String := none
  deriving DecidableEq

/-- Aggregate outcome of a `redrive_batch()` call. -/
structure RedriveReport where
  attempted : ℕ
  succeeded : ℕ
  failed : ℕ
  outcomes : List RedriveOutcome := []
  dryRun : Bool := false
  deriving DecidableEq

/-- `NotImplementedError`: the queue has no random access. -/
def PyException.isNotImplemented (exc : PyException) : Bool := exc.typeName = "NotImplementedError"

structure DlqRedriver where
  defaultChannel : Option String := none

namespace DlqRedriver

/-- `entry.channel or self._default_channel`, where an empty text is no channel. -/
def channelOf (r : DlqRedriver) (entry : DeadLetter E W) : Option String :=
  if entry.channel ≠ "" then some entry.channel
  else r.defaultChannel.filter (· ≠ "")

/-- The text of the `ValueError` for an entry without a channel. -/
def noChannel (entryId : UUID) : PyException :=
  .valueError ("DeadLetterEntry " ++ entryId.str ++ " has no channel and no " ++
    "default_channel was configured on this DlqRedriver.")

def redriveEntry (r : DlqRedriver) (dryRun : Bool) (entry : DeadLetter E W) :
    Redriving E W RedriveOutcome :=
  if entry.source = .job then
    pure ⟨entry.entryId, false, false, some "job-sourced entry; re-enqueue via the job store"⟩
  else match entry.event with
    | none => pure ⟨entry.entryId, false, false, some "payload-only entry; not republishable"⟩
    | some event =>
      match r.channelOf entry with
      | none => throw (noChannel entry.entryId)
      | some channel =>
        if dryRun then pure ⟨entry.entryId, false, false, none⟩
        else do
          match ← Redriving.publish event channel with
          | .error exc => pure ⟨entry.entryId, false, false, some exc.message⟩
          | .ok () => do
            Redriving.ack entry.entryId
            pure ⟨entry.entryId, true, true, none⟩

def reportOf (outcomes : List RedriveOutcome) (dryRun : Bool) : RedriveReport :=
  let succeeded := outcomes.countP fun o => o.published || (dryRun && o.error.isNone)
  { attempted := outcomes.length
    succeeded := succeeded
    failed := outcomes.length - succeeded
    outcomes := outcomes
    dryRun := dryRun }

/-- `list_entries()`, or `pop_batch()` where the queue has none. -/
def readEntries (limit : ℤ) (channel : Option String) (source : Option DeadLetterSource)
    (tenantId : Option String) : Redriving E W (List (DeadLetter E W)) := do
  match ← Redriving.listEntries limit channel source tenantId with
  | .ok entries => pure entries
  | .error exc =>
    if exc.isNotImplemented then Redriving.popBatch limit
    else throw exc

/-- Redrive up to `limit` entries. -/
def redriveBatch (r : DlqRedriver) (limit : ℤ) (channel : Option String)
    (source : Option DeadLetterSource) (tenantId : Option String) (dryRun : Bool) :
    Redriving E W RedriveReport := do
  let entries ← readEntries limit channel source tenantId
  let outcomes ← Prog.forEach (r.redriveEntry dryRun) entries
  pure (reportOf outcomes dryRun)

/-! ## The decision table -/

/-- The entry can be redriven: an event, and a channel to publish it to. -/
def Redrivable (r : DlqRedriver) (entry : DeadLetter E W) (event : E) (channel : String) : Prop :=
  entry.source ≠ .job ∧ entry.event = some event ∧ r.channelOf entry = some channel

def Unaddressed (r : DlqRedriver) (entry : DeadLetter E W) : Prop :=
  entry.source ≠ .job ∧ entry.event.isSome ∧ r.channelOf entry = none

/-- What is done for one entry, and its outcome: an entry that cannot be redriven is left, in a dry
run every entry is; one whose publish fails is not acknowledged; and an entry is acknowledged after
its own publish succeeded. -/
inductive EntryRedriven (r : DlqRedriver) (dryRun : Bool) (entry : DeadLetter E W) :
    List (RedriveEntry Q E W) → RedriveOutcome → Prop
  | left (why : String) (h : ¬∃ event channel, r.Redrivable entry event channel) :
      EntryRedriven r dryRun entry [] ⟨entry.entryId, false, false, some why⟩
  | dry {event : E} {channel : String} (h : r.Redrivable entry event channel)
      (hdry : dryRun = true) : EntryRedriven r dryRun entry [] ⟨entry.entryId, false, false, none⟩
  | failed {event : E} {channel : String} (h : r.Redrivable entry event channel)
      (hdry : dryRun = false) (q : Q) (exc : PyException) :
      EntryRedriven r dryRun entry [⟨q, .publish event channel, .error exc⟩]
        ⟨entry.entryId, false, false, some exc.message⟩
  | redriven {event : E} {channel : String} (h : r.Redrivable entry event channel)
      (hdry : dryRun = false) (q q' : Q) :
      EntryRedriven r dryRun entry
        [⟨q, .publish event channel, .ok ()⟩, ⟨q', .ack entry.entryId, .ok ()⟩]
        ⟨entry.entryId, true, true, none⟩

/-- What was asked of the queue to read the entries. -/
inductive ReadLog (entries : List (DeadLetter E W)) : List (RedriveEntry Q E W) → Prop
  | listed (q : Q) (limit : ℤ) (channel : Option String) (source : Option DeadLetterSource)
      (tenantId : Option String) :
      ReadLog entries [⟨q, .listEntries limit channel source tenantId, .ok entries⟩]
  | popped (q q' : Q) (limit : ℤ) (channel : Option String) (source : Option DeadLetterSource)
      (tenantId : Option String) (exc : PyException) (h : exc.isNotImplemented = true) :
      ReadLog entries [⟨q, .listEntries limit channel source tenantId, .error exc⟩,
        ⟨q', .popBatch limit, .ok entries⟩]

/-- The batch went as the decision table says: every entry read was tried, and the report has one
outcome for each of them, in order. -/
def Redriven (r : DlqRedriver) (dryRun : Bool) (log : List (RedriveEntry Q E W))
    (result : Except PyException RedriveReport) : Prop :=
  ∃ entries reading blocks outcomes, ReadLog entries reading ∧ log = reading ++ blocks ∧
    Prog.Blocks (EntryRedriven r dryRun) entries blocks outcomes ∧
    result = .ok (reportOf outcomes dryRun)

def AckRaised (x : RedriveEntry Q E W) : Prop :=
  ∃ q id exc, x = ⟨q, .ack id, .error exc⟩

/-- The entries could be read, none of them is without a channel, and no acknowledgement raised. -/
def Addressed (r : DlqRedriver) (log : List (RedriveEntry Q E W)) : Prop :=
  (∃ entries reading rest, ReadLog entries reading ∧ log = reading ++ rest ∧
    ∀ entry ∈ entries, ¬r.Unaddressed entry) ∧ ∀ x ∈ log, ¬AckRaised x

/-! ## One entry -/

variable {r : DlqRedriver} {dryRun : Bool}

/-- A block that ends the batch: the entry has no channel, or its acknowledgement raised. -/
def Stops (r : DlqRedriver) (entry : DeadLetter E W) (block : List (RedriveEntry Q E W))
    (_ : PyException) : Prop :=
  r.Unaddressed entry ∨ ∃ x ∈ block, AckRaised x

def Follows (r : DlqRedriver) (dryRun : Bool) (entry : DeadLetter E W)
    (block : List (RedriveEntry Q E W)) (outcome : RedriveOutcome) : Prop :=
  EntryRedriven r dryRun entry block outcome ∧ ¬r.Unaddressed entry

theorem redriveEntry_block (entry : DeadLetter E W) (log : List (RedriveEntry Q E W)) :
    Prog.Local (fun _ _ _ => True) (fun _ _ => True)
      (fun l result => Prog.Block (Follows r dryRun) (Stops r) entry log l result)
      (r.redriveEntry dryRun entry).run log := by
  have hleft : ∀ why, (¬∃ event channel, r.Redrivable entry event channel) →
      ¬r.Unaddressed entry → Prog.Local (fun _ _ _ => True) (fun _ _ => True)
        (fun l result => Prog.Block (Follows r dryRun) (Stops r) entry log l result)
        (pure ⟨entry.entryId, false, false, some why⟩ : Redriving E W RedriveOutcome).run log := by
    intro why hno haddressed
    refine Prog.Local.pure_ok ⟨fun b hb => ?_, by rintro _ ⟨⟩⟩
    cases hb
    exact ⟨[], (append_nil log).symm, .left why hno, haddressed⟩
  unfold redriveEntry
  by_cases hjob : entry.source = .job
  · rw [if_pos hjob]
    refine hleft _ ?_ ?_
    · rintro ⟨event, channel, h⟩
      exact h.1 hjob
    · exact fun h => h.1 hjob
  · rw [if_neg hjob]
    split
    · rename_i hevent
      refine hleft _ ?_ ?_
      · rintro ⟨event, channel, -, h, -⟩
        cases hevent.symm.trans h
      · rintro ⟨-, h, -⟩
        simp [hevent] at h
    · rename_i event hevent
      split
      · rename_i hchannel
        refine Prog.Local.throw ⟨by rintro _ ⟨⟩, fun e he => ?_⟩
        refine ⟨[], (append_nil log).symm, Or.inl ⟨hjob, ?_, hchannel⟩⟩
        simp [hevent]
      · rename_i channel hchannel
        have hcan : r.Redrivable entry event channel := ⟨hjob, hevent, hchannel⟩
        have haddressed : ¬r.Unaddressed entry := fun h => by
          cases hchannel.symm.trans h.2.2
        split_ifs with hdry
        · refine Prog.Local.pure_ok ⟨fun b hb => ?_, by rintro _ ⟨⟩⟩
          cases hb
          exact ⟨[], (append_nil log).symm, .dry hcan hdry, haddressed⟩
        · have hdry : dryRun = false := by simpa using hdry
          refine Prog.Local.call trivial fun q answer _ => ?_
          rcases answer with exc | _
          · refine Prog.Local.pure_ok ⟨fun b hb => ?_, by rintro _ ⟨⟩⟩
            cases hb
            exact ⟨_, rfl, .failed hcan hdry q exc, haddressed⟩
          · refine Prog.Local.bindAwait trivial (fun q' answer u _ hok => ?_)
              fun q' answer exc herr => ?_
            · obtain rfl : answer = .ok u := hok
              refine Prog.Local.pure_ok ⟨fun b hb => ?_, by rintro _ ⟨⟩⟩
              cases hb
              exact ⟨_, append_assoc .., .redriven hcan hdry q q', haddressed⟩
            · obtain rfl : answer = .error exc := herr
              refine ⟨by rintro _ ⟨⟩, fun e he => ?_⟩
              refine ⟨_, append_assoc .., Or.inr ⟨_, ?_, q', entry.entryId, exc, rfl⟩⟩
              simp

/-! ## The batch -/

/-- A block that follows the table has no acknowledgement that raised. -/
theorem EntryRedriven.not_ackRaised {entry : DeadLetter E W} {block : List (RedriveEntry Q E W)}
    {outcome : RedriveOutcome} (h : EntryRedriven r dryRun entry block outcome) :
    ∀ x ∈ block, ¬AckRaised x := by
  rintro x hx ⟨q, id, exc, rfl⟩
  cases h with
  | left why h => cases hx
  | dry h hdry => cases hx
  | failed h hdry q' exc' => cases mem_singleton.mp hx
  | redriven h hdry q₁ q₂ =>
    rcases mem_cons.mp hx with heq | hx
    · cases heq
    · cases mem_singleton.mp hx

theorem ReadLog.unique {es es' : List (DeadLetter E W)} {a b x y : List (RedriveEntry Q E W)}
    (h : ReadLog es a) (h' : ReadLog es' b) (heq : a ++ x = b ++ y) : es = es' ∧ a = b := by
  cases h with
  | listed q limit channel source tenantId =>
    cases h' with
    | listed q' limit' channel' source' tenantId' =>
      cases List.cons.inj heq |>.1
      exact ⟨rfl, rfl⟩
    | popped q' q'' limit' channel' source' tenantId' exc hexc => cases List.cons.inj heq |>.1
  | popped q q' limit channel source tenantId exc hexc =>
    cases h' with
    | listed q₁ limit' channel' source' tenantId' => cases List.cons.inj heq |>.1
    | popped q₁ q₂ limit' channel' source' tenantId' exc' hexc' =>
      obtain ⟨hfirst, hrest⟩ := List.cons.inj heq
      cases hfirst
      cases List.cons.inj hrest |>.1
      exact ⟨rfl, rfl⟩

def ReadFailed (log : List (RedriveEntry Q E W)) : Prop :=
  ∀ (entries : List (DeadLetter E W)) reading rest, ReadLog entries reading →
    log ≠ reading ++ rest

theorem readEntries_local (limit : ℤ) (channel : Option String) (source : Option DeadLetterSource)
    (tenantId : Option String) :
    Prog.Local (fun _ _ _ => True) (fun _ _ => True)
      (fun (l : List (RedriveEntry Q E W)) result =>
        (∀ entries, result = .ok entries → ReadLog entries l) ∧
          ∀ exc, result = .error exc → ReadFailed l)
      (readEntries limit channel source tenantId).run [] := by
  refine Prog.Local.call trivial fun q answer _ => ?_
  rcases answer with exc | entries
  · dsimp only
    split_ifs with hnot
    · refine Prog.Local.await trivial fun q' answer' _ =>
        ⟨fun entries hok => ?_, fun exc' herr => ?_⟩
      · obtain rfl : answer' = .ok entries := hok
        exact .popped q q' limit channel source tenantId exc hnot
      · obtain rfl : answer' = .error exc' := herr
        rintro entries reading rest hread heq
        cases hread with
        | listed => cases List.cons.inj heq |>.1
        | popped => cases List.cons.inj (List.cons.inj heq).2 |>.1
    · refine Prog.Local.throw ⟨by rintro _ ⟨⟩, fun exc' herr => ?_⟩
      rintro entries reading rest hread heq
      cases hread with
      | listed => cases List.cons.inj heq |>.1
      | popped => cases List.cons.inj heq |>.2
  · refine Prog.Local.pure_ok ⟨fun entries' hok => ?_, by rintro _ ⟨⟩⟩
    cases hok
    exact .listed q limit channel source tenantId

/-- **A batch in terms of its log.** -/
theorem redriveBatch_local (r : DlqRedriver) (limit : ℤ) (channel : Option String)
    (source : Option DeadLetterSource) (tenantId : Option String) (dryRun : Bool) :
    Prog.Local (fun _ _ _ => True) (fun _ _ => True)
      (fun (l : List (RedriveEntry Q E W)) result => r.Redriven dryRun l result ↔ r.Addressed l)
      (r.redriveBatch limit channel source tenantId dryRun).run [] := by
  refine Prog.Local.bindExcept (Prog.Local.mono (readEntries_local limit channel source tenantId)
    fun reading result hread => ?_)
  cases result with
  | error exc =>
    have hfailed := hread.2 exc rfl
    constructor
    · rintro ⟨entries, reading', blocks, outcomes, hlog, heq, -⟩
      exact absurd heq (hfailed entries reading' blocks hlog)
    · rintro ⟨⟨entries, reading', rest, hlog, heq, -⟩, -⟩
      exact absurd heq (hfailed entries reading' rest hlog)
  | ok entries =>
    have hlog := hread.1 entries rfl
    have hreads : ∀ x ∈ reading, ¬AckRaised x := by
      rintro x hx ⟨q, id, exc, rfl⟩
      cases hlog with
      | listed => cases mem_singleton.mp hx
      | popped =>
        rcases mem_cons.mp hx with heq | hx
        · cases heq
        · cases mem_singleton.mp hx
    refine Prog.Local.bindExcept (Prog.Local.mono (Prog.Local.forEach redriveEntry_block entries
      reading) fun l result hblocks => ?_)
    cases result with
    | error exc =>
      obtain ⟨block, rfl, as₁, entry, as₂, log₁, outcomes, block₂, rfl, -, hstops, rfl⟩ :=
        hblocks.error exc rfl
      constructor
      · rintro ⟨_, _, _, _, _, _, _, h⟩
        cases h
      · rintro ⟨⟨entries', reading', rest, hlog', heq, haddressed⟩, hacks⟩
        obtain ⟨rfl, -⟩ := hlog.unique hlog' heq
        rcases hstops with hun | ⟨x, hx, hraised⟩
        · exact absurd hun (haddressed entry (by simp))
        · exact absurd hraised (hacks x (by simp [hx]))
    | ok outcomes =>
      obtain ⟨block, rfl, hgood⟩ := hblocks.ok outcomes rfl
      refine Prog.Local.pure_ok
        ⟨fun _ => ⟨⟨entries, reading, block, hlog, rfl, ?_⟩, ?_⟩, fun _ => ?_⟩
      · intro entry hentry
        obtain ⟨_, _, -, haddressed⟩ := hgood.exists_of_mem hentry
        exact haddressed
      · intro x hx
        rcases mem_append.mp hx with hx | hx
        · exact hreads x hx
        · obtain ⟨entry, -, b, outcome, hfollows, hxb⟩ := hgood.block_of_mem hx
          exact hfollows.1.not_ackRaised x hxb
      · exact ⟨entries, reading, block, outcomes, hlog, rfl, hgood.mono fun _ _ _ h => h.1, rfl⟩

/-- **Redriving loses nothing and goes entry by entry exactly when** the entries can be read, each
entry with an event that no job left has a channel to go to, and no acknowledgement raises: for
every queue and every bus, in every state. -/
theorem redriven_iff {σ : Type} (exec : Q → (c : RedriveCmd E) → σ → c.Res W × σ) (s : σ)
    (xs : ℕ → Q) (r : DlqRedriver) (limit : ℤ) (channel : Option String)
    (source : Option DeadLetterSource) (tenantId : Option String) (dryRun : Bool) :
    let run := Prog.run exec (r.redriveBatch limit channel source tenantId dryRun).run s xs
    r.Redriven dryRun run.1 run.2.1 ↔ r.Addressed run.1 :=
  (redriveBatch_local r limit channel source tenantId dryRun).of_run
    (fun _ _ _ => trivial) s xs

/-! ## An entry without a channel -/

/-- Two events that a consumer gave up; the first has lost its channel. -/
def unaddressedBatch : List (DeadLetter Unit Unit) :=
  [{ entryId := 1, event := some (), firstFailedAt := 0, lastFailedAt := 0 },
    { entryId := 2, channel := "orders", event := some (), firstFailedAt := 0, lastFailedAt := 0 }]

def answerUnaddressed : (c : RedriveCmd Unit) → c.Res Unit
  | .listEntries .. => .ok unaddressedBatch
  | .popBatch _ => .ok []
  | .publish .. => .ok ()
  | .ack _ => .ok ()

/-- **The batch is lost**: nothing is published, and there is no report. -/
theorem batch_lost :
    ¬Redriven ({} : DlqRedriver) false
      (Prog.run (fun (_ : Unit) c (s : Unit) => (answerUnaddressed c, s))
        (redriveBatch {} 10 none none none false).run () fun _ => ()).1
      (Prog.run (fun (_ : Unit) c (s : Unit) => (answerUnaddressed c, s))
        (redriveBatch {} 10 none none none false).run () fun _ => ()).2.1 := by
  rintro ⟨_, _, _, _, _, _, _, h⟩
  have hraised : (Prog.run (fun (_ : Unit) c (s : Unit) => (answerUnaddressed c, s))
      (redriveBatch {} 10 none none none false).run () fun _ => ()).2.1 =
      .error (noChannel 1) := rfl
  cases hraised.symm.trans h

end DlqRedriver

end Varco
