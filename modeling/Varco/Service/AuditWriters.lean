import Varco.Foundations.Run
import Varco.Service.AuditChain

/-!
# Concurrent writers of the audit chain

`_save_chained` of `SAAuditRepository` and of `BeanieAuditRepository`, statement by statement, in
any number of processes. The row that `SELECT ... FOR UPDATE` locks is one that it has picked before
it waits: the chain stays one as long as no call commits between the `SELECT` of another and its
commit, and as the table does not hold chained and unchained rows at once
(`SAAuditRepository.Invariant.step`). The counter of MongoDB orders the numbers, and not the
insertions: the chain stays one as long as the predecessor of an entry is there when it is looked
for (`BeanieAuditRepository.Invariant.step`).
-/

namespace Varco

open Function List

/-- The row has a `seq`. -/
def AuditEntryModel.isNumbered (row : AuditEntryModel) : Bool := row.entry.seq.isSome

namespace AuditRepository

/-- The rows with a `seq` are one chain: their numbers are distinct and contiguous, and
`verify_chain` finds nothing. -/
structure OneChain (sha256 : String → String) (rows : List AuditEntryModel) : Prop where
  distinct : ((rows.filter (·.isNumbered)).map (·.entry.seq)).Nodup
  contiguous : ∃ m : ℤ, ((rows.filter (·.isNumbered)).map (·.entry.seq)).Perm
    ((List.range (rows.filter (·.isNumbered)).length).map fun i : ℕ => some (m + i))
  verified : verifyChain sha256 ((rows.filter (·.isNumbered)).map (·.toEntry)) = []

end AuditRepository

namespace SAAuditRepository

open AuditRepository

variable {sha256 : String → String} {rows chain : List AuditEntryModel} {prev : Option AuditEntry}
  {l : List AuditEntry}

/-! ## Chains among other rows -/

/-- The entries of a chain are numbered from that of the first on. -/
theorem seqs_of_findings (h : findings sha256 prev l = []) (hl : ∀ e ∈ l, e.seq.isSome) :
    ∃ m : ℤ, (∀ p n, prev = some p → p.seq = some n → l = [] ∨ m = n + 1) ∧
      l.map (·.seq) = (List.range l.length).map fun i : ℕ => some (m + i) := by
  induction l generalizing prev with
  | nil => exact ⟨0, fun _ _ _ _ => .inl rfl, rfl⟩
  | cons e l ih =>
    obtain ⟨hfollows, hrest⟩ := findings_cons.mp h
    obtain ⟨m, hm⟩ := Option.isSome_iff_exists.mp (hl e mem_cons_self)
    obtain ⟨m', hfirst, hseqs⟩ := ih hrest fun e he => hl e (mem_cons_of_mem _ he)
    refine ⟨m, ?_, ?_⟩
    · rintro p n rfl hn
      exact .inr (hfollows.seq n m hn hm)
    · rw [map_cons, length_cons, range_succ_eq_map, map_cons, map_map,
        hseqs, hm]
      refine congrArg₂ _ (by simp) ?_
      rcases hfirst e m rfl hm with rfl | rfl
      · rfl
      · refine map_congr_left fun i _ => ?_
        refine congrArg some ?_
        rw [Nat.cast_succ]
        omega

/-- **The rows of a chain are one chain** among rows without a `seq`. -/
theorem Chain.oneChain (h : Chain sha256 chain) (hperm : chain.Perm (rows.filter (·.isNumbered))) :
    OneChain sha256 rows := by
  obtain ⟨m, -, hseqs⟩ := seqs_of_findings h.linked fun e he => by
    obtain ⟨row, hrow, rfl⟩ := mem_map.mp he
    exact h.numbered row hrow
  have hcontiguous : ((rows.filter (·.isNumbered)).map (·.entry.seq)).Perm
      ((List.range (rows.filter (·.isNumbered)).length).map fun i : ℕ => some (m + i)) := by
    rw [← hperm.length_eq]
    refine (hperm.map _).symm.trans (List.Perm.of_eq ?_)
    rwa [map_map, length_map] at hseqs
  refine ⟨hcontiguous.nodup_iff.mpr (nodup_range.map fun i j hij => ?_), ⟨m, hcontiguous⟩,
    h.verifyChain_eq_nil (hperm.symm.map _)⟩
  have heq := Option.some.inj hij
  omega

/-! ## `SAAuditRepository._save_chained` -/

/-- How far a call of `_save_chained` is. `seen` are the rows that its `SELECT` has seen. -/
inductive SaveState
  | idle
  | waiting (seen : List AuditEntryModel) (row : AuditEntryModel)
  | selected (seen : List AuditEntryModel) (lastRow : Option AuditEntryModel) (locked : Bool)
  | inserted (seen : List AuditEntryModel) (lastRow : Option AuditEntryModel) (locked : Bool)
      (row : AuditEntryModel)

def SaveState.Holds : SaveState → UUID → Prop
  | .selected _ (some row) true, id => row.entry.entryId = id
  | .inserted _ (some row) true _, id => row.entry.entryId = id
  | _, _ => False

/-- What a call of `_save_chained` does next. -/
inductive Move
  | select (picked : Option AuditEntryModel)
  | lock
  | fallback (lastRow : Option AuditEntryModel)
  | insert (entry : AuditEntry)
  | commit
  | abort

/-- A step of a call, over the committed rows and the locks that the others do not hold. A committed
row does not change, so that the row is still there when its lock is taken. -/
inductive SaveStep (sha256 : String → String) (rows : List AuditEntryModel) (Free : UUID → Prop) :
    SaveState → Move → SaveState → Option AuditEntryModel → Prop
  | select {row : AuditEntryModel} (h : Selects rows (some row)) :
      SaveStep sha256 rows Free .idle (.select (some row)) (.waiting rows row) none
  | selectNone (h : Selects rows none) :
      SaveStep sha256 rows Free .idle (.select none) (.selected rows none true) none
  | lock {seen : List AuditEntryModel} {row : AuditEntryModel} (h : Free row.entry.entryId) :
      SaveStep sha256 rows Free (.waiting seen row) .lock (.selected seen (some row) true) none
  -- the locking `SELECT` has raised, and is made again without a lock
  | fallback {seen : List AuditEntryModel} {row : AuditEntryModel}
      {lastRow : Option AuditEntryModel} (h : Selects rows lastRow) :
      SaveStep sha256 rows Free (.waiting seen row) (.fallback lastRow)
        (.selected rows lastRow false) none
  | insert {seen : List AuditEntryModel} {lastRow : Option AuditEntryModel} {locked : Bool}
      {entry : AuditEntry} :
      SaveStep sha256 rows Free (.selected seen lastRow locked) (.insert entry)
        (.inserted seen lastRow locked (chained sha256 lastRow entry)) none
  | commit {seen : List AuditEntryModel} {lastRow : Option AuditEntryModel} {locked : Bool}
      {row : AuditEntryModel} (h : ∀ row' ∈ rows, row'.entry.entryId ≠ row.entry.entryId) :
      SaveStep sha256 rows Free (.inserted seen lastRow locked row) .commit .idle (some row)
  | abort {s : SaveState} : SaveStep sha256 rows Free s .abort .idle none

/-- The committed rows, and the calls of the processes, each of which has its own repository. -/
structure AuditTable (P : Type) where
  rows : List AuditEntryModel
  save : P → SaveState

variable {P : Type} [DecidableEq P] {t t' : AuditTable P} {a : P × Move}

def Step (sha256 : String → String) (t : AuditTable P) (a : P × Move) (t' : AuditTable P) : Prop :=
  ∃ s' committed, SaveStep sha256 t.rows (fun id => ∀ q ≠ a.1, ¬(t.save q).Holds id) (t.save a.1)
    a.2 s' committed ∧ t' = ⟨t.rows ++ committed.toList, update t.save a.1 s'⟩

def Unmixed (rows : List AuditEntryModel) : Prop :=
  (∀ row ∈ rows, row.isNumbered = true) ∨ ∀ row ∈ rows, row.isNumbered = false

/-- A call that commits is alone since its `SELECT`, and the table is not mixed. -/
def InTurn (t : AuditTable P) (a : P × Move) : Prop :=
  match a.2, t.save a.1 with
  | .commit, .inserted seen _ _ _ => t.rows = seen ∧ Unmixed t.rows
  | _, _ => True

/-- A table that holds a chain, or unchained rows, or both, or nothing. -/
structure Start (sha256 : String → String) (rows : List AuditEntryModel) : Prop where
  chain : ∃ chain, Chain sha256 chain ∧ chain.Perm (rows.filter (·.isNumbered))
  unchained : ∀ row ∈ rows, row.isNumbered = false → row.entryHash = none

/-- What a call has read is what its `SELECT` has picked. -/
def SaveState.Consistent (sha256 : String → String) : SaveState → Prop
  | .idle => True
  | .waiting seen row => Selects seen (some row)
  | .selected seen lastRow _ => Selects seen lastRow
  | .inserted seen lastRow _ row =>
    Selects seen lastRow ∧ ∃ entry, row = chained sha256 lastRow entry

/-- What holds throughout. -/
structure Invariant (sha256 : String → String) (t : AuditTable P) : Prop
    extends Start sha256 t.rows where
  consistent : ∀ p, (t.save p).Consistent sha256

variable {Free : UUID → Prop} {s s' : SaveState} {move : Move} {committed : Option AuditEntryModel}

theorem SaveStep.consistent (h : SaveStep sha256 rows Free s move s' committed)
    (hs : s.Consistent sha256) : s'.Consistent sha256 := by
  cases h with
  | select h => exact h
  | selectNone h => exact h
  | lock => exact hs
  | fallback h => exact h
  | insert => exact ⟨hs, _, rfl⟩
  | commit => exact trivial
  | abort => exact trivial

theorem SaveStep.committed_cases (h : SaveStep sha256 rows Free s move s' committed) :
    committed = none ∨ ∃ seen lastRow locked row, s = .inserted seen lastRow locked row ∧
      move = .commit ∧ committed = some row := by
  cases h with
  | commit => exact .inr ⟨_, _, _, _, rfl, rfl, rfl⟩
  | _ => exact .inl rfl

variable {lastRow : Option AuditEntryModel}

/-- The row that is selected is one of those with the highest `seq`. -/
theorem Selects.perm (h : Selects rows lastRow)
    (hperm : rows.Perm chain) : Selects chain lastRow := by
  cases lastRow with
  | none =>
    rw [show rows = [] from h] at hperm
    exact hperm.nil_eq.symm
  | some row =>
    exact ⟨hperm.mem_iff.mp h.1, fun row' hrow' => h.2 row' (hperm.mem_iff.mpr hrow')⟩

theorem chained_unchained (h : Selects rows lastRow)
    (hrows : ∀ row ∈ rows, row.isNumbered = false ∧ row.entryHash = none) (entry : AuditEntry) :
    chained sha256 lastRow entry = chained sha256 none entry := by
  cases lastRow with
  | none => rfl
  | some row =>
    have hseq : row.entry.seq = none := by
      have := (hrows row h.1).1
      unfold AuditEntryModel.isNumbered at this
      cases hs : row.entry.seq with
      | none => rfl
      | some n =>
        rw [hs] at this
        cases this
    unfold chained
    simp only [Option.bind_some, hseq, (hrows row h.1).2, Option.bind_none]

/-- **The table keeps one chain**, where what is committed is chained to its last row. -/
theorem Start.commit (h : Start sha256 rows)
    (hselects : Selects rows lastRow) (hunmixed : Unmixed rows) (entry : AuditEntry) :
    Start sha256 (rows ++ [chained sha256 lastRow entry]) := by
  obtain ⟨chain, hchain, hperm⟩ := h.chain
  have hnew : [chained sha256 lastRow entry].filter (·.isNumbered) =
      [chained sha256 lastRow entry] := rfl
  constructor
  · rw [filter_append, hnew]
    rcases hunmixed with hnumbered | hunchained
    · rw [filter_eq_self.mpr hnumbered] at hperm ⊢
      refine ⟨_, hchain.append entry, ?_⟩
      rw [← hchain.selects (hselects.perm hperm.symm)]
      exact hperm.append_right _
    · rw [filter_eq_nil_iff.mpr fun row hrow => by simp [hunchained row hrow]] at hperm ⊢
      have hempty := hchain.append entry
      rw [hperm.eq_nil] at hempty
      refine ⟨_, hempty, ?_⟩
      rw [chained_unchained hselects fun row hrow =>
        ⟨hunchained row hrow, h.unchained row hrow (hunchained row hrow)⟩]
      exact .refl _
  · intro row hrow hseq
    rcases mem_append.mp hrow with hrow | hrow
    · exact h.unchained row hrow hseq
    · rw [mem_singleton.mp hrow] at hseq
      cases hseq

theorem Invariant.step (h : Invariant sha256 t) (hturn : InTurn t a) (hstep : Step sha256 t a t') :
    Invariant sha256 t' := by
  obtain ⟨p, move⟩ := a
  obtain ⟨s', committed, hsave, rfl⟩ := hstep
  have hconsistent : ∀ q, (update t.save p s' q).Consistent sha256 := by
    intro q
    by_cases hq : q = p
    · rw [hq, update_self]
      exact hsave.consistent (h.consistent p)
    · rw [update_of_ne hq]
      exact h.consistent q
  refine { toStart := ?_, consistent := hconsistent }
  obtain rfl | ⟨seen, lastRow, locked, row, hs, rfl, rfl⟩ := hsave.committed_cases
  · rw [Option.toList_none, append_nil]
    exact h.toStart
  · -- the rows that the call has seen are those of the table
    have hturn' : t.rows = seen ∧ Unmixed t.rows := by
      unfold InTurn at hturn
      rw [hs] at hturn
      exact hturn
    have hselected := h.consistent p
    rw [hs] at hselected
    obtain ⟨hselects, entry, rfl⟩ := hselected
    rw [← hturn'.1] at hselects
    exact h.toStart.commit hselects hturn'.2 entry

/-- **One chain after any run** of processes whose commits are in turn. -/
theorem oneChain_run {labels : List (P × Move)} (h : Guarded (Step sha256) (fun _ => InTurn) t
    labels t') (hstart : Invariant sha256 t) : OneChain sha256 t'.rows := by
  obtain ⟨chain, hchain, hperm⟩ := (h.invariant (I := fun _ => Invariant sha256) hstart
    fun _ _ _ _ _ hturn hstep hinv => hinv.step hturn hstep).chain
  exact hchain.oneChain hperm

def AuditTable.idle (P : Type) (rows : List AuditEntryModel) : AuditTable P :=
  ⟨rows, fun _ => .idle⟩

omit [DecidableEq P] in
theorem invariant_idle (h : Start sha256 rows) : Invariant sha256 (AuditTable.idle P rows) :=
  { toStart := h, consistent := fun _ => trivial }

end SAAuditRepository

/-! ## `BeanieAuditRepository._save_chained` -/

def Wall.toBsonPrecision (w : Wall) : Wall := w - w % 1000

theorem Wall.date_toBsonPrecision (w : Wall) : w.toBsonPrecision.date = w.date := by
  have h : ∀ n : ℤ, (n - n % 1000) / 86400000000 + 1 = n / 86400000000 + 1 := by omega
  exact h w

namespace BeanieAuditRepository

open AuditRepository
open SAAuditRepository (Chain)

variable {sha256 : String → String} {docs chain : List AuditEntryModel}

/-- The entry with the `occurred_at` that BSON can hold. -/
def truncated (entry : AuditEntry) : AuditEntry :=
  { entry with
    occurredAt := entry.occurredAt.toBsonPrecision
    year_nonneg := entry.occurredAt.date_toBsonPrecision ▸ entry.year_nonneg }

/-- The entry as it is stored, with its number and the hash of its predecessor. -/
def chained (sha256 : String → String) (nextSeq : ℕ) (prevHash : Option String)
    (entry : AuditEntry) : AuditEntryModel :=
  let chainedEntry := { truncated entry with seq := some (nextSeq : ℤ), prevHash := prevHash }
  ⟨chainedEntry, some (chainedEntry.entryHash sha256)⟩

/-- How far a call of `_save_chained` is. -/
inductive SaveState
  | idle
  | counted (nextSeq : ℕ)
  | found (nextSeq : ℕ) (prevHash : Option String)

def SaveState.nextSeq? : SaveState → Option ℕ
  | .idle => none
  | .counted nextSeq => some nextSeq
  | .found nextSeq _ => some nextSeq

/-- What a call of `_save_chained` does next. -/
inductive Move
  | increment
  | find (lastDoc : Option AuditEntryModel)
  | insert (entry : AuditEntry)
  | abort

/-- `find(AuditDocument.seq == next_seq - 1).first_or_none()`, if `next_seq > 1`. -/
def Finds (docs : List AuditEntryModel) (nextSeq : ℕ) : Option AuditEntryModel → Prop
  | none => nextSeq ≤ 1 ∨ ∀ doc ∈ docs, doc.entry.seq ≠ some (nextSeq - 1 : ℤ)
  | some doc => 1 < nextSeq ∧ doc ∈ docs ∧ doc.entry.seq = some (nextSeq - 1 : ℤ)

/-- The collection, the counter, which is 0 as long as its document is missing, and the calls of the
processes. -/
structure AuditCollection (P : Type) where
  docs : List AuditEntryModel
  counter : ℕ
  save : P → SaveState

variable {P : Type} [DecidableEq P] {t t' : AuditCollection P} {a : P × Move}

/-- The call of a process is now at `s`. -/
def AuditCollection.setSave (t : AuditCollection P) (p : P) (s : SaveState) : AuditCollection P :=
  { t with save := update t.save p s }

/-- A step of a process. -/
inductive Step (sha256 : String → String) (t : AuditCollection P) :
    P × Move → AuditCollection P → Prop
  | increment {p : P} (h : t.save p = .idle) :
      Step sha256 t (p, .increment) { t.setSave p (.counted (t.counter + 1)) with
        counter := t.counter + 1 }
  | find {p : P} {nextSeq : ℕ} {lastDoc : Option AuditEntryModel} (h : t.save p = .counted nextSeq)
      (hfind : Finds t.docs nextSeq lastDoc) :
      Step sha256 t (p, .find lastDoc) (t.setSave p (.found nextSeq (lastDoc.bind (·.entryHash))))
  | insert {p : P} {nextSeq : ℕ} {prevHash : Option String} {entry : AuditEntry}
      (h : t.save p = .found nextSeq prevHash)
      (hnew : ∀ doc ∈ t.docs, doc.entry.entryId ≠ entry.entryId) :
      Step sha256 t (p, .insert entry) { t.setSave p .idle with
        docs := t.docs ++ [chained sha256 nextSeq prevHash entry] }
  | abort {p : P} : Step sha256 t (p, .abort) (t.setSave p .idle)

/-- The predecessor of an entry has been inserted when it is looked for. -/
def InTurn (t : AuditCollection P) (a : P × Move) : Prop :=
  match a.2, t.save a.1 with
  | .find _, .counted nextSeq =>
    1 < nextSeq → ∃ doc ∈ t.docs, doc.entry.seq = some (nextSeq - 1 : ℤ)
  | _, _ => True

/-- A collection whose chained entries are numbered up to the counter. -/
structure Start (sha256 : String → String) (docs : List AuditEntryModel) (counter : ℕ) : Prop where
  chain : ∃ chain, Chain sha256 chain ∧ chain.Perm (docs.filter (·.isNumbered)) ∧
    chain.map (·.entry.seq) = (List.range counter).map fun i : ℕ => some (i + 1 : ℤ)

/-- What holds of a call, after the chain that has been inserted. -/
structure SaveState.Consistent (chain : List AuditEntryModel) (counter : ℕ) (s : SaveState) :
    Prop where
  pending : ∀ n, s.nextSeq? = some n → chain.length < n ∧ n ≤ counter
  found : ∀ n prevHash, s = .found n prevHash →
    n = chain.length + 1 ∧ prevHash = chain.getLast?.bind (·.entryHash)

/-- What holds throughout, of the chain that has been inserted. -/
structure Invariant (sha256 : String → String) (t : AuditCollection P)
    (chain : List AuditEntryModel) : Prop where
  linked : Chain sha256 chain
  perm : chain.Perm (t.docs.filter (·.isNumbered))
  seqs : chain.map (·.entry.seq) = (List.range chain.length).map fun i : ℕ => some (i + 1 : ℤ)
  le_counter : chain.length ≤ t.counter
  consistent : ∀ p, (t.save p).Consistent chain t.counter
  distinct : ∀ p q n, (t.save p).nextSeq? = some n → (t.save q).nextSeq? = some n → p = q

theorem consistent_idle (chain : List AuditEntryModel) (counter : ℕ) :
    SaveState.idle.Consistent chain counter :=
  ⟨(fun _ hs => nomatch hs), fun _ _ hs => nomatch hs⟩

omit [DecidableEq P] in
theorem Invariant.seq_iff (h : Invariant sha256 t chain) (n : ℤ) :
    (∃ doc ∈ t.docs, doc.entry.seq = some n) ↔ 1 ≤ n ∧ n ≤ chain.length := by
  have hmem : some n ∈ chain.map (·.entry.seq) ↔ 1 ≤ n ∧ n ≤ chain.length := by
    rw [h.seqs]
    simp only [mem_map, mem_range, Option.some.injEq]
    constructor
    · rintro ⟨i, hi, rfl⟩
      omega
    · rintro ⟨hle, hle'⟩
      exact ⟨(n - 1).toNat, by omega, by omega⟩
  rw [← hmem, (h.perm.map _).mem_iff]
  simp only [mem_map, mem_filter, and_assoc]
  refine exists_congr fun doc => and_congr_right fun _ => ⟨fun hseq => ⟨?_, hseq⟩, And.right⟩
  simp only [AuditEntryModel.isNumbered, hseq, Option.isSome_some]

omit [DecidableEq P] in
/-- The last entry of a chain has the number that is its length. -/
theorem Invariant.last (h : Invariant sha256 t chain) {doc : AuditEntryModel} (hdoc : doc ∈ t.docs)
    (hseq : doc.entry.seq = some (chain.length : ℤ)) : chain.getLast? = some doc := by
  have hmem : doc ∈ chain := by
    refine h.perm.mem_iff.mpr (mem_filter.mpr ⟨hdoc, ?_⟩)
    unfold AuditEntryModel.isNumbered
    rw [hseq]
    rfl
  obtain ⟨i, hi, rfl⟩ := getElem_of_mem hmem
  have hi' := congrArg (fun l => l[i]?) h.seqs
  simp only [List.getElem?_map, List.getElem?_eq_getElem hi, Option.map_some, hseq,
    List.getElem?_range hi, Option.some.injEq] at hi'
  rw [List.getLast?_eq_getElem?, List.getElem?_eq_getElem (by omega)]
  congr 2
  omega

/-- The next entry of a chain is what `SAAuditRepository` would make of it. -/
theorem chained_eq (hseqs : chain.map (·.entry.seq) =
      (List.range chain.length).map fun i : ℕ => some (i + 1 : ℤ)) (entry : AuditEntry) :
    chained sha256 (chain.length + 1) (chain.getLast?.bind (·.entryHash)) entry =
      SAAuditRepository.chained sha256 chain.getLast? (truncated entry) := by
  induction chain using List.reverseRecOn with
  | nil => rfl
  | append_singleton init last _ =>
    rw [length_append, length_singleton, range_succ, map_append,
      map_append] at hseqs
    have hlast : last.entry.seq = some (init.length + 1 : ℤ) :=
      head_eq_of_cons_eq (append_inj_right' hseqs rfl)
    rw [List.getLast?_concat, length_append, length_singleton]
    unfold chained SAAuditRepository.chained
    simp only [Option.bind_some, hlast, Nat.cast_succ]

theorem consistent_update {save : P → SaveState} {p : P} {s : SaveState} {counter : ℕ}
    (hp : s.Consistent chain counter) (hothers : ∀ q ≠ p, (save q).Consistent chain counter) :
    ∀ q, (update save p s q).Consistent chain counter := by
  intro q
  by_cases hq : q = p
  · rw [hq, update_self]
    exact hp
  · rw [update_of_ne hq]
    exact hothers q hq

theorem distinct_update {save : P → SaveState} {p : P} {s : SaveState}
    (h : ∀ p q n, (save p).nextSeq? = some n → (save q).nextSeq? = some n → p = q)
    (hnew : ∀ q ≠ p, ∀ n, s.nextSeq? = some n → (save q).nextSeq? ≠ some n) :
    ∀ q r n, (update save p s q).nextSeq? = some n →
      (update save p s r).nextSeq? = some n → q = r := by
  intro q r n hq hr
  by_cases hqp : q = p <;> by_cases hrp : r = p
  · rw [hqp, hrp]
  · rw [hqp, update_self] at hq
    rw [update_of_ne hrp] at hr
    exact absurd hr (hnew r hrp n hq)
  · rw [hrp, update_self] at hr
    rw [update_of_ne hqp] at hq
    exact absurd hq (hnew q hqp n hr)
  · rw [update_of_ne hqp] at hq
    rw [update_of_ne hrp] at hr
    exact h q r n hq hr

omit [DecidableEq P] in
/-- What a call finds in turn is the last entry of the chain. -/
theorem Invariant.finds (h : Invariant sha256 t chain) {p : P} {n : ℕ}
    {lastDoc : Option AuditEntryModel} (hp : t.save p = .counted n)
    (hturn : InTurn t (p, .find lastDoc)) (hfind : Finds t.docs n lastDoc) :
    n = chain.length + 1 ∧ lastDoc.bind (·.entryHash) = chain.getLast?.bind (·.entryHash) := by
  have hpending := (h.consistent p).pending n (by rw [hp]; rfl)
  have hturn' : 1 < n → ∃ doc ∈ t.docs, doc.entry.seq = some (n - 1 : ℤ) := by
    unfold InTurn at hturn
    dsimp only at hturn
    rw [hp] at hturn
    exact hturn
  by_cases hn : 1 < n
  · have hle := ((h.seq_iff _).mp (hturn' hn)).2
    have hlength : n = chain.length + 1 := by omega
    refine ⟨hlength, ?_⟩
    cases lastDoc with
    | none =>
      obtain ⟨doc, hdoc, hseq⟩ := hturn' hn
      rcases hfind with hfind | hfind
      · omega
      · exact absurd hseq (hfind doc hdoc)
    | some doc =>
      rw [h.last hfind.2.1 (by rw [hfind.2.2, hlength]; congr 1; omega)]
  · have hchain : chain = [] := length_eq_zero_iff.mp (by omega)
    refine ⟨by rw [hchain]; simp only [length_nil]; omega, ?_⟩
    cases lastDoc with
    | none =>
      rw [hchain]
      rfl
    | some doc => exact absurd hfind.1 hn

theorem Invariant.step (h : Invariant sha256 t chain) (hturn : InTurn t a)
    (hstep : Step sha256 t a t') : ∃ chain', Invariant sha256 t' chain' := by
  cases hstep with
  | @increment p hp =>
    refine ⟨chain, h.linked, h.perm, h.seqs, Nat.le_succ_of_le h.le_counter,
      consistent_update ⟨?_, fun n _ hs => nomatch hs⟩ fun q _ => ?_, distinct_update h.distinct ?_⟩
    · rintro n ⟨⟩
      exact ⟨Nat.lt_succ_of_le h.le_counter, le_rfl⟩
    · exact ⟨fun n hn => ⟨((h.consistent q).pending n hn).1,
        Nat.le_succ_of_le ((h.consistent q).pending n hn).2⟩, (h.consistent q).found⟩
    · rintro q - n ⟨⟩ hq
      have := ((h.consistent q).pending _ hq).2
      omega
  | @find p n lastDoc hp hfind =>
    have hnext : (t.save p).nextSeq? = some n := by rw [hp]; rfl
    refine ⟨chain, h.linked, h.perm, h.seqs, h.le_counter, consistent_update ⟨?_, ?_⟩
      fun q _ => h.consistent q, distinct_update h.distinct ?_⟩
    · rintro m ⟨⟩
      exact (h.consistent p).pending n hnext
    · rintro m prevHash ⟨⟩
      exact h.finds hp hturn hfind
    · rintro q hq m ⟨⟩ hm
      exact hq (h.distinct q p n hm hnext)
  | @insert p n prevHash entry hp hnew =>
    have hnext : (t.save p).nextSeq? = some n := by rw [hp]; rfl
    obtain ⟨rfl, rfl⟩ := (h.consistent p).found n prevHash hp
    refine ⟨chain ++ [chained sha256 (chain.length + 1) (chain.getLast?.bind (·.entryHash)) entry],
      ?_, ?_, ?_, ?_, consistent_update (consistent_idle ..) fun q hq => ?_,
      distinct_update h.distinct fun q _ n hs => nomatch hs⟩
    · rw [chained_eq h.seqs]
      exact h.linked.append _
    · have hnumbered : ∀ doc, [chained sha256 (chain.length + 1) doc entry].filter (·.isNumbered) =
          [chained sha256 (chain.length + 1) doc entry] := fun _ => rfl
      rw [filter_append, hnumbered]
      exact h.perm.append_right _
    · rw [map_append, h.seqs, length_append, length_singleton, range_succ,
        map_append]
      rfl
    · rw [length_append]
      exact ((h.consistent p).pending _ hnext).2
    · -- nobody else has the number that follows
      have hlt : ∀ n, (t.save q).nextSeq? = some n → chain.length + 1 < n ∧ n ≤ t.counter := by
        intro n hn
        have hpending := (h.consistent q).pending n hn
        have hne : n ≠ chain.length + 1 := fun heq => hq (h.distinct q p n hn (heq ▸ hnext))
        omega
      refine ⟨fun n hn => by rw [length_append]; exact hlt n hn, fun n prevHash hs => ?_⟩
      have hn : (t.save q).nextSeq? = some n := by rw [hs]; rfl
      have := ((h.consistent q).found n prevHash hs).1
      have := (hlt n hn).1
      omega
  | @abort p =>
    exact ⟨chain, h.linked, h.perm, h.seqs, h.le_counter,
      consistent_update (consistent_idle ..) fun q _ => h.consistent q,
      distinct_update h.distinct fun q _ n hs => nomatch hs⟩

/-- **One chain after any run** of processes that look for their predecessors in turn. -/
theorem oneChain_run {labels : List (P × Move)} (h : Guarded (Step sha256) (fun _ => InTurn) t
    labels t') (hstart : Invariant sha256 t chain) : OneChain sha256 t'.docs := by
  obtain ⟨chain', hinv⟩ := h.invariant (I := fun _ t => ∃ chain, Invariant sha256 t chain)
    ⟨chain, hstart⟩ fun _ _ _ _ _ hturn hstep ⟨_, hinv⟩ => hinv.step hturn hstep
  exact hinv.linked.oneChain hinv.perm

def AuditCollection.idle (P : Type) (docs : List AuditEntryModel) (counter : ℕ) :
    AuditCollection P := ⟨docs, counter, fun _ => .idle⟩

omit [DecidableEq P] in
theorem invariant_idle {counter : ℕ} (h : Start sha256 docs counter) :
    ∃ chain, Invariant sha256 (AuditCollection.idle P docs counter) chain := by
  obtain ⟨chain, hchain, hperm, hseqs⟩ := h.chain
  have hlength : chain.length = counter := by
    have := congrArg List.length hseqs
    simpa using this
  subst hlength
  exact ⟨chain, hchain, hperm, hseqs, le_rfl, fun _ => consistent_idle .., fun _ _ _ h => nomatch h⟩

end BeanieAuditRepository

/-! ## One chain -/

namespace AuditRepository

/-- **Writers that commit in turn build one chain**, in PostgreSQL and in MongoDB. -/
theorem one_chain (P : Type) [DecidableEq P] (sha256 : String → String) :
    (∀ rows labels t, SAAuditRepository.Start sha256 rows →
      Guarded (SAAuditRepository.Step sha256) (fun _ => SAAuditRepository.InTurn)
        (.idle P rows) labels t → OneChain sha256 t.rows) ∧
    ∀ docs counter labels t, BeanieAuditRepository.Start sha256 docs counter →
      Guarded (BeanieAuditRepository.Step sha256) (fun _ => BeanieAuditRepository.InTurn)
        (.idle P docs counter) labels t → OneChain sha256 t.docs := by
  constructor
  · intro rows labels t hstart hrun
    exact SAAuditRepository.oneChain_run hrun (SAAuditRepository.invariant_idle hstart)
  · intro docs counter labels t hstart hrun
    obtain ⟨chain, hinv⟩ := BeanieAuditRepository.invariant_idle (P := P) hstart
    exact BeanieAuditRepository.oneChain_run hrun hinv

end AuditRepository

namespace SAAuditRepository

theorem step_of {P : Type} [DecidableEq P] {sha256 : String → String} {t : AuditTable P} {p : P}
    {s s' : SaveState} {move : Move} {committed : Option AuditEntryModel} (hs : t.save p = s)
    (h : ∀ Free, SaveStep sha256 t.rows Free s move s' committed) :
    Step sha256 t (p, move) ⟨t.rows ++ committed.toList, update t.save p s'⟩ := by
  subst hs
  exact ⟨s', committed, h _, rfl⟩

theorem start_nil (sha256 : String → String) : Start sha256 [] :=
  ⟨⟨[], chain_nil, .refl _⟩, fun _ h => absurd h not_mem_nil⟩

end SAAuditRepository

namespace AuditRepository

open SAAuditRepository

/-- Two writers save an entry each, one after the other: in a table, of which the second one locks
the last row, and in a collection. -/
theorem one_chain_inTurn (sha256 : String → String) :
    ∃ (t : AuditTable Bool) (t' : BeanieAuditRepository.AuditCollection Bool),
      t.rows.map (·.entry.seq) = [some 1, some 2] ∧ OneChain sha256 t.rows ∧
      t'.docs.map (·.entry.seq) = [some 1, some 2] ∧ OneChain sha256 t'.docs := by
  have hne : (1 : UUID) ≠ 2 := by decide
  have hfirst : Guarded (Step sha256) (fun _ => InTurn) (.idle Bool [])
      ([] ++ [(true, Move.select none)] ++ [(true, Move.insert (sampleEntry 1))] ++
        [(true, Move.commit)]) _ :=
    .snoc (.snoc (.snoc .nil trivial (step_of rfl fun _ => .selectNone rfl)) trivial
      (step_of rfl fun _ => .insert)) (by exact ⟨rfl, .inl fun _ h => absurd h not_mem_nil⟩)
      (step_of rfl fun _ => .commit fun _ h => absurd h not_mem_nil)
  have hselected := hfirst.snoc (a := (false, .select (some (chained sha256 none (sampleEntry 1)))))
    (by exact trivial) (step_of rfl fun _ => .select ⟨mem_cons_self, fun row hrow n hn => by
      rw [mem_singleton.mp hrow]
      exact ⟨n, hn, le_rfl⟩⟩)
  have hlocked := hselected.snoc (a := (false, .lock)) (by exact trivial)
    ⟨_, _, .lock fun q hq hholds => by cases q <;> [exact hq rfl; exact hholds], rfl⟩
  have hinserted := hlocked.snoc (a := (false, .insert (sampleEntry 2))) (by exact trivial)
    (step_of rfl fun _ => .insert)
  have hsecond := hinserted.snoc (a := (false, .commit))
    (by exact ⟨rfl, .inl fun row hrow => by rw [mem_singleton.mp hrow]; rfl⟩)
    (step_of rfl fun _ => .commit fun row hrow => by rw [mem_singleton.mp hrow]; exact hne)
  let doc := BeanieAuditRepository.chained sha256 1 none (sampleEntry 1)
  have hcounted : Guarded (BeanieAuditRepository.Step sha256)
      (fun _ => BeanieAuditRepository.InTurn) (.idle Bool [] 0) [(true, .increment)] _ :=
    .snoc .nil trivial (.increment rfl)
  have hcounted' := hcounted.snoc (a := (false, .increment)) (by exact trivial) (.increment rfl)
  have hfind := hcounted'.snoc (a := (true, .find none))
    (by exact fun h => absurd h (by decide)) (.find rfl (by exact Or.inl le_rfl))
  have hstored := hfind.snoc (a := (true, .insert (sampleEntry 1))) (by exact trivial)
    (.insert rfl fun _ h => absurd h not_mem_nil)
  have hfind' := hstored.snoc (a := (false, .find (some doc)))
    (by exact fun _ => ⟨doc, mem_cons_self, rfl⟩)
    (.find rfl (by exact ⟨by decide, mem_cons_self, rfl⟩))
  have hstored' := hfind'.snoc (a := (false, .insert (sampleEntry 2))) (by exact trivial)
    (.insert rfl fun doc hdoc => by rw [mem_singleton.mp hdoc]; exact hne)
  exact ⟨_, _, rfl, (one_chain Bool sha256).1 _ _ _ (start_nil sha256) hsecond, rfl,
    (one_chain Bool sha256).2 _ _ _ _ ⟨⟨[], chain_nil, .refl _, rfl⟩⟩ hstored'⟩

/-- **Two writers of an empty table each begin a chain.** -/
theorem empty_table_two_chains :
    ¬ ((∀ rows labels t, Start id rows → Run (Step id) (.idle Bool rows) labels t →
        (∀ p, t.save p = .idle) → OneChain id t.rows) ∧
      ∀ docs counter labels t, BeanieAuditRepository.Start id docs counter →
        Run (BeanieAuditRepository.Step id) (.idle Bool docs counter) labels t →
        (∀ p, t.save p = .idle) → OneChain id t.docs) := by
  rintro ⟨h, -⟩
  have hselected : Run (Step id) (.idle Bool []) [(true, .select none), (false, .select none)] _ :=
    .cons (step_of rfl fun _ => .selectNone rfl) (.single (step_of rfl fun _ => .selectNone rfl))
  have hinserted := hselected.append (.cons (a := (true, .insert (sampleEntry 1)))
    (step_of rfl fun _ => .insert) (.single (a := (false, .insert (sampleEntry 2)))
      (step_of rfl fun _ => .insert)))
  have hcommitted := hinserted.append (.cons (a := (true, .commit))
    (step_of rfl fun _ => .commit fun _ h => absurd h not_mem_nil)
    (.single (a := (false, .commit)) (step_of rfl fun _ => .commit fun row hrow => by
      rw [mem_singleton.mp hrow]
      exact (by decide : (1 : UUID) ≠ 2))))
  have hchain := h [] _ _ (start_nil id) hcommitted fun p => by cases p <;> rfl
  have hdistinct : [some (1 : ℤ), some 1].Nodup := hchain.distinct
  exact absurd hdistinct (by decide)

end AuditRepository

end Varco
