import Mathlib.Data.List.Induction
import Varco.Service.Audit

/-!
# Tampering with the audit chain

`verify_chain` finds nothing in a chain as `_save_chained` writes it, in whatever order it is read
(`verifyChain_written`). Conversely, two chains with the same last entry are the same
(`forall₂_same`), entry by entry back from the last: a hash determines the entry before, and where
there is none the chain begins. What `verify_chain` accepts with the last entry of a written chain
is therefore that chain, apart from entries without a `seq`, which it sorts behind the last one
(`chain_tamper_evident`).
-/

namespace Varco

open List

namespace SAAuditRepository

open AuditRepository AuditEntry

variable {sha256 : String → String} {rows : List AuditEntryModel} {entries l l' : List AuditEntry}
  {e e' : AuditEntry} {prev : Option AuditEntry}

/-! ## Chains -/

/-- The rows of a chain, in the order of their `seq`. -/
structure Chain (sha256 : String → String) (rows : List AuditEntryModel) : Prop where
  linked : findings sha256 none (rows.map (·.toEntry)) = []
  numbered : ∀ row ∈ rows, row.entry.seq.isSome
  stored : ∀ row ∈ rows, row.entryHash = some (row.entry.entryHash sha256)

/-- The `seq` of one entry is below that of another. -/
def Below (e e' : AuditEntry) : Prop := ∃ m n, e.seq = some m ∧ e'.seq = some n ∧ m < n

theorem below_of_findings (h : findings sha256 prev l = []) (hl : ∀ e ∈ l, e.seq.isSome) :
    l.Pairwise Below ∧ ∀ p m, prev = some p → p.seq = some m → ∀ e ∈ l, Below p e := by
  induction l generalizing prev with
  | nil => exact ⟨.nil, fun _ _ _ _ _ hm => absurd hm not_mem_nil⟩
  | cons e l ih =>
    obtain ⟨hfollows, hrest⟩ := findings_cons.mp h
    obtain ⟨hpairwise, hafter⟩ := ih hrest fun e he => hl e (mem_cons_of_mem _ he)
    obtain ⟨n, hn⟩ := Option.isSome_iff_exists.mp (hl e mem_cons_self)
    refine ⟨.cons (fun e' he' => hafter e n rfl hn e' he') hpairwise, ?_⟩
    rintro p m rfl hm e' he'
    have hstep : n = m + 1 := hfollows.seq m n hm hn
    rcases mem_cons.mp he' with rfl | he'
    · exact ⟨m, n, hm, hn, by omega⟩
    · obtain ⟨n', k, hn', hk, hlt⟩ := hafter e n rfl hn e' he'
      rw [hn] at hn'
      cases hn'
      exact ⟨m, k, hm, hk, by omega⟩

theorem Chain.below (h : Chain sha256 rows) : (rows.map (·.toEntry)).Pairwise Below := by
  refine (below_of_findings h.linked fun e he => ?_).1
  obtain ⟨row, hrow, rfl⟩ := mem_map.mp he
  exact h.numbered row hrow

/-- Two entries of a chain are the same, or one is below the other. -/
theorem eq_or_below (h : l.Pairwise Below) (he : e ∈ l) (he' : e' ∈ l) :
    e = e' ∨ Below e e' ∨ Below e' e := by
  induction h with
  | nil => exact absurd he not_mem_nil
  | cons hbelow _ ih =>
    rcases mem_cons.mp he with rfl | hl <;> rcases mem_cons.mp he' with rfl | hl'
    · exact .inl rfl
    · exact .inr (.inl (hbelow _ hl'))
    · exact .inr (.inr (hbelow _ hl))
    · exact ih hl hl'

theorem Chain.selects {lastRow : Option AuditEntryModel} (h : Chain sha256 rows)
    (hlast : Selects rows lastRow) : lastRow = rows.getLast? := by
  induction rows using List.reverseRecOn with
  | nil =>
    cases lastRow with
    | none => rfl
    | some row => exact absurd hlast.1 not_mem_nil
  | append_singleton init last =>
    cases lastRow with
    | none => exact absurd hlast (append_ne_nil_of_right_ne_nil _ (cons_ne_nil _ _))
    | some row =>
      rw [List.getLast?_concat]
      rcases mem_append.mp hlast.1 with hrow | hrow
      · have hbelow := h.below
        rw [map_append, pairwise_append] at hbelow
        obtain ⟨m, n, hm, hn, hlt⟩ := hbelow.2.2 _ (mem_map_of_mem hrow) last.toEntry
          mem_cons_self
        obtain ⟨n', hn', hle⟩ := hlast.2 last (mem_append_right _ mem_cons_self) m hm
        rw [show last.entry.seq = some n from hn] at hn'
        cases hn'
        omega
      · rw [mem_singleton.mp hrow]

/-- A chain goes on with what `_save_chained` makes of its last row. -/
theorem Chain.append (h : Chain sha256 rows) (entry : AuditEntry) :
    Chain sha256 (rows ++ [chained sha256 rows.getLast? entry]) where
  linked := by
    rw [map_append, findings_append, List.getLast?_map]
    refine ⟨h.linked, findings_cons.mpr ⟨⟨fun m n hm hn => ?_, ?_⟩, rfl⟩⟩
    · cases hlast : rows.getLast? with
      | none =>
        rw [hlast] at hm
        cases hm
      | some row =>
        rw [hlast] at hm hn
        have hseq : row.entry.seq = some m := hm
        unfold AuditEntryModel.toEntry chained at hn
        dsimp only [Option.bind_some] at hn
        rw [hseq] at hn
        exact (Option.some.inj hn).symm
    · cases hlast : rows.getLast? with
      | none => rfl
      | some row => exact h.stored row (mem_of_getLast? hlast)
  numbered row hrow := by
    rcases mem_append.mp hrow with hrow | hrow
    · exact h.numbered row hrow
    · rw [mem_singleton.mp hrow]
      rfl
  stored row hrow := by
    rcases mem_append.mp hrow with hrow | hrow
    · exact h.stored row hrow
    · rw [mem_singleton.mp hrow]
      rfl

theorem chain_nil : Chain sha256 [] where
  linked := rfl
  numbered _ hrow := absurd hrow not_mem_nil
  stored _ hrow := absurd hrow not_mem_nil

/-! ## What one writer writes -/

/-- The rows that successive calls of `_save_chained` write to an empty table. -/
inductive Written (sha256 : String → String) : List AuditEntry → List AuditEntryModel → Prop
  | nil : Written sha256 [] []
  | save {entries : List AuditEntry} {rows : List AuditEntryModel}
      {lastRow : Option AuditEntryModel} {entry : AuditEntry} (h : Written sha256 entries rows)
      (hlast : Selects rows lastRow) (hnew : ∀ e ∈ entries, e.entryId ≠ entry.entryId) :
      Written sha256 (entries ++ [entry]) (rows ++ [chained sha256 lastRow entry])

theorem Written.chain (h : Written sha256 entries rows) : Chain sha256 rows := by
  induction h with
  | nil => exact chain_nil
  | save _ hlast _ ih =>
    rw [ih.selects hlast]
    exact ih.append _

/-- Sorting brings the entries of a chain back into its order. -/
theorem Chain.mergeSort_eq (h : Chain sha256 rows) (hl : l.Perm (rows.map (·.toEntry))) :
    l.mergeSort seqLe = rows.map (·.toEntry) := by
  have hbelow := h.below
  refine List.Perm.eq_of_pairwise (fun a b ha hb hab hba => ?_) (sorted_mergeSort l)
    (hbelow.imp ?_) ((mergeSort_perm l seqLe).trans hl)
  · have ha' := ((mergeSort_perm l seqLe).trans hl).mem_iff.mp ha
    rcases eq_or_below hbelow ha' hb with rfl | ⟨m, n, hm, hn, hlt⟩ | ⟨m, n, hm, hn, hlt⟩
    · rfl
    · simp only [seqLe, hm, hn, decide_eq_true_eq] at hba
      omega
    · simp only [seqLe, hm, hn, decide_eq_true_eq] at hab
      omega
  · rintro a b ⟨m, n, hm, hn, hlt⟩
    simp [seqLe, hm, hn, hlt.le]

/-- **A chain is found unbroken**, in whatever order it is read. -/
theorem Chain.verifyChain_eq_nil (h : Chain sha256 rows) (hl : l.Perm (rows.map (·.toEntry))) :
    verifyChain sha256 l = [] := by
  rw [verifyChain, h.mergeSort_eq hl]
  exact h.linked

/-! ## What else is accepted -/

/-- **Two chains that end alike are alike**, back to where both begin. -/
theorem forall₂_same (hsha : Function.Injective sha256) (h : findings sha256 none (l ++ [e]) = [])
    (h' : findings sha256 none (l' ++ [e']) = []) (hl : ∀ x ∈ l, x.seq.isSome)
    (hl' : ∀ x ∈ l', x.seq.isSome) (he : e.seq.isSome) (hsame : Same e e') :
    List.Forall₂ Same (l ++ [e]) (l' ++ [e']) := by
  induction l using List.reverseRecOn generalizing l' e e' with
  | nil =>
    induction l' using List.reverseRecOn with
    | nil => exact .cons hsame .nil
    | append_singleton l' p' _ =>
      -- the first chain begins here, and the second does not
      have hlink := (findings_cons.mp h).1.link
      have hlink' := (findings_cons.mp (findings_append.mp h').2).1.link
      rw [List.getLast?_concat, ← hsame.prevHash, hlink] at hlink'
      cases hlink'
  | append_singleton l p ih =>
    have hfollows := (findings_cons.mp (findings_append.mp h).2).1
    rw [List.getLast?_concat] at hfollows
    induction l' using List.reverseRecOn with
    | nil =>
      have hlink' := (findings_cons.mp h').1.link
      rw [← hsame.prevHash, hfollows.link] at hlink'
      cases hlink'
    | append_singleton l' p' _ =>
      have hfollows' := (findings_cons.mp (findings_append.mp h').2).1
      rw [List.getLast?_concat] at hfollows'
      have hhash : p.entryHash sha256 = p'.entryHash sha256 := by
        have hlink := hfollows.link
        rw [hsame.prevHash, hfollows'.link] at hlink
        exact (Option.some.inj hlink).symm
      obtain ⟨m, hm⟩ := Option.isSome_iff_exists.mp
        (hl p (mem_append_right _ mem_cons_self))
      obtain ⟨m', hm'⟩ := Option.isSome_iff_exists.mp
        (hl' p' (mem_append_right _ mem_cons_self))
      obtain ⟨n, hn⟩ := Option.isSome_iff_exists.mp he
      have hseq : m = m' := by
        have hnext := hfollows.seq m n hm hn
        have hnext' := hfollows'.seq m' n hm' (hsame.seq ▸ hn)
        omega
      have hprev : Same p p' := ⟨entryHash_inj hsha hhash, by rw [hm, hm', hseq]⟩
      refine rel_append (ih (findings_append.mp h).1 (findings_append.mp h').1
        (fun x hx => hl x (mem_append_left _ hx))
        (fun x hx => hl' x (mem_append_left _ hx)) (by rw [hm]; rfl) hprev) ?_
      exact .cons hsame .nil

/-- The entries without a `seq` are sorted behind the others. -/
theorem eq_filter_append (h : l.Pairwise fun e e' => seqLe e e' = true) :
    l = l.filter (·.seq.isSome) ++ l.filter (·.seq.isNone) := by
  induction h with
  | nil => rfl
  | @cons e l hle _ ih =>
    cases hseq : e.seq with
    | some n =>
      rw [filter_cons_of_pos (by rw [hseq]; rfl), filter_cons_of_neg (by simp [hseq]),
        cons_append, ← ih]
    | none =>
      have hnone : ∀ x ∈ l, x.seq = none := by
        intro x hx
        have hx := hle x hx
        unfold seqLe at hx
        rw [hseq] at hx
        cases hs : x.seq with
        | none => rfl
        | some n =>
          rw [hs] at hx
          cases hx
      have hfilter : l.filter (·.seq.isSome) = [] :=
        filter_eq_nil_iff.mpr fun x hx => by rw [hnone x hx]; decide
      rw [filter_cons_of_neg (by rw [hseq]; decide),
        filter_cons_of_pos (by rw [hseq]; rfl), hfilter, nil_append]
      congr 1
      exact (filter_eq_self.mpr fun x hx => by rw [hnone x hx]; rfl).symm

/-- The last entry of a chain is that with the highest `seq`. -/
theorem getLast?_eq_of_highest {m : ℤ} (hl : l.Pairwise Below) (he : e ∈ l) (hm : e.seq = some m)
    (hhighest : ∀ x ∈ l, ∀ n, x.seq = some n → n ≤ m) : ∃ init, l = init ++ [e] := by
  obtain ⟨init, rest, rfl⟩ := append_of_mem he
  cases rest with
  | nil => exact ⟨init, rfl⟩
  | cons x rest =>
    have hx : x ∈ init ++ e :: x :: rest := by simp
    obtain ⟨k, n, hk, hn, hlt⟩ :=
      rel_of_pairwise_cons (pairwise_append.mp hl).2.1 mem_cons_self
    rw [hm] at hk
    cases hk
    have hle := hhighest x hx n hn
    omega

/-- **The chain is tamper evident.** What successive calls write is found unbroken, in whatever
order it is read; and of any entries among which is the last one that was written, with the highest
`seq`, those that have a `seq` are exactly what was written, if nothing is found. -/
theorem chain_tamper_evident (hsha : Function.Injective sha256)
    (hwritten : Written sha256 entries rows) :
    (∀ l : List AuditEntry, l.Perm (rows.map (·.toEntry)) → verifyChain sha256 l = []) ∧
    ∀ (l : List AuditEntry) (e : AuditEntry), (rows.map (·.toEntry)).getLast? = some e → e ∈ l →
      (∀ x ∈ l, ∀ m n, x.seq = some n → e.seq = some m → n ≤ m) → verifyChain sha256 l = [] →
      ∃ l', l'.Perm (l.filter (·.seq.isSome)) ∧
        List.Forall₂ AuditEntry.Same l' (rows.map (·.toEntry)) := by
  have hchain := hwritten.chain
  refine ⟨fun l => hchain.verifyChain_eq_nil, fun l e hlast he hhighest hverify => ?_⟩
  obtain ⟨init', hrows⟩ := List.getLast?_eq_some_iff.mp hlast
  have hnumbered : ∀ x ∈ rows.map (·.toEntry), x.seq.isSome := by
    intro x hx
    obtain ⟨row, hrow, rfl⟩ := mem_map.mp hx
    exact hchain.numbered row hrow
  obtain ⟨m, hm⟩ := Option.isSome_iff_exists.mp
    (hnumbered e (hrows ▸ mem_append_right _ mem_cons_self))
  -- the entries with a `seq` are a chain of their own
  have hsorted := sorted_mergeSort l
  rw [verifyChain, eq_filter_append hsorted] at hverify
  have hsome := findings_append.mp hverify
  have hperm : ((l.mergeSort seqLe).filter (·.seq.isSome)).Perm (l.filter (·.seq.isSome)) :=
    (mergeSort_perm l seqLe).filter _
  have hisSome : ∀ x ∈ (l.mergeSort seqLe).filter (·.seq.isSome), x.seq.isSome := fun x hx =>
    (mem_filter.mp hx).2
  have hmem : e ∈ (l.mergeSort seqLe).filter (·.seq.isSome) :=
    hperm.mem_iff.mpr (mem_filter.mpr ⟨he, by rw [hm]; rfl⟩)
  obtain ⟨init, hinit⟩ := getLast?_eq_of_highest (below_of_findings hsome.1 hisSome).1 hmem hm
    fun x hx n hn => hhighest x (mem_of_mem_filter (hperm.mem_iff.mp hx)) m n hn hm
  refine ⟨_, hperm, ?_⟩
  rw [hinit, hrows]
  have hlinked := hchain.linked
  rw [hinit] at hsome hisSome
  rw [hrows] at hlinked hnumbered
  exact forall₂_same hsha hsome.1 hlinked (fun x hx => hisSome x (mem_append_left _ hx))
    (fun x hx => hnumbered x (mem_append_left _ hx)) (by rw [hm]; rfl) ⟨⟨rfl, rfl, rfl, rfl,
      rfl, rfl, rfl, rfl, rfl, rfl⟩, rfl⟩

def sampleEntry (entryId : UUID) : AuditEntry :=
  { entryId, entityType := "Order", entityId := "7", action := "update",
    diff := Dict.empty.set "total" (.int 12), occurredAt := 63839664000000000,
    genuine := ⟨trivial, trivial⟩, year_nonneg := AuditEntry.year_nonneg_2024 }

/-- Two entries are written, and found unbroken newest first, and broken without the first one. -/
theorem chain_tamper_evident_sample : ∃ rows, Written id [sampleEntry 1, sampleEntry 2] rows ∧
    verifyChain id (rows.map (·.toEntry)).reverse = [] ∧
    verifyChain id (rows.map (·.toEntry)).tail ≠ [] := by
  have hone : Written id [sampleEntry 1] [chained id none (sampleEntry 1)] :=
    .save .nil rfl fun _ h => absurd h not_mem_nil
  have htwo : Written id [sampleEntry 1, sampleEntry 2] [chained id none (sampleEntry 1),
      chained id (some (chained id none (sampleEntry 1))) (sampleEntry 2)] := by
    refine .save hone ⟨mem_cons_self, fun row' h n hn => ?_⟩ fun e he => ?_
    · rw [mem_singleton.mp h]
      exact ⟨n, hn, le_rfl⟩
    · rw [mem_singleton.mp he]
      decide
  obtain ⟨hunbroken, hevident⟩ := chain_tamper_evident Function.injective_id htwo
  refine ⟨_, htwo, hunbroken _ (reverse_perm _), fun hverify => ?_⟩
  obtain ⟨l', hperm, hsame⟩ := hevident _ _ rfl mem_cons_self (fun x hx m n hn hm => by
    rw [mem_singleton.mp hx, hm] at hn
    exact (Option.some.inj hn).ge) hverify
  exact absurd (hperm.length_eq.symm.trans hsame.length_eq) (by decide)

/-- An entry without a `seq` that names the hash of another. -/
def forged (sha256 : String → String) (last : AuditEntry) : AuditEntry :=
  { sampleEntry 2 with prevHash := some (last.entryHash sha256) }

/-- **An entry without a `seq` is inserted behind the last one**, and nothing is found. -/
theorem unnumbered_accepted :
    ¬ ∀ entries rows, Written id entries rows → ∀ l e,
      (rows.map (·.toEntry)).getLast? = some e → e ∈ l →
      (∀ x ∈ l, ∀ m n, x.seq = some n → e.seq = some m → n ≤ m) → verifyChain id l = [] →
      ∃ l', l'.Perm l ∧ List.Forall₂ AuditEntry.Same l' (rows.map (·.toEntry)) := by
  intro h
  have hone : Written id [sampleEntry 1] [chained id none (sampleEntry 1)] :=
    .save .nil rfl fun _ h => absurd h not_mem_nil
  let e := (chained id none (sampleEntry 1)).toEntry
  have hverify : verifyChain id [e, forged id e] = [] := by
    have hsorted : [e, forged id e].mergeSort seqLe = [e, forged id e] :=
      mergeSort_of_pairwise (pairwise_pair.mpr rfl)
    rw [verifyChain, hsorted, findings_cons, findings_cons]
    exact ⟨⟨(fun _ _ h => nomatch h), rfl⟩, ⟨(fun _ _ _ h => nomatch h), rfl⟩, rfl⟩
  have hhighest : ∀ x ∈ [e, forged id e], ∀ m n, x.seq = some n → e.seq = some m → n ≤ m := by
    intro x hx m n hn hm
    rcases mem_cons.mp hx with rfl | hx
    · rw [hm] at hn
      cases hn
      exact le_rfl
    · rw [mem_singleton.mp hx] at hn
      cases hn
  obtain ⟨l', hperm, hsame⟩ := h _ _ hone _ e rfl mem_cons_self hhighest hverify
  have hlength := hperm.length_eq.symm.trans hsame.length_eq
  cases hlength

end SAAuditRepository

end Varco
