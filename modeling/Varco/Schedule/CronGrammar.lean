import Mathlib
import Varco.Schedule.Cron

/-!
# The grammar of cron expressions

The documentation of `varco_core.schedule.cron` lists the forms of an item: `*`, `*/N`, `a-b`,
`a-b/N` and a bare integer. `ItemDenotes` is that grammar, with the set that each form stands for.
It has two parameters: what a numeral is, and whether a bare integer may have a step.

`parseCron_iff` says what the code accepts: the grammar in which digits may be of any script, with
at most 4300 of them in a number, and in which `a/N` is one more way to write `a`. The documented
grammar has ASCII digits, as many as one likes, and no such step. `meetsGrammar_iff` says for which
expressions the two agree.
-/

namespace Varco

/-! ## The grammar -/

/-- How numbers are written, and whether a bare integer may have a step. -/
structure CronSpelling where
  numeral : List Char → ℕ → Prop
  loneStep : Prop

/-- The numbers from `a` to `b`, `n` apart. -/
def stepsOf (a b : ℤ) (n : ℕ) : Set ℤ := {v | a ≤ v ∧ v ≤ b ∧ (n : ℤ) ∣ v - a}

/-- The forms of an item of a field with bounds, and what they denote. -/
inductive ItemDenotes (g : CronSpelling) (lo hi : ℤ) : List Char → Set ℤ → Prop
  | star : ItemDenotes g lo hi ['*'] (Set.Icc lo hi)
  | starStep {ns n} : g.numeral ns n → 1 ≤ n →
    ItemDenotes g lo hi ('*' :: '/' :: ns) (stepsOf lo hi n)
  | range {as bs a b} : g.numeral as a → g.numeral bs b → (a : ℤ) ≤ b → lo ≤ a → (b : ℤ) ≤ hi →
    ItemDenotes g lo hi (as ++ '-' :: bs) (Set.Icc a b)
  | rangeStep {as bs ns a b n} : g.numeral as a → g.numeral bs b → (a : ℤ) ≤ b → lo ≤ a →
    (b : ℤ) ≤ hi → g.numeral ns n → 1 ≤ n →
    ItemDenotes g lo hi (as ++ '-' :: bs ++ '/' :: ns) (stepsOf a b n)
  | single {as a} : g.numeral as a → lo ≤ (a : ℤ) → (a : ℤ) ≤ hi →
    ItemDenotes g lo hi as {(a : ℤ)}
  | singleStep {as ns a n} : g.loneStep → g.numeral as a → lo ≤ (a : ℤ) → (a : ℤ) ≤ hi →
    g.numeral ns n → 1 ≤ n → ItemDenotes g lo hi (as ++ '/' :: ns) {(a : ℤ)}

/-- A comma-separated list of items denotes the union of what they denote. -/
def FieldDenotes (g : CronSpelling) (lo hi : ℤ) (text : String) (S : Set ℤ) : Prop :=
  ∃ sets, List.Forall₂ (fun item => ItemDenotes g lo hi item.toList) (pySplit ',' text) sets ∧
    S = {v | ∃ T ∈ sets, v ∈ T}

/-- The sets of the five fields. -/
structure CronSets where
  minute : Set ℤ
  hour : Set ℤ
  day : Set ℤ
  month : Set ℤ
  dow : Set ℤ

def CronDenotes (g : CronSpelling) (s : String) (S : CronSets) : Prop :=
  ∃ minute hour day month dow, pySplitSpace s = [minute, hour, day, month, dow] ∧
    FieldDenotes g 0 59 minute S.minute ∧ FieldDenotes g 0 23 hour S.hour ∧
    FieldDenotes g 1 31 day S.day ∧ FieldDenotes g 1 12 month S.month ∧ FieldDenotes g 0 6 dow S.dow

/-- The documented spelling: ASCII digits, and a step after `*` and `a-b` only. -/
def documentedSpelling : CronSpelling where
  numeral cs n := cs ≠ [] ∧ (∀ c ∈ cs, c.isDigit) ∧ n = (cs.map digitValue).foldl (10 * · + ·) 0
  loneStep := False

/-- The spelling of the code: what `isdigit()` and `int()` accept, and a step after anything. -/
def acceptedSpelling : CronSpelling where
  numeral cs n := cs ≠ [] ∧ ∃ ds, cs.mapM decimalValue = some ds ∧ ds.length ≤ maxIntDigits ∧
    n = ds.foldl (10 * · + ·) 0
  loneStep := True

def CronSchedule.sets (c : CronSchedule) : CronSets :=
  ⟨{v | v ∈ c.minute.values}, {v | v ∈ c.hour.values}, {v | v ∈ c.day.values},
    {v | v ∈ c.month.values}, {v | v ∈ c.dow.values}⟩

/-- **What is asked of the parser**: it accepts an expression with the sets that the documented
grammar gives it, and refuses any other with a `ValueError`. -/
structure MeetsGrammar (s : String) : Prop where
  accepts : ∀ S, CronDenotes documentedSpelling s S ↔ ∃ c, parseCron s = .ok c ∧ c.sets = S
  refuses : ∀ e, parseCron s = .error e → e.typeName = "ValueError"

/-! ## Where the two spellings differ -/

def SomeItem (p : List Char → Prop) (s : String) : Prop :=
  ∃ field ∈ pySplitSpace s, ∃ item ∈ pySplit ',' field, p item.toList

def LoneStep (cs : List Char) : Prop :=
  ∃ as ns, cs = as ++ '/' :: ns ∧ as ≠ [] ∧ ∀ c ∈ as, (decimalValue c).isSome

def ScriptDigit (cs : List Char) : Prop := ∃ c ∈ cs, (decimalValue c).isSome ∧ c.isDigit = false

/-- More characters than `int()` takes, between the dashes and slashes of an item. -/
def LongNumber (cs : List Char) : Prop :=
  ∃ piece ∈ splitWhen (fun c => c = '-' || c = '/') cs, maxIntDigits < piece.length

/-! ## Numerals -/

variable {lo hi : ℤ} {name text item base : String} {as bs cs ns : List Char} {n : ℕ} {S : Set ℤ}

theorem isSome_of_mapM {ds : List ℕ} (h : cs.mapM decimalValue = some ds) :
    ∀ c ∈ cs, (decimalValue c).isSome := by
  induction cs generalizing ds with
  | nil => simp
  | cons c cs ih =>
    simp only [List.mapM_cons, Option.bind_eq_bind, Option.bind_eq_some_iff] at h
    obtain ⟨d, hd, ds', hds, -⟩ := h
    intro c' hc
    rcases List.mem_cons.mp hc with rfl | hc
    · exact Option.isSome_iff_exists.mpr ⟨d, hd⟩
    · exact ih hds c' hc

theorem numeral_isSome (h : acceptedSpelling.numeral cs n) : ∀ c ∈ cs, (decimalValue c).isSome := by
  obtain ⟨-, ds, hds, -⟩ := h
  exact isSome_of_mapM hds

theorem not_mem_numeral (h : acceptedSpelling.numeral cs n) : '/' ∉ cs ∧ '-' ∉ cs ∧ '*' ∉ cs := by
  refine ⟨fun hc => ?_, fun hc => ?_, fun hc => ?_⟩
  · exact absurd (numeral_isSome h _ hc) (by decide)
  · exact absurd (numeral_isSome h _ hc) (by decide)
  · exact absurd (numeral_isSome h _ hc) (by decide)

/-- What `isdigit()` and `int()` make of a text. -/
theorem numeral_iff {s : String} : acceptedSpelling.numeral s.toList n ↔
    pyIsDigit s = true ∧ intOfDigits s = .ok n := by
  have hnil : s.toList ≠ [] ↔ s ≠ "" := by simp
  unfold acceptedSpelling
  simp only
  constructor
  · rintro ⟨hne, ds, hds, hlen, rfl⟩
    refine ⟨?_, by simp [intOfDigits, hds, hlen]⟩
    simp only [pyIsDigit, Bool.and_eq_true, decide_eq_true_eq, List.all_eq_true, Bool.or_eq_true]
    exact ⟨hnil.mp hne, fun c hc => .inl (isSome_of_mapM hds c hc)⟩
  · rintro ⟨hdigit, hint⟩
    simp only [pyIsDigit, Bool.and_eq_true, decide_eq_true_eq] at hdigit
    unfold intOfDigits at hint
    split at hint
    · cases hint
    · rename_i ds hds
      split_ifs at hint with hlen
      cases hint
      exact ⟨hnil.mpr hdigit.1, ds, hds, hlen, rfl⟩

/-! ## Items -/

theorem pyPartition_eq {sep : Char} {s x y : String} (hs : s.toList = x.toList ++ sep :: y.toList)
    (hx : sep ∉ x.toList) : pyPartition sep s = (x, y) := by
  have hkeep : ∀ c ∈ x.toList, decide (c ≠ sep) = true := fun c hc =>
    decide_eq_true fun he => hx (he ▸ hc)
  have htake : s.toList.takeWhile (· ≠ sep) = x.toList := by
    rw [hs, List.takeWhile_append_of_pos hkeep]
    simp
  have hdrop : s.toList.dropWhile (· ≠ sep) = sep :: y.toList := by
    rw [hs, List.dropWhile_append_of_pos hkeep]
    simp
  unfold pyPartition
  rw [htake, hdrop]
  simp

theorem exists_partition {sep : Char} {s : String} (h : sep ∈ s.toList) :
    ∃ x y : String, s.toList = x.toList ++ sep :: y.toList ∧ sep ∉ x.toList := by
  obtain ⟨x, y, hs, hx⟩ := List.eq_append_cons_of_mem h
  exact ⟨.ofList x, .ofList y, by simpa using hs, by simpa using hx⟩

theorem parseStep_eq_ok {k : {n : ℕ // 0 < n}} : parseStep name item = .ok (base, k) ↔
    ('/' ∉ item.toList ∧ base = item ∧ k.1 = 1) ∨
      ∃ ns, item.toList = base.toList ++ '/' :: ns ∧ '/' ∉ base.toList ∧
        acceptedSpelling.numeral ns k.1 := by
  unfold parseStep
  by_cases hslash : '/' ∈ item.toList
  · obtain ⟨x, y, hs, hx⟩ := exists_partition hslash
    simp only [pyPartition_eq hs hx, hslash, not_true_eq_false, false_and, false_or, if_true]
    have hparts : (∃ ns, item.toList = base.toList ++ '/' :: ns ∧ '/' ∉ base.toList ∧
        acceptedSpelling.numeral ns k.1) ↔ x = base ∧ acceptedSpelling.numeral y.toList k.1 := by
      constructor
      · rintro ⟨ns, hitem, hbase, hns⟩
        obtain ⟨hxb, hyn⟩ := join_inj hx hbase (hs.symm.trans hitem)
        exact ⟨String.toList_inj.mp hxb, hyn ▸ hns⟩
      · rintro ⟨rfl, hns⟩
        exact ⟨y.toList, hs, hx, hns⟩
    rw [hparts, numeral_iff]
    cases hdigit : pyIsDigit y with
    | false => simp
    | true =>
      cases hint : intOfDigits y with
      | error e => simp [bind, Except.bind]
      | ok n =>
        simp only [bind, Except.bind, Bool.not_true, Bool.false_eq_true, if_false, true_and]
        by_cases hpos : 0 < n
        · simp [hpos, pure, Except.pure, Subtype.ext_iff]
        · have hk := k.2
          simp [hpos]
          omega
  · have hnone : ¬∃ ns, item.toList = base.toList ++ '/' :: ns ∧ '/' ∉ base.toList ∧
        acceptedSpelling.numeral ns k.1 := by
      rintro ⟨ns, hitem, -⟩
      exact hslash (hitem ▸ List.mem_append_right _ List.mem_cons_self)
    rw [if_neg hslash, or_iff_left hnone]
    simp only [Except.ok.injEq, Prod.mk.injEq, hslash, not_false_eq_true, true_and, Subtype.ext_iff]
    exact ⟨fun ⟨h, h'⟩ => ⟨h.symm, h'.symm⟩, fun ⟨h, h'⟩ => ⟨h.symm, h'.symm⟩⟩

variable {hle : lo ≤ hi}

/-- The first and the last value of the base of an item. -/
theorem parseBase_eq_ok {r : {r : ℤ × ℤ // r.1 ≤ r.2}} :
    parseBase hle name item base = .ok r ↔
      base = "*" ∧ r.1 = (lo, hi) ∨
      (∃ as bs a b, base.toList = as ++ '-' :: bs ∧ acceptedSpelling.numeral as a ∧
        acceptedSpelling.numeral bs b ∧ r.1 = ((a : ℤ), (b : ℤ))) ∨
      ∃ a, acceptedSpelling.numeral base.toList a ∧ r.1 = ((a : ℤ), (a : ℤ)) := by
  unfold parseBase
  by_cases hstar : base = "*"
  · subst hstar
    have hrange : ¬∃ as bs a b, "*".toList = as ++ '-' :: bs ∧ acceptedSpelling.numeral as a ∧
        acceptedSpelling.numeral bs b ∧ r.1 = ((a : ℤ), (b : ℤ)) := by
      rintro ⟨as, bs, a, b, h, -⟩
      have hmem : '-' ∈ "*".toList := h ▸ List.mem_append_right _ List.mem_cons_self
      exact absurd hmem (by decide)
    have hsingle : ¬∃ a, acceptedSpelling.numeral "*".toList a ∧ r.1 = ((a : ℤ), (a : ℤ)) := by
      rintro ⟨a, h, -⟩
      exact (not_mem_numeral h).2.2 (by decide)
    rw [if_pos rfl, or_iff_left (not_or.mpr ⟨hrange, hsingle⟩)]
    simp only [Except.ok.injEq, true_and, Subtype.ext_iff]
    exact eq_comm
  rw [if_neg hstar]
  simp only [hstar, false_and, false_or]
  by_cases hdash : '-' ∈ base.toList
  · obtain ⟨x, y, hs, hx⟩ := exists_partition hdash
    have hsingle : ¬∃ a, acceptedSpelling.numeral base.toList a ∧ r.1 = ((a : ℤ), (a : ℤ)) := by
      rintro ⟨a, h, -⟩
      exact (not_mem_numeral h).2.1 hdash
    have hparts : (∃ as bs a b, base.toList = as ++ '-' :: bs ∧ acceptedSpelling.numeral as a ∧
        acceptedSpelling.numeral bs b ∧ r.1 = ((a : ℤ), (b : ℤ))) ↔
        ∃ a b, acceptedSpelling.numeral x.toList a ∧ acceptedSpelling.numeral y.toList b ∧
          r.1 = ((a : ℤ), (b : ℤ)) := by
      constructor
      · rintro ⟨as, bs, a, b, h, ha, hb, hr⟩
        obtain ⟨rfl, rfl⟩ := join_inj hx (not_mem_numeral ha).2.1 (hs.symm.trans h)
        exact ⟨a, b, ha, hb, hr⟩
      · rintro ⟨a, b, ha, hb, hr⟩
        exact ⟨_, _, a, b, hs, ha, hb, hr⟩
    rw [if_pos hdash, or_iff_left hsingle, hparts]
    simp only [pyPartition_eq hs hx, numeral_iff]
    cases hdx : pyIsDigit x with
    | false => simp
    | true =>
    cases hdy : pyIsDigit y with
    | false => simp
    | true =>
    cases hix : intOfDigits x with
    | error e => simp [bind, Except.bind]
    | ok a =>
    cases hiy : intOfDigits y with
    | error e => simp [bind, Except.bind]
    | ok b =>
      simp only [bind, Except.bind, Bool.and_self, Bool.not_true, Bool.false_eq_true, if_false,
        true_and, Except.ok.injEq]
      by_cases hab : a ≤ b
      · simp only [hab, dif_pos, pure, Except.pure, Except.ok.injEq, Subtype.ext_iff]
        exact ⟨fun h => ⟨a, b, rfl, rfl, h.symm⟩, fun ⟨_, _, ha, hb, h⟩ => by rw [ha, hb, h]⟩
      · have hle := r.2
        simp only [hab, dif_neg, not_false_eq_true, reduceCtorEq, false_iff, not_exists, not_and]
        rintro _ _ rfl rfl hr
        rw [hr] at hle
        omega
  · have hrange : ¬∃ as bs a b, base.toList = as ++ '-' :: bs ∧ acceptedSpelling.numeral as a ∧
        acceptedSpelling.numeral bs b ∧ r.1 = ((a : ℤ), (b : ℤ)) := by
      rintro ⟨as, bs, a, b, h, -⟩
      exact hdash (h ▸ List.mem_append_right _ List.mem_cons_self)
    rw [if_neg hdash, or_iff_right hrange]
    simp only [numeral_iff]
    cases hdigit : pyIsDigit base with
    | false => simp
    | true =>
    cases hint : intOfDigits base with
    | error e => simp [bind, Except.bind]
    | ok a =>
      simp [bind, Except.bind, pure, Except.pure, Subtype.ext_iff, eq_comm]

theorem CronItem.mem_range_iff {i : CronItem lo hi} {v : ℤ} :
    v ∈ i.range ↔ v ∈ stepsOf i.first i.last i.step := by
  have hpos : (0 : ℤ) < i.step := Int.natCast_pos.mpr i.step_pos
  simp only [CronItem.range, stepsOf, List.mem_map, List.mem_range, Set.mem_ofPred_eq]
  constructor
  · rintro ⟨k, hk, rfl⟩
    have hnonneg := Int.ediv_nonneg (Int.sub_nonneg.mpr i.first_le_last) hpos.le
    have hk' : (k : ℤ) ≤ (i.last - i.first) / i.step := by omega
    have hlast := (Int.le_ediv_iff_mul_le hpos).mp hk'
    have hfirst : 0 ≤ (k : ℤ) * i.step := Int.mul_nonneg (Int.natCast_nonneg k) hpos.le
    exact ⟨by omega, by omega, k, by rw [mul_comm]; omega⟩
  · rintro ⟨hfirst, hlast, k, hk⟩
    have hk0 : 0 ≤ k := by
      by_contra hneg
      have := Int.mul_neg_of_pos_of_neg hpos (not_le.mp hneg)
      omega
    have hk' : k ≤ (i.last - i.first) / i.step := by
      rw [Int.le_ediv_iff_mul_le hpos, mul_comm]
      omega
    refine ⟨k.toNat, by omega, ?_⟩
    rw [Int.toNat_of_nonneg hk0, mul_comm]
    omega

theorem stepsOf_one (a b : ℤ) : stepsOf a b 1 = Set.Icc a b := by
  ext v
  simp [stepsOf]

theorem stepsOf_self (a : ℤ) (n : ℕ) : stepsOf a a n = {a} := by
  ext v
  simp only [stepsOf, Set.mem_ofPred_eq, Set.mem_singleton_iff]
  constructor
  · rintro ⟨h, h', -⟩
    exact le_antisymm h' h
  · rintro rfl
    simp

/-- An item is parsed to its base and its step, if they are within the bounds. -/
theorem parseItem_eq_ok :
    (∃ i, parseItem hle name text item = .ok i ∧ {v | v ∈ i.range} = S) ↔
      ∃ base k r, parseStep name item = .ok (base, k) ∧ parseBase hle name item base = .ok r ∧
        lo ≤ r.1.1 ∧ r.1.2 ≤ hi ∧ stepsOf r.1.1 r.1.2 k.1 = S := by
  have hrange : ∀ i : CronItem lo hi, {v | v ∈ i.range} = stepsOf i.first i.last i.step :=
    fun i => by
    ext v
    exact CronItem.mem_range_iff
  unfold parseItem
  constructor
  · rintro ⟨i, hi, rfl⟩
    split_ifs at hi
    cases hstep : parseStep name item with
    | error e =>
      rw [hstep] at hi
      cases hi
    | ok p =>
    obtain ⟨base, k⟩ := p
    rw [hstep] at hi
    simp only [bind, Except.bind] at hi
    cases hbase : parseBase hle name item base with
    | error e =>
      rw [hbase] at hi
      cases hi
    | ok r =>
    rw [hbase] at hi
    simp only at hi
    split_ifs at hi with hout
    cases hi
    refine ⟨base, k, r, rfl, hbase, not_lt.mp fun h => hout (.inl h),
      not_lt.mp fun h => hout (.inr h), ?_⟩
    rw [hrange]
  · rintro ⟨base, k, ⟨⟨first, last⟩, hfl⟩, hstep, hbase, hfirst, hlast, rfl⟩
    have hempty : item ≠ "" := by
      rintro rfl
      have hstep' : parseStep name "" = .ok ("", ⟨1, Nat.one_pos⟩) := rfl
      rw [hstep'] at hstep
      cases hstep
      cases hbase
    have hout : ¬(first < lo ∨ hi < last) := by
      simp only at hfirst hlast
      omega
    refine ⟨⟨first, last, k.1, hfl, k.2, hfirst, hlast⟩, ?_, hrange _⟩
    rw [if_neg hempty, hstep]
    simp only [bind, Except.bind, hbase]
    rw [dif_neg hout]
    rfl

/-- **What an item denotes** in the spelling of the code is what it is parsed to. -/
theorem itemDenotes_iff : ItemDenotes acceptedSpelling lo hi item.toList S ↔
    ∃ i, parseItem hle name text item = .ok i ∧ {v | v ∈ i.range} = S := by
  rw [parseItem_eq_ok]
  constructor
  · intro h
    generalize hcs : item.toList = cs at h
    cases h with
    | star =>
      obtain rfl : item = "*" := String.toList_inj.mp hcs
      exact ⟨"*", ⟨1, Nat.one_pos⟩, ⟨(lo, hi), hle⟩,
        parseStep_eq_ok.mpr (.inl ⟨by decide, rfl, rfl⟩),
        parseBase_eq_ok.mpr (.inl ⟨rfl, rfl⟩), le_rfl, le_rfl, stepsOf_one lo hi⟩
    | @starStep ns n hns hn =>
      exact ⟨"*", ⟨n, hn⟩, ⟨(lo, hi), hle⟩, parseStep_eq_ok.mpr (.inr ⟨ns, hcs, by decide, hns⟩),
        parseBase_eq_ok.mpr (.inl ⟨rfl, rfl⟩), le_rfl, le_rfl, rfl⟩
    | @range as bs a b ha hb hab hlo hhi =>
      have hslash : '/' ∉ item.toList := by
        rw [hcs]
        simp [(not_mem_numeral ha).1, (not_mem_numeral hb).1]
      exact ⟨item, ⟨1, Nat.one_pos⟩, ⟨(a, b), hab⟩, parseStep_eq_ok.mpr (.inl ⟨hslash, rfl, rfl⟩),
        parseBase_eq_ok.mpr (.inr (.inl ⟨as, bs, a, b, hcs, ha, hb, rfl⟩)), hlo, hhi,
        stepsOf_one _ _⟩
    | @rangeStep as bs ns a b n ha hb hab hlo hhi hns hn =>
      have hslash : '/' ∉ (String.ofList (as ++ '-' :: bs)).toList := by
        simp [(not_mem_numeral ha).1, (not_mem_numeral hb).1]
      exact ⟨.ofList (as ++ '-' :: bs), ⟨n, hn⟩, ⟨(a, b), hab⟩,
        parseStep_eq_ok.mpr (.inr ⟨ns, by simpa using hcs, hslash, hns⟩),
        parseBase_eq_ok.mpr (.inr (.inl ⟨as, bs, a, b, by simp, ha, hb, rfl⟩)), hlo, hhi, rfl⟩
    | @single as a ha hlo hhi =>
      have hslash : '/' ∉ item.toList := hcs ▸ (not_mem_numeral ha).1
      exact ⟨item, ⟨1, Nat.one_pos⟩, ⟨(a, a), le_rfl⟩,
        parseStep_eq_ok.mpr (.inl ⟨hslash, rfl, rfl⟩),
        parseBase_eq_ok.mpr (.inr (.inr ⟨a, hcs ▸ ha, rfl⟩)), hlo, hhi, stepsOf_self _ _⟩
    | @singleStep as ns a n _ ha hlo hhi hns hn =>
      exact ⟨.ofList as, ⟨n, hn⟩, ⟨(a, a), le_rfl⟩,
        parseStep_eq_ok.mpr (.inr ⟨ns, by simpa using hcs,
          by simpa using (not_mem_numeral ha).1, hns⟩),
        parseBase_eq_ok.mpr (.inr (.inr ⟨a, by simpa using ha, rfl⟩)), hlo, hhi, stepsOf_self _ _⟩
  · rintro ⟨base, ⟨n, hn⟩, ⟨⟨first, last⟩, hfl⟩, hstep, hbase, hlo, hhi, rfl⟩
    simp only at hlo hhi
    rcases parseStep_eq_ok.mp hstep with ⟨-, rfl, rfl⟩ | ⟨ns, hitem, -, hns⟩
    · rw [stepsOf_one]
      rcases parseBase_eq_ok.mp hbase with ⟨rfl, h⟩ | ⟨as, bs, a, b, hcs, ha, hb, h⟩ | ⟨a, ha, h⟩
      · cases h
        exact .star
      · cases h
        rw [hcs]
        exact .range ha hb hfl hlo hhi
      · cases h
        simpa using ItemDenotes.single ha hlo hhi
    · rw [hitem]
      rcases parseBase_eq_ok.mp hbase with ⟨rfl, h⟩ | ⟨as, bs, a, b, hcs, ha, hb, h⟩ | ⟨a, ha, h⟩
      · cases h
        exact .starStep hns hn
      · cases h
        rw [hcs]
        exact .rangeStep ha hb hfl hlo hhi hns hn
      · cases h
        rw [stepsOf_self]
        exact .singleStep trivial ha hlo hhi hns hn

/-! ## Fields and expressions -/

theorem mapM_eq_ok_iff_forall₂ {ε α β : Type} {f : α → Except ε β} {xs : List α} {ys : List β} :
    xs.mapM f = .ok ys ↔ List.Forall₂ (fun x y => f x = .ok y) xs ys := by
  induction xs generalizing ys with
  | nil =>
    rw [List.forall₂_nil_left_iff]
    exact ⟨fun h => (Except.ok.inj h).symm, fun h => h ▸ rfl⟩
  | cons x xs ih =>
    rw [List.mapM_cons, List.forall₂_cons_left_iff]
    cases hx : f x with
    | error e => simp [bind, Except.bind]
    | ok y =>
      cases hxs : xs.mapM f with
      | error e =>
        have hnone : ∀ ys, ¬List.Forall₂ (fun x y => f x = .ok y) xs ys := fun ys h => by
          rw [← ih, hxs] at h
          cases h
        simp [bind, Except.bind, hnone]
      | ok ys' =>
        have hiff : ∀ zs, List.Forall₂ (fun x y => f x = .ok y) xs zs ↔ ys' = zs := fun zs => by
          rw [← ih, hxs, Except.ok.injEq]
        simp only [bind, Except.bind, pure, Except.pure, Except.ok.injEq, hiff]
        exact ⟨fun h => ⟨y, ys', rfl, rfl, h.symm⟩, by rintro ⟨_, _, rfl, rfl, rfl⟩; rfl⟩

theorem forall₂_exists_map {α β γ : Type} {P : α → β → Prop} {g : β → γ} {xs : List α}
    {zs : List γ} : List.Forall₂ (fun x z => ∃ y, P x y ∧ g y = z) xs zs ↔
      ∃ ys, List.Forall₂ P xs ys ∧ ys.map g = zs := by
  induction xs generalizing zs with
  | nil => simp
  | cons x xs ih =>
    simp only [List.forall₂_cons_left_iff, ih]
    constructor
    · rintro ⟨_, _, ⟨y, hy, rfl⟩, ⟨ys, hys, rfl⟩, rfl⟩
      exact ⟨y :: ys, ⟨y, ys, hy, hys, rfl⟩, rfl⟩
    · rintro ⟨_, ⟨y, ys, hy, hys, rfl⟩, rfl⟩
      exact ⟨g y, ys.map g, ⟨y, hy, rfl⟩, ⟨ys, hys, rfl⟩, rfl⟩

theorem splitWhen_ne_nil {p : Char → Bool} (cs : List Char) : splitWhen p cs ≠ [] := by
  cases cs with
  | nil => exact List.cons_ne_nil _ _
  | cons c cs =>
    unfold splitWhen
    split
    · exact List.cons_ne_nil _ _
    · split <;> exact List.cons_ne_nil _ _

/-- The set of a field is the union of the sets of its items. -/
theorem CronField.mem_ofItems {i : CronItem lo hi} {items : List (CronItem lo hi)} {v : ℤ} :
    v ∈ (CronField.ofItems i items).values ↔ ∃ j ∈ i :: items, v ∈ j.range := by
  simp only [CronField.ofItems, mem_updateValues, List.mem_flatMap, List.not_mem_nil, or_false]

/-- **What a field denotes** in the spelling of the code is what it is parsed to. -/
theorem fieldDenotes_iff (hle : lo ≤ hi) : FieldDenotes acceptedSpelling lo hi text S ↔
    ∃ f, parseField hle name text = .ok f ∧ {v | v ∈ f.values} = S := by
  have hitems : FieldDenotes acceptedSpelling lo hi text S ↔
      ∃ items, (pySplit ',' text).mapM (parseItem hle name text) = .ok items ∧
        {v | ∃ i ∈ items, v ∈ i.range} = S := by
    have hrel : (fun item : String => ItemDenotes acceptedSpelling lo hi item.toList) =
        fun item T => ∃ i, parseItem hle name text item = .ok i ∧ {v | v ∈ i.range} = T := by
      funext item T
      exact propext itemDenotes_iff
    unfold FieldDenotes
    simp only [hrel, forall₂_exists_map, mapM_eq_ok_iff_forall₂]
    constructor
    · rintro ⟨_, ⟨items, h, rfl⟩, rfl⟩
      exact ⟨items, h, by simp⟩
    · rintro ⟨items, h, rfl⟩
      exact ⟨_, ⟨items, h, rfl⟩, by simp⟩
  rw [hitems]
  unfold parseField
  by_cases hempty : text = ""
  · subst hempty
    have herr : (pySplit ',' "").mapM (parseItem hle name "") =
        .error (.valueError (name ++ " field has an empty list element: " ++ pyRepr "")) := rfl
    simp [herr]
  rw [if_neg hempty]
  cases hm : (pySplit ',' text).mapM (parseItem hle name text) with
  | error e => simp [bind, Except.bind]
  | ok items =>
    cases items with
    | nil =>
      have hnil := mapM_eq_ok_iff_forall₂.mp hm
      rw [List.forall₂_nil_right_iff] at hnil
      exact absurd (List.map_eq_nil_iff.mp hnil) (splitWhen_ne_nil _)
    | cons i items =>
      simp only [bind, Except.bind, pure, Except.pure, Except.ok.injEq, exists_eq_left',
        CronField.mem_ofItems]

variable {s : String} {c : CronSchedule}

theorem parseCron_eq_ok : parseCron s = .ok c ↔
    ∃ minute hour day month dow, pySplitSpace s = [minute, hour, day, month, dow] ∧
      parseField (by decide) "minute" minute = .ok c.minute ∧
      parseField (by decide) "hour" hour = .ok c.hour ∧
      parseField (by decide) "day-of-month" day = .ok c.day ∧
      parseField (by decide) "month" month = .ok c.month ∧
      parseField (by decide) "day-of-week" dow = .ok c.dow ∧ c.expr = s := by
  unfold parseCron
  constructor
  · intro h
    split at h
    · rename_i minute hour day month dow hs
      simp only [bind, Except.bind, pure, Except.pure] at h
      split at h
      · cases h
      rename_i hminute
      split at h
      · cases h
      rename_i hhour
      split at h
      · cases h
      rename_i hday
      split at h
      · cases h
      rename_i hmonth
      split at h
      · cases h
      rename_i hdow
      cases h
      exact ⟨minute, hour, day, month, dow, hs, hminute, hhour, hday, hmonth, hdow, rfl⟩
    · cases h
  · rintro ⟨minute, hour, day, month, dow, hs, hminute, hhour, hday, hmonth, hdow, rfl⟩
    rw [hs]
    simp only [bind, Except.bind, hminute, hhour, hday, hmonth, hdow]
    rfl

/-- **What the code accepts**: the grammar in its own spelling, with the sets of the grammar. -/
theorem parseCron_iff {S : CronSets} :
    CronDenotes acceptedSpelling s S ↔ ∃ c, parseCron s = .ok c ∧ c.sets = S := by
  constructor
  · rintro ⟨minute, hour, day, month, dow, hs, hminute, hhour, hday, hmonth, hdow⟩
    obtain ⟨minute', hminute, hm⟩ := (fieldDenotes_iff (by decide)).mp hminute
    obtain ⟨hour', hhour, hh⟩ := (fieldDenotes_iff (by decide)).mp hhour
    obtain ⟨day', hday, hd⟩ := (fieldDenotes_iff (by decide)).mp hday
    obtain ⟨month', hmonth, hmo⟩ := (fieldDenotes_iff (by decide)).mp hmonth
    obtain ⟨dow', hdow, hw⟩ := (fieldDenotes_iff (by decide)).mp hdow
    refine ⟨⟨minute', hour', day', month', dow', s⟩, parseCron_eq_ok.mpr
      ⟨minute, hour, day, month, dow, hs, hminute, hhour, hday, hmonth, hdow, rfl⟩, ?_⟩
    simp only [CronSchedule.sets, hm, hh, hd, hmo, hw]
  · rintro ⟨c, hc, rfl⟩
    obtain ⟨minute, hour, day, month, dow, hs, hminute, hhour, hday, hmonth, hdow, -⟩ :=
      parseCron_eq_ok.mp hc
    exact ⟨minute, hour, day, month, dow, hs, (fieldDenotes_iff (by decide)).mpr ⟨_, hminute, rfl⟩,
      (fieldDenotes_iff (by decide)).mpr ⟨_, hhour, rfl⟩,
      (fieldDenotes_iff (by decide)).mpr ⟨_, hday, rfl⟩,
      (fieldDenotes_iff (by decide)).mpr ⟨_, hmonth, rfl⟩,
      (fieldDenotes_iff (by decide)).mpr ⟨_, hdow, rfl⟩⟩

/-! ## Refusals -/

/-- A computation that fails with a `ValueError` only. -/
def Refuses {α : Type} (x : Except PyException α) : Prop :=
  ∀ e, x = .error e → e.typeName = "ValueError"

namespace Refuses

variable {α β : Type} {x : Except PyException α} {f : α → Except PyException β}

theorem ok (a : α) : Refuses (.ok a : Except PyException α) := fun _ he => nomatch he

theorem valueError (message : String) :
    Refuses (.error (.valueError message) : Except PyException α) := by
  rintro e ⟨⟩
  rfl

theorem bind (hx : Refuses x) (hf : ∀ a, Refuses (f a)) : Refuses (x >>= f) := by
  cases x with
  | error e => exact fun e' he => hx e' (by cases he; rfl)
  | ok a => exact hf a

theorem mapM {k : β → Except PyException α} (hk : ∀ b, Refuses (k b)) (l : List β) :
    Refuses (l.mapM k) := by
  induction l with
  | nil => exact ok _
  | cons b l ih =>
    rw [List.mapM_cons]
    exact (hk b).bind fun _ => ih.bind fun _ => ok _

end Refuses

theorem refuses_intOfDigits (s : String) : Refuses (intOfDigits s) := by
  unfold intOfDigits
  split
  · exact .valueError _
  · split_ifs
    · exact .ok _
    · exact .valueError _

theorem refuses_parseStep : Refuses (parseStep name item) := by
  unfold parseStep
  simp only
  split_ifs
  · exact .valueError _
  · refine (refuses_intOfDigits _).bind fun n => ?_
    split_ifs
    · exact .ok _
    · exact .valueError _
  · exact .ok _

theorem refuses_parseBase : Refuses (parseBase hle name item base) := by
  unfold parseBase
  simp only
  split_ifs
  · exact .ok _
  · exact .valueError _
  · refine (refuses_intOfDigits _).bind fun a => (refuses_intOfDigits _).bind fun b => ?_
    split_ifs
    · exact .ok _
    · exact .valueError _
  · exact (refuses_intOfDigits _).bind fun a => .ok _
  · exact .valueError _

theorem refuses_parseItem : Refuses (parseItem hle name text item) := by
  unfold parseItem
  split_ifs
  · exact .valueError _
  · refine refuses_parseStep.bind fun p => refuses_parseBase.bind fun r => ?_
    simp only
    split_ifs
    · exact .valueError _
    · exact .ok _

theorem refuses_parseField : Refuses (parseField hle name text) := by
  unfold parseField
  split_ifs
  · exact .valueError _
  · refine (Refuses.mapM (fun _ => refuses_parseItem) _).bind fun items => ?_
    split
    · exact .valueError _
    · exact .ok _

/-- **Every refusal is a `ValueError`.** -/
theorem refuses_parseCron : Refuses (parseCron s) := by
  unfold parseCron
  split
  · exact refuses_parseField.bind fun _ => refuses_parseField.bind fun _ =>
      refuses_parseField.bind fun _ => refuses_parseField.bind fun _ =>
        refuses_parseField.bind fun _ => .ok _
  · exact .valueError _

/-! ## From one spelling to the other -/

section

variable {g g' : CronSpelling}

theorem exists_of_forall₂ {α β : Type*} {R : α → β → Prop} {xs : List α} {ys : List β} {x : α}
    (h : List.Forall₂ R xs ys) (hx : x ∈ xs) : ∃ y, R x y := by
  induction h with
  | nil => cases hx
  | cons hr _ ih =>
    rcases List.mem_cons.mp hx with rfl | hx
    · exact ⟨_, hr⟩
    · exact ih hx

theorem forall₂_mono_mem {α β : Type*} {R R' : α → β → Prop} {xs : List α} {ys : List β}
    (h : List.Forall₂ R xs ys) (hmono : ∀ x ∈ xs, ∀ y, R x y → R' x y) : List.Forall₂ R' xs ys := by
  induction h with
  | nil => exact .nil
  | cons hr _ ih =>
    obtain ⟨hx, hxs⟩ := List.forall_mem_cons.mp hmono
    exact .cons (hx _ hr) (ih hxs)

/-- What no item of a grammar is, no item of its expressions is. -/
theorem CronDenotes.not_someItem {T : CronSets} (h : CronDenotes g s T) {p : List Char → Prop}
    (hp : ∀ lo hi cs U, ItemDenotes g lo hi cs U → ¬p cs) : ¬SomeItem p s := by
  rintro ⟨field, hfield, item, hitem, hpi⟩
  obtain ⟨minute, hour, day, month, dow, hs, hminute, hhour, hday, hmonth, hdow⟩ := h
  rw [hs] at hfield
  have hnot : ∀ {lo hi U}, FieldDenotes g lo hi field U → False := by
    rintro lo hi U ⟨sets, hsets, -⟩
    obtain ⟨V, hV⟩ := exists_of_forall₂ hsets hitem
    exact hp _ _ _ V hV hpi
  simp only [List.mem_cons, List.not_mem_nil, or_false] at hfield
  rcases hfield with rfl | rfl | rfl | rfl | rfl
  · exact hnot hminute
  · exact hnot hhour
  · exact hnot hday
  · exact hnot hmonth
  · exact hnot hdow

/-- An expression without the items that another grammar lacks is one of that grammar. -/
theorem CronDenotes.mono {T : CronSets} (h : CronDenotes g s T) {p : List Char → Prop}
    (hp : ∀ lo hi cs U, ItemDenotes g lo hi cs U → ¬p cs → ItemDenotes g' lo hi cs U)
    (hs : ¬SomeItem p s) : CronDenotes g' s T := by
  obtain ⟨minute, hour, day, month, dow, hsplit, hminute, hhour, hday, hmonth, hdow⟩ := h
  have hfield : ∀ {lo hi field U}, field ∈ pySplitSpace s → FieldDenotes g lo hi field U →
      FieldDenotes g' lo hi field U := by
    rintro lo hi field U hmem ⟨sets, hsets, hU⟩
    exact ⟨sets, forall₂_mono_mem hsets fun item hitem V hV =>
      hp _ _ _ V hV fun hpi => hs ⟨field, hmem, item, hitem, hpi⟩, hU⟩
  rw [hsplit] at hfield
  exact ⟨minute, hour, day, month, dow, hsplit, hfield (by simp) hminute, hfield (by simp) hhour,
    hfield (by simp) hday, hfield (by simp) hmonth, hfield (by simp) hdow⟩

end

theorem decimalValue_of_isDigit {c : Char} (h : c.isDigit = true) :
    decimalValue c = some (digitValue c) := by
  have hrange : 48 ≤ c.toNat ∧ c.toNat ≤ 57 := by
    simp only [Char.isDigit, Bool.and_eq_true, decide_eq_true_eq, ge_iff_le,
      UInt32.le_iff_toNat_le] at h
    exact h
  have hfirst : (0x30 ≤ c.toNat && c.toNat ≤ 0x30 + 9) = true := by
    simp only [Bool.and_eq_true, decide_eq_true_eq]
    omega
  have hzeros : decimalZeros = 0x30 :: decimalZeros.tail := rfl
  unfold decimalValue
  rw [hzeros, List.find?_cons, hfirst]
  rfl

theorem mapM_decimalValue (h : ∀ c ∈ cs, c.isDigit = true) :
    cs.mapM decimalValue = some (cs.map digitValue) := by
  induction cs with
  | nil => rfl
  | cons c cs ih =>
    obtain ⟨hc, hcs⟩ := List.forall_mem_cons.mp h
    rw [List.mapM_cons, decimalValue_of_isDigit hc, ih hcs]
    rfl

/-- An ASCII numeral that is not too long is a numeral of the code. -/
theorem accepted_of_documented (h : documentedSpelling.numeral cs n)
    (hlen : cs.length ≤ maxIntDigits) :
    acceptedSpelling.numeral cs n := by
  obtain ⟨hne, hdigits, rfl⟩ := h
  exact ⟨hne, cs.map digitValue, mapM_decimalValue hdigits, by simpa using hlen, rfl⟩

/-- A numeral of the code in ASCII digits is a documented one. -/
theorem documented_of_accepted (h : acceptedSpelling.numeral cs n) (hdigits : ¬ScriptDigit cs) :
    documentedSpelling.numeral cs n := by
  have hall : ∀ c ∈ cs, c.isDigit = true := fun c hc => by
    by_contra hnot
    exact hdigits ⟨c, hc, numeral_isSome h c hc, by simpa using hnot⟩
  obtain ⟨hne, ds, hds, -, rfl⟩ := h
  rw [mapM_decimalValue hall, Option.some.injEq] at hds
  exact ⟨hne, hall, by rw [hds]⟩

theorem length_of_mapM {ds : List ℕ} (h : cs.mapM decimalValue = some ds) :
    ds.length = cs.length := by
  induction cs generalizing ds with
  | nil =>
    cases h
    rfl
  | cons c cs ih =>
    simp only [List.mapM_cons, Option.bind_eq_bind, Option.bind_eq_some_iff] at h
    obtain ⟨d, -, ds', hds, h⟩ := h
    cases h
    rw [List.length_cons, List.length_cons, ih hds]

theorem length_of_numeral (h : acceptedSpelling.numeral cs n) : cs.length ≤ maxIntDigits := by
  obtain ⟨-, ds, hds, hlen, -⟩ := h
  rwa [← length_of_mapM hds]

theorem documented_isSome (h : documentedSpelling.numeral cs n) :
    ∀ c ∈ cs, (decimalValue c).isSome := fun c hc => by
  rw [decimalValue_of_isDigit (h.2.1 c hc)]
  rfl

/-- Decimal digits are not the other characters of an item. -/
theorem ne_of_isSome {c : Char} (h : (decimalValue c).isSome) : c ≠ '*' ∧ c ≠ '-' ∧ c ≠ '/' := by
  refine ⟨?_, ?_, ?_⟩
  · rintro rfl
    exact absurd h (by decide)
  · rintro rfl
    exact absurd h (by decide)
  · rintro rfl
    exact absurd h (by decide)

/-- A property of the numerals of a spelling, all of whose digits are decimal. -/
structure Spells (g : CronSpelling) (p : List Char → Prop) : Prop where
  digits : ∀ {cs n}, g.numeral cs n → ∀ c ∈ cs, (decimalValue c).isSome
  holds : ∀ {cs n}, g.numeral cs n → p cs

theorem Spells.not_sep {g : CronSpelling} {p : List Char → Prop} (hg : Spells g p)
    (h : g.numeral cs n) : ∀ c ∈ cs, (c = '-' || c = '/') = false := fun c hc => by
  have hne := ne_of_isSome (hg.digits h c hc)
  simp [hne.2.1, hne.2.2]

theorem star_not_sep : ∀ c ∈ ['*'], (c = '-' || c = '/') = false :=
  List.forall_mem_singleton.mpr (by decide)

variable {U : Set ℤ}

/-- The pieces of an item are the star and its numerals. -/
theorem pieces_of_item {g : CronSpelling} {p : List Char → Prop} (hg : Spells g p) (hstar : p ['*'])
    (h : ItemDenotes g lo hi cs U) :
    ∀ piece ∈ splitWhen (fun c => c = '-' || c = '/') cs, p piece := by
  have hstar' := star_not_sep
  cases h with
  | star =>
    rw [splitWhen_eq_singleton hstar']
    simpa using hstar
  | @starStep ns n hns hn =>
    rw [show '*' :: '/' :: ns = ['*'] ++ '/' :: ns from rfl, splitWhen_append hstar' (by decide),
      splitWhen_eq_singleton (hg.not_sep hns)]
    simpa using ⟨hstar, hg.holds hns⟩
  | range ha hb =>
    rw [splitWhen_append (hg.not_sep ha) (by decide), splitWhen_eq_singleton (hg.not_sep hb)]
    simpa using ⟨hg.holds ha, hg.holds hb⟩
  | rangeStep ha hb _ _ _ hns =>
    rw [List.append_assoc, List.cons_append, splitWhen_append (hg.not_sep ha) (by decide),
      splitWhen_append (hg.not_sep hb) (by decide), splitWhen_eq_singleton (hg.not_sep hns)]
    simpa using ⟨hg.holds ha, hg.holds hb, hg.holds hns⟩
  | single ha =>
    rw [splitWhen_eq_singleton (hg.not_sep ha)]
    simpa using hg.holds ha
  | singleStep _ ha _ _ hns =>
    rw [splitWhen_append (hg.not_sep ha) (by decide), splitWhen_eq_singleton (hg.not_sep hns)]
    simpa using ⟨hg.holds ha, hg.holds hns⟩

/-- No item of the code's grammar has a number that is too long. -/
theorem not_longNumber_of_item (h : ItemDenotes acceptedSpelling lo hi cs U) :
    ¬LongNumber cs := by
  rintro ⟨piece, hpiece, hlong⟩
  have hshort := pieces_of_item (p := fun cs => cs.length ≤ maxIntDigits)
    ⟨numeral_isSome, length_of_numeral⟩ (by decide) h piece hpiece
  exact absurd hlong (not_lt.mpr hshort)

/-- No documented item has a step after a bare integer. -/
theorem not_loneStep_of_item (h : ItemDenotes documentedSpelling lo hi cs U) :
    ¬LoneStep cs := by
  rintro ⟨as, ns, hcs, hne, hdigits⟩
  have has : '/' ∉ as := fun hc => (ne_of_isSome (hdigits _ hc)).2.2 rfl
  have hnum : ∀ {bs n}, documentedSpelling.numeral bs n → '/' ∉ bs := fun hb hc =>
    (ne_of_isSome (documented_isSome hb _ hc)).2.2 rfl
  have hmem : '/' ∈ cs := hcs ▸ List.mem_append_right _ List.mem_cons_self
  cases h with
  | star => exact absurd hmem (by decide)
  | @starStep ms n hms hn =>
    have hsplit : ['*'] ++ '/' :: ms = as ++ '/' :: ns := hcs
    obtain ⟨rfl, -⟩ := join_inj (by decide) has hsplit
    exact (ne_of_isSome (hdigits '*' List.mem_cons_self)).1 rfl
  | range ha hb =>
    simp [hnum ha, hnum hb] at hmem
  | @rangeStep xs ys ms a b n ha hb _ _ _ hms =>
    have hx : '/' ∉ xs ++ '-' :: ys := by simp [hnum ha, hnum hb]
    obtain ⟨rfl, -⟩ := join_inj hx has hcs
    exact (ne_of_isSome (hdigits '-' (by simp))).2.1 rfl
  | single ha => exact hnum ha hmem
  | singleStep hlone => exact hlone

theorem not_scriptDigit_of_item (h : ItemDenotes documentedSpelling lo hi cs U) :
    ¬ScriptDigit cs := by
  rintro ⟨c, hc, hsome, hdigit⟩
  have hne := ne_of_isSome hsome
  have hnum : ∀ {bs n}, documentedSpelling.numeral bs n → c ∉ bs := fun hb hc => by
    rw [hb.2.1 c hc] at hdigit
    cases hdigit
  cases h with
  | star => simp [hne] at hc
  | starStep hns => simp [hne, hnum hns] at hc
  | range ha hb => simp [hne, hnum ha, hnum hb] at hc
  | rangeStep ha hb _ _ _ hns => simp [hne, hnum ha, hnum hb, hnum hns] at hc
  | single ha => exact hnum ha hc
  | singleStep hlone => exact hlone

/-- A documented item without a number that is too long is one of the code's grammar. -/
theorem item_accepted (h : ItemDenotes documentedSpelling lo hi cs U)
    (hlong : ¬LongNumber cs) : ItemDenotes acceptedSpelling lo hi cs U := by
  have hspells : Spells documentedSpelling fun _ => True := ⟨documented_isSome, fun _ => trivial⟩
  have hnum : ∀ {piece n}, documentedSpelling.numeral piece n →
      piece ∈ splitWhen (fun c => c = '-' || c = '/') cs → acceptedSpelling.numeral piece n :=
    fun hd hpiece => accepted_of_documented hd (not_lt.mp fun hlt => hlong ⟨_, hpiece, hlt⟩)
  cases h with
  | star => exact .star
  | @starStep ns n hns hn =>
    refine .starStep (hnum hns ?_) hn
    rw [show '*' :: '/' :: ns = ['*'] ++ '/' :: ns from rfl,
      splitWhen_append star_not_sep (by decide),
      splitWhen_eq_singleton (hspells.not_sep hns)]
    simp
  | range ha hb hab hlo hhi =>
    rw [splitWhen_append (hspells.not_sep ha) (by decide),
      splitWhen_eq_singleton (hspells.not_sep hb)] at hnum
    exact .range (hnum ha (by simp)) (hnum hb (by simp)) hab hlo hhi
  | rangeStep ha hb hab hlo hhi hns hn =>
    rw [List.append_assoc, List.cons_append, splitWhen_append (hspells.not_sep ha) (by decide),
      splitWhen_append (hspells.not_sep hb) (by decide),
      splitWhen_eq_singleton (hspells.not_sep hns)] at hnum
    exact .rangeStep (hnum ha (by simp)) (hnum hb (by simp)) hab hlo hhi (hnum hns (by simp)) hn
  | single ha hlo hhi =>
    rw [splitWhen_eq_singleton (hspells.not_sep ha)] at hnum
    exact .single (hnum ha (by simp)) hlo hhi
  | singleStep hlone => exact hlone.elim

/-- An item of the code's grammar without the two oddities is documented. -/
theorem item_documented (h : ItemDenotes acceptedSpelling lo hi cs U)
    (hodd : ¬(LoneStep cs ∨ ScriptDigit cs)) : ItemDenotes documentedSpelling lo hi cs U := by
  obtain ⟨hlone, hscript⟩ := not_or.mp hodd
  have hpart : ∀ {bs}, (∀ c ∈ bs, c ∈ cs) → ¬ScriptDigit bs := fun hsub ⟨c, hc, hd⟩ =>
    hscript ⟨c, hsub c hc, hd⟩
  cases h with
  | star => exact .star
  | starStep hns hn => exact .starStep (documented_of_accepted hns (hpart (by simp +contextual))) hn
  | range ha hb hab hlo hhi =>
    exact .range (documented_of_accepted ha (hpart (by simp +contextual)))
      (documented_of_accepted hb (hpart (by simp +contextual))) hab hlo hhi
  | rangeStep ha hb hab hlo hhi hns hn =>
    exact .rangeStep (documented_of_accepted ha (hpart (by simp +contextual)))
      (documented_of_accepted hb (hpart (by simp +contextual))) hab hlo hhi
      (documented_of_accepted hns (hpart (by simp +contextual))) hn
  | single ha hlo hhi => exact .single (documented_of_accepted ha hscript) hlo hhi
  | @singleStep as ns a n _ ha =>
    exact absurd ⟨as, ns, rfl, ha.1, numeral_isSome ha⟩ hlone

end Varco
