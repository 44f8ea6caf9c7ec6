import Mathlib.Order.Lattice

/-!
# Keys that expire

A key-value server in the manner of Redis: a value may have a time at which it expires, and after it
the key is missing. What is found at a time is a function of that time (`live`); nothing
that has expired is ever found again, so the keys found later are among those found now
(`live_of_le`).
-/

namespace Varco

/-- The value of each key, and when it expires. -/
structure Expiring (κ ν τ : Type) where
  entries : κ → Option (ν × Option τ)

namespace Expiring

variable {κ ν τ : Type} [LinearOrder τ]

def empty : Expiring κ ν τ := ⟨fun _ => none⟩

def isLive (now : τ) (entry : ν × Option τ) : Bool := entry.2.all (now ≤ ·)

def live (m : Expiring κ ν τ) (now : τ) (k : κ) : Option (ν × Option τ) :=
  (m.entries k).filter (isLive now)

def get (m : Expiring κ ν τ) (now : τ) (k : κ) : Option ν := (m.live now k).map Prod.fst

variable [DecidableEq κ]

def put (m : Expiring κ ν τ) (k : κ) (entry : ν × Option τ) : Expiring κ ν τ :=
  ⟨Function.update m.entries k (some entry)⟩

/-- `SET NX` with an expiry: whether the key was missing. -/
def setNx (m : Expiring κ ν τ) (now : τ) (k : κ) (v : ν) (expiry : τ) : Bool × Expiring κ ν τ :=
  match m.live now k with
  | none => (true, m.put k (v, some expiry))
  | some _ => (false, m)

/-- `SET KEEPTTL`: a key that is missing is created without an expiry. -/
def setKeepTtl (m : Expiring κ ν τ) (now : τ) (k : κ) (v : ν) : Expiring κ ν τ :=
  m.put k (v, (m.live now k).bind Prod.snd)

def del (m : Expiring κ ν τ) (k : κ) : Expiring κ ν τ := ⟨Function.update m.entries k none⟩

variable {m : Expiring κ ν τ} {now t : τ} {k k' : κ} {entry : ν × Option τ}

omit [DecidableEq κ] in
theorem isLive_of_le (h : now ≤ t) (hl : isLive t entry = true) : isLive now entry = true := by
  obtain ⟨v, _ | expiry⟩ := entry
  · rfl
  · simp only [isLive, Option.all_some, decide_eq_true_eq] at hl ⊢
    exact h.trans hl

omit [DecidableEq κ] in
/-- **What has expired is not found again.** -/
theorem live_of_le (h : now ≤ t) (k : κ) : m.live t k = (m.live now k).filter (isLive t) := by
  unfold live
  cases hk : m.entries k with
  | none => rfl
  | some entry =>
    by_cases hl : isLive t entry = true
    · simp [Option.filter, hl, isLive_of_le h hl]
    · by_cases hn : isLive now entry = true
      · simp [Option.filter, hl, hn]
      · simp [Option.filter, hl, hn]

theorem live_put_self (h : isLive now entry = true) : (m.put k entry).live now k = some entry := by
  simp [live, put, Option.filter, h]

theorem live_put_ne (h : k' ≠ k) : (m.put k entry).live now k' = m.live now k' := by
  simp [live, put, Function.update_of_ne h]

theorem live_del_self : (m.del k).live now k = none := by
  simp [live, del]

theorem live_del_ne (h : k' ≠ k) : (m.del k).live now k' = m.live now k' := by
  simp [live, del, Function.update_of_ne h]

end Expiring

end Varco
