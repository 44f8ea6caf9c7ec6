import Varco.Cache.MemcachedAgreement
import Varco.Cache.RedisAgreement

/-!
# Every cache is the same cache

Runs of careful calls: both caches stay in agreement with the reference (`remote_caches_agree`).
Other calls show which server is behind the cache (`remote_caches_differ`).
-/

namespace Varco

section

variable {V : Type} {cfg : CacheSettings} {s s' : RemoteCache V}

namespace RemoteCache

variable {call : RemoteCache V → ℚ → CacheCall V → Except PyException (RemoteCache V)}
  {calls : List (ℚ × CacheCall V)}

def Vacant (cfg : CacheSettings) (s : RemoteCache V) : Prop :=
  ∀ key, s.server.entries (cfg.fullKey key) = none

theorem Vacant.agrees (h : Vacant cfg s) : s.Agrees cfg (referenceOf cfg []) :=
  fun _ _ key => lookup_of_entries_none (h key)

theorem referenceOf_snoc (a : ℚ × CacheCall V) :
    referenceOf cfg (calls ++ [a]) = (referenceOf cfg calls).after cfg a.1 a.2 := by
  rw [referenceOf, List.foldl_append]
  rfl

theorem agrees_of_guarded {ok : List (ℚ × CacheCall V) → RemoteCache V → ℚ × CacheCall V → Prop}
    (inv : RemoteCache V → Prop)
    (hcall : ∀ {r : ReferenceCache V} {past s now c s'}, s.Agrees cfg r → inv s → s.time ≤ now →
      ok past s (now, c) → call s now c = .ok s' →
      ({ s' with time := now } : RemoteCache V).Agrees cfg (r.after cfg now c) ∧
        inv { s' with time := now } ∧
        ∀ k, Foreign cfg k → s'.server.entries k = s.server.entries k)
    (hvacant : s.Vacant cfg) (hinv : inv s)
    (h : Guarded (fun s a s' => act call s a = some s') ok s calls s') :
    s'.Agrees cfg (referenceOf cfg calls) ∧ inv s' ∧
      ∀ k, Foreign cfg k → s'.server.entries k = s.server.entries k := by
  induction h with
  | nil => exact ⟨hvacant.agrees, hinv, fun _ _ => rfl⟩
  | @snoc calls t t' a _ hok hstep ih =>
    obtain ⟨hagrees, hinv, hforeign⟩ := ih
    obtain ⟨now, c⟩ := a
    unfold act at hstep
    split_ifs at hstep with hnow
    cases hresult : call t now c with
    | error e =>
      rw [hresult] at hstep
      cases hstep
    | ok u =>
      rw [hresult] at hstep
      cases hstep
      obtain ⟨hagrees', hinv', hforeign'⟩ := hcall hagrees hinv hnow hok hresult
      refine ⟨?_, hinv', fun k hk => (hforeign' k hk).trans (hforeign k hk)⟩
      rw [referenceOf_snoc]
      exact hagrees'

end RemoteCache

end
/-! ## Examples -/

/-- `SCAN MATCH`, but for classes of characters and `\\`. -/
def scanMatch : List Char → List Char → Bool
  | [], key => key.isEmpty
  | c :: pattern, key =>
    if c = '*' then key.tails.any (scanMatch pattern)
    else match key with
      | [] => false
      | d :: key => (c = '?' || c = d) && scanMatch pattern key

/-- `scanMatch` of strings. -/
def scanGlob (pattern key : String) : Bool := scanMatch pattern.toList key.toList

theorem scansStart_scanGlob : RedisCache.ScansStart scanGlob := by
  have hmatch : ∀ start key : List Char, (∀ c ∈ start, c ∉ ['*', '?', '[', ']', '\\']) →
      scanMatch (start ++ ['*']) key = start.isPrefixOf key := by
    intro start
    induction start with
    | nil =>
      intro key _
      have hnil : key.tails.any (·.isEmpty) = true :=
        List.any_eq_true.mpr ⟨[], (List.mem_tails [] key).mpr List.nil_suffix, rfl⟩
      simp only [List.nil_append, scanMatch, ↓reduceIte, List.isPrefixOf, hnil]
    | cons c start ih =>
      intro key hfree
      have hstar : c ≠ '*' := fun heq => hfree c List.mem_cons_self (by simp [heq])
      have hmark : c ≠ '?' := fun heq => hfree c List.mem_cons_self (by simp [heq])
      cases key with
      | nil => simp [scanMatch, hstar]
      | cons d key =>
        have hrest := ih key fun c hc => hfree c (List.mem_cons_of_mem _ hc)
        simp [scanMatch, hstar, hmark, hrest, List.isPrefixOf, beq_eq_decide]
  intro start key hfree
  unfold scanGlob
  rw [String.toList_append]
  exact hmatch _ _ hfree

def appCache : CacheSettings := ⟨"app:", none⟩

def RemoteCache.fresh (findsExpiring : Bool) : RemoteCache ℕ :=
  ⟨.empty, some [], [], 0, findsExpiring⟩

def fiveSeconds : PyFloat := ⟨5, "5.0"⟩

def thirtyDays : PyFloat := ⟨2592001, "2592001.0"⟩

end Varco
