import Mathlib.Data.List.Dedup
import Mathlib.Data.List.Sort
import Mathlib.Data.String.Basic
import Varco.Foundations.Dict
import Varco.Foundations.Python

/-!
# Stored encryption keys

`EncryptionKeyEntry` and `InMemoryEncryptionKeyStore` of `varco_core.encryption_store`. The key
material of an entry stands for the bytes of its base64 text, so the text is empty if and only if
there are no bytes.
-/

namespace Varco

structure EncryptionKeyEntry where
  kid : String
  algorithm : String
  keyMaterial : Bytes
  createdAt : Instant
  tenantId : Option String
  isPrimary : Bool
  wrapped : Bool
  scope : Option String
  destroyedAt : Option Instant
  deriving DecidableEq

namespace EncryptionKeyEntry

/-- The constructor, with its defaults and `__post_init__`: the scope defaults to the tenant. -/
def new (kid algorithm : String) (keyMaterial : Bytes) (createdAt : Instant)
    (tenantId : Option String := none) (isPrimary : Bool := true) (wrapped : Bool := false)
    (scope : Option String := none) (destroyedAt : Option Instant := none) :
    EncryptionKeyEntry where
  kid
  algorithm
  keyMaterial
  createdAt
  tenantId
  isPrimary
  wrapped
  scope := if scope = none then tenantId else scope
  destroyedAt

def isDestroyed (e : EncryptionKeyEntry) : Bool := e.destroyedAt.isSome

/-- `dataclasses.replace(entry, key_material="", destroyed_at=now)` -/
def tombstone (e : EncryptionKeyEntry) (now : Instant) : EncryptionKeyEntry :=
  { e with keyMaterial := [], destroyedAt := some now }

/-- `dataclasses.replace(entry, is_primary=False)` -/
def demoted (e : EncryptionKeyEntry) : EncryptionKeyEntry := { e with isPrimary := false }

end EncryptionKeyEntry

abbrev InMemoryEncryptionKeyStore := Dict String EncryptionKeyEntry

namespace InMemoryEncryptionKeyStore

def save (store : InMemoryEncryptionKeyStore) (entry : EncryptionKeyEntry) :
    InMemoryEncryptionKeyStore :=
  store.set entry.kid entry

def load (store : InMemoryEncryptionKeyStore) (kid : String) : Option EncryptionKeyEntry :=
  store.get? kid

def byCreation (l : List EncryptionKeyEntry) : List EncryptionKeyEntry :=
  l.insertionSort fun e e' => e.createdAt ≤ e'.createdAt

def loadForTenant (store : InMemoryEncryptionKeyStore) (tenantId : Option String) :
    List EncryptionKeyEntry :=
  byCreation (store.values.filter (·.tenantId = tenantId))

def listTenants (store : InMemoryEncryptionKeyStore) : List String :=
  ((store.values.filterMap (·.tenantId)).dedup).insertionSort (· ≤ ·)

def loadForScope (store : InMemoryEncryptionKeyStore) (scope : Option String) :
    List EncryptionKeyEntry :=
  byCreation (store.values.filter (·.scope = scope))

def doomed (store : InMemoryEncryptionKeyStore) (scope : String) :
    List (String × EncryptionKeyEntry) :=
  store.entries.filter fun p => p.2.scope = some scope ∧ p.2.isDestroyed = false

/-- `destroy_scope`, at the time `now`. -/
def destroyScope (store : InMemoryEncryptionKeyStore) (scope : String) (now : Instant) :
    List String × InMemoryEncryptionKeyStore :=
  ((store.doomed scope).map Prod.fst,
    ((store.doomed scope).map fun p => (p.1, p.2.tombstone now)).foldl
      (fun s p => s.set p.1 p.2) store)

variable {store : InMemoryEncryptionKeyStore} {entry e : EncryptionKeyEntry} {kid : String}
  {now : Instant}

theorem mem_byCreation {l : List EncryptionKeyEntry} : e ∈ byCreation l ↔ e ∈ l :=
  (List.perm_insertionSort ..).mem_iff

theorem mem_loadForTenant {tenantId : Option String} :
    e ∈ store.loadForTenant tenantId ↔ e ∈ store.values ∧ e.tenantId = tenantId := by
  simp [loadForTenant, mem_byCreation]

theorem mem_loadForScope {scope : Option String} :
    e ∈ store.loadForScope scope ↔ e ∈ store.values ∧ e.scope = scope := by
  simp [loadForScope, mem_byCreation]

theorem mem_listTenants {tenantId : String} :
    tenantId ∈ store.listTenants ↔ ∃ e ∈ store.values, e.tenantId = some tenantId := by
  unfold listTenants
  rw [(List.perm_insertionSort ..).mem_iff, List.mem_dedup, List.mem_filterMap]

theorem load_save : (store.save entry).load kid =
    if kid = entry.kid then some entry else store.load kid :=
  Dict.get?_set ..

theorem mem_doomed {scope : String} :
    (kid, e) ∈ store.doomed scope ↔
      store.load kid = some e ∧ e.scope = some scope ∧ e.isDestroyed = false := by
  simp [doomed, load, Dict.mem_entries]

theorem mem_destroyScope_fst {scope : String} :
    kid ∈ (store.destroyScope scope now).1 ↔
      ∃ e, store.load kid = some e ∧ e.scope = some scope ∧ e.isDestroyed = false := by
  simp only [destroyScope, List.mem_map, Prod.exists, exists_and_right, exists_eq_right, mem_doomed]

/-- **`destroy_scope`** tombstones the entries of the scope that are not destroyed, and leaves the
others alone. -/
theorem load_destroyScope {scope : String} : (store.destroyScope scope now).2.load kid =
    (store.load kid).map fun e =>
      if e.scope = some scope ∧ e.isDestroyed = false then e.tombstone now else e := by
  have hkeys : ((store.doomed scope).map fun p => (p.1, p.2.tombstone now)).map Prod.fst =
      (store.doomed scope).map Prod.fst := by
    rw [List.map_map]
    rfl
  have hnodup : (((store.doomed scope).map fun p => (p.1, p.2.tombstone now)).map Prod.fst).Nodup :=
    hkeys ▸ store.nodup.sublist ((List.filter_sublist).map _)
  -- the tombstones as a dictionary of their own
  let tombstones : InMemoryEncryptionKeyStore := ⟨_, hnodup⟩
  have hmem : ∀ e', tombstones.get? kid = some e' ↔
      ∃ e, (kid, e) ∈ store.doomed scope ∧ e.tombstone now = e' := by
    intro e'
    rw [← Dict.mem_entries]
    simp [tombstones]
  refine (Dict.get?_foldl_set_entries store hnodup kid).trans ?_
  change (tombstones.get? kid).or (store.load kid) = _
  cases hload : store.load kid with
  | none =>
    have hnone : tombstones.get? kid = none := by
      by_contra hsome
      obtain ⟨e', he'⟩ := Option.ne_none_iff_exists'.mp hsome
      obtain ⟨e, he, -⟩ := (hmem e').mp he'
      rw [mem_doomed, hload] at he
      cases he.1
    simp [hnone]
  | some e =>
    by_cases hdoomed : e.scope = some scope ∧ e.isDestroyed = false
    · have hsome : tombstones.get? kid = some (e.tombstone now) :=
        (hmem _).mpr ⟨e, mem_doomed.mpr ⟨hload, hdoomed⟩, rfl⟩
      simp [hsome, hdoomed]
    · have hnone : tombstones.get? kid = none := by
        by_contra hsome
        obtain ⟨e', he'⟩ := Option.ne_none_iff_exists'.mp hsome
        obtain ⟨e₁, he₁, -⟩ := (hmem e').mp he'
        rw [mem_doomed, hload] at he₁
        cases he₁.1
        exact hdoomed he₁.2
      simp [hnone, hdoomed]

end InMemoryEncryptionKeyStore

end Varco
