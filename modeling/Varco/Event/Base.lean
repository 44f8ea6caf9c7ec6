import Varco.Foundations.Calendar
import Varco.Foundations.Dict

/-!
# Event classes

The subclasses of `Event` in `varco_core.event.base`. Each is registered as it is defined, under
its type name: the `__event_type__` that it declares or, since `getattr` looks in the base classes
too, that the nearest of its bases declares, and otherwise its own name. A class that inherits a
declaration takes the place of the class it inherits it from; `registry_get_iff` says when a class
is the one that its type name leads to.
-/

namespace Varco

open List

/-! ## Classes -/

/-- A class derived from `Event`, or from another such class: its base, its `__name__` and the
`__event_type__` in its own body. -/
inductive EventClass
  | ofEvent (name : String) (eventType : Option String)
  | ofClass (base : EventClass) (name : String) (eventType : Option String)
  deriving DecidableEq

namespace EventClass

/-- `cls.__name__` -/
def name : EventClass → String
  | .ofEvent name _ => name
  | .ofClass _ name _ => name

/-- The `__event_type__` that a class declares itself. -/
def declared : EventClass → Option String
  | .ofEvent _ eventType => eventType
  | .ofClass _ _ eventType => eventType

/-- The class that a class is derived from, unless that is `Event`. -/
def base? : EventClass → Option EventClass
  | .ofEvent _ _ => none
  | .ofClass base _ _ => some base

/-- `cls.__event_type__`, looked up in the bases. -/
def eventType? : EventClass → Option String
  | .ofEvent _ eventType => eventType
  | .ofClass base _ eventType => eventType.or base.eventType?

def eventTypeName (c : EventClass) : String := c.eventType?.getD c.name

/-- The class whose declaration a class takes its `__event_type__` from. -/
def declarer : EventClass → Option EventClass
  | .ofEvent name (some n) => some (.ofEvent name (some n))
  | .ofEvent _ none => none
  | .ofClass base name (some n) => some (.ofClass base name (some n))
  | .ofClass base _ none => base.declarer

theorem eventType?_eq (c : EventClass) : c.eventType? = c.declarer.bind declared := by
  induction c with
  | ofEvent name eventType => cases eventType <;> rfl
  | ofClass base name eventType ih =>
    cases eventType with
    | none => exact ih
    | some n => rfl

theorem declared_of_declarer {c d : EventClass} (h : c.declarer = some d) :
    ∃ n, d.declared = some n := by
  induction c with
  | ofEvent name eventType =>
    cases eventType with
    | none => cases h
    | some n =>
      cases h
      exact ⟨n, rfl⟩
  | ofClass base name eventType ih =>
    cases eventType with
    | none => exact ih h
    | some n =>
      cases h
      exact ⟨n, rfl⟩

/-- A class with a declaration above it is named by the declaration. -/
theorem eventTypeName_of_declarer {c d : EventClass} (h : c.declarer = some d) :
    d.declared = some c.eventTypeName := by
  obtain ⟨n, hn⟩ := declared_of_declarer h
  rw [eventTypeName, eventType?_eq, h, Option.bind_some, hn]
  rfl

/-- A class without a declaration above it is named by itself. -/
theorem eventTypeName_of_none {c : EventClass} (h : c.declarer = none) :
    c.eventTypeName = c.name := by
  rw [eventTypeName, eventType?_eq, h]
  rfl

end EventClass

/-! ## The registry -/

/-- The classes of a program, in the order of their definitions: a base comes before what is derived
from it. -/
structure EventForest where
  classes : List EventClass
  nodup : classes.Nodup
  bases_first : ∀ earlier c later, classes = earlier ++ c :: later →
    ∀ base, c.base? = some base → base ∈ earlier

/-- The names of the classes are distinct, and so are the declared names, which are no names of
classes. -/
structure EventForest.DistinctNames (forest : EventForest) : Prop where
  names : ∀ c ∈ forest.classes, ∀ c' ∈ forest.classes, c.name = c'.name → c = c'
  declared : ∀ c ∈ forest.classes, ∀ c' ∈ forest.classes, ∀ n, c.declared = some n →
    c'.declared = some n → c = c'
  apart : ∀ c ∈ forest.classes, ∀ c' ∈ forest.classes, c.declared ≠ some c'.name

/-- `Event._registry`, after the `__init_subclass__` of each class. -/
def registry (classes : List EventClass) : Dict String EventClass :=
  classes.foldl (fun r c => r.set c.eventTypeName c) .empty

def definedAfter (classes : List EventClass) (c : EventClass) : List EventClass :=
  (classes.dropWhile (· ≠ c)).tail

theorem exists_definedAfter {classes : List EventClass} {c : EventClass} (h : c ∈ classes) :
    ∃ earlier, classes = earlier ++ c :: definedAfter classes c := by
  induction classes with
  | nil => cases h
  | cons c' classes ih =>
    by_cases hc : c' = c
    · exact ⟨[], by simp [definedAfter, hc]⟩
    · obtain ⟨earlier, he⟩ := ih ((mem_cons.mp h).resolve_left (Ne.symm hc))
      refine ⟨c' :: earlier, ?_⟩
      have hafter : definedAfter (c' :: classes) c = definedAfter classes c := by
        simp [definedAfter, hc]
      rw [hafter, cons_append, ← he]

/-- The last class with a type name is the one that the name leads to. -/
theorem get?_foldl_set_type (r : Dict String EventClass) (classes : List EventClass) (n : String) :
    (classes.foldl (fun r c => r.set c.eventTypeName c) r).get? n =
      ((classes.reverse.find? (·.eventTypeName = n)).or (r.get? n)) := by
  induction classes generalizing r with
  | nil => rfl
  | cons c classes ih =>
    rw [foldl_cons, ih, Dict.get?_set, reverse_cons, List.find?_append]
    by_cases hn : c.eventTypeName = n
    · cases classes.reverse.find? (·.eventTypeName = n) <;> simp [hn]
    · cases classes.reverse.find? (·.eventTypeName = n) <;> simp [hn, Ne.symm hn]

namespace EventForest

variable {forest : EventForest} {c c' d : EventClass}

theorem base_mem (h : c ∈ forest.classes) {base : EventClass} (hbase : c.base? = some base) :
    base ∈ forest.classes := by
  obtain ⟨earlier, later, he⟩ := append_of_mem h
  have hearlier := forest.bases_first earlier c later he base hbase
  rw [he]
  exact mem_append_left _ hearlier

theorem declarer_mem (h : c ∈ forest.classes) (hd : c.declarer = some d) : d ∈ forest.classes := by
  induction c with
  | ofEvent name eventType =>
    cases eventType with
    | none => cases hd
    | some n =>
      cases hd
      exact h
  | ofClass base name eventType ih =>
    cases eventType with
    | none => exact ih (forest.base_mem h rfl) hd
    | some n =>
      cases hd
      exact h

/-- Two classes have one type name if and only if they take it from one declaration, or are one
class. -/
theorem DistinctNames.eventTypeName_eq_iff (hn : forest.DistinctNames) (h : c ∈ forest.classes)
    (h' : c' ∈ forest.classes) :
    c.eventTypeName = c'.eventTypeName ↔
      c = c' ∨ ∃ d, c.declarer = some d ∧ c'.declarer = some d := by
  constructor
  · intro heq
    cases hd : c.declarer with
    | some d =>
      have hname := EventClass.eventTypeName_of_declarer hd
      cases hd' : c'.declarer with
      | some d' =>
        have hname' := EventClass.eventTypeName_of_declarer hd'
        rw [← heq] at hname'
        obtain rfl := hn.declared d (declarer_mem h hd) d' (declarer_mem h' hd') _ hname hname'
        exact .inr ⟨d, rfl, rfl⟩
      | none =>
        rw [heq, EventClass.eventTypeName_of_none hd'] at hname
        exact absurd hname (hn.apart d (declarer_mem h hd) c' h')
    | none =>
      rw [EventClass.eventTypeName_of_none hd] at heq
      cases hd' : c'.declarer with
      | some d' =>
        have hname' := EventClass.eventTypeName_of_declarer hd'
        rw [← heq] at hname'
        exact absurd hname' (hn.apart d' (declarer_mem h' hd') c h)
      | none =>
        rw [EventClass.eventTypeName_of_none hd'] at heq
        exact .inl (hn.names c h c' h' heq)
  · rintro (rfl | ⟨d, hd, hd'⟩)
    · rfl
    · have hname := EventClass.eventTypeName_of_declarer hd
      have hname' := EventClass.eventTypeName_of_declarer hd'
      exact Option.some.inj (hname.symm.trans hname')

/-- **The class that a type name leads to.** The type name of a class leads to the class itself if
and only if no class defined after it takes its name from the same declaration. -/
theorem registry_get_iff (hn : forest.DistinctNames) (h : c ∈ forest.classes) :
    (registry forest.classes).get? c.eventTypeName = some c ↔
      ∀ c' ∈ definedAfter forest.classes c, c'.declarer = none ∨ c'.declarer ≠ c.declarer := by
  obtain ⟨earlier, he⟩ := exists_definedAfter h
  set later := definedAfter forest.classes c with hlater
  have hmem (c' : EventClass) (hc' : c' ∈ later) : c' ∈ forest.classes ∧ c' ≠ c := by
    refine ⟨?_, ?_⟩
    · rw [he]
      exact mem_append_right _ (mem_cons_of_mem c hc')
    · rintro rfl
      have hnodup := forest.nodup
      rw [he] at hnodup
      exact (nodup_cons.mp (nodup_append.mp hnodup).2.1).1 hc'
  have hget : (registry forest.classes).get? c.eventTypeName =
      (later.reverse.find? (·.eventTypeName = c.eventTypeName)).or (some c) := by
    rw [registry, get?_foldl_set_type, he, reverse_append, reverse_cons,
      append_assoc, List.find?_append]
    cases later.reverse.find? (·.eventTypeName = c.eventTypeName) <;> simp
  rw [hget]
  constructor
  · intro hsome c' hc'
    by_contra hnot
    obtain ⟨hsomeDeclarer, hsame⟩ := not_or.mp hnot
    obtain ⟨d, hd⟩ := Option.ne_none_iff_exists'.mp hsomeDeclarer
    have hname : c'.eventTypeName = c.eventTypeName :=
      (hn.eventTypeName_eq_iff (hmem c' hc').1 h).mpr
        (.inr ⟨d, hd, (not_not.mp hsame).symm.trans hd⟩)
    cases hfind : later.reverse.find? (·.eventTypeName = c.eventTypeName) with
    | none =>
      have hnone := List.find?_eq_none.mp hfind c' (mem_reverse.mpr hc')
      simp [hname] at hnone
    | some c'' =>
      rw [hfind] at hsome
      obtain rfl : c'' = c := by simpa using hsome
      exact (hmem c'' (mem_reverse.mp (mem_of_find?_eq_some hfind))).2 rfl
  · intro hlast
    have hnone : later.reverse.find? (·.eventTypeName = c.eventTypeName) = none := by
      rw [List.find?_eq_none]
      intro c' hc' hname
      have hc' := mem_reverse.mp hc'
      rcases (hn.eventTypeName_eq_iff (hmem c' hc').1 h).mp (by simpa using hname) with
        heq | ⟨d, hd', hd⟩
      · exact (hmem c' hc').2 heq
      · rcases hlast c' hc' with hnone | hne
        · rw [hnone] at hd'
          cases hd'
        · exact hne (hd'.trans hd.symm)
    rw [hnone]
    rfl

end EventForest

end Varco
