import Varco.Foundations.Binary64
import Varco.Foundations.Calendar
import Varco.Foundations.Text

/-!
# The arguments of a task

What `VarcoTask.payload` makes of the arguments of a call, what comes back from JSON, and what
`VarcoTask.invoke` hands to the function: the values of `varco_core.job.serializer` and the
signatures that `varco_core.job.task` looks the annotations up in. Identifiers, dates and times are
written as texts and read back (`TextForm`).

A value survives if it can be written at all and is read by an annotation that knows its kind
(`recover_value`). The arguments that a parameter takes by its position or its name are read by its
own annotation; those that `*args` takes after its first, and those that `**kwargs` takes, are read
by whatever annotation has their position or their name (`task_arguments`).
-/

namespace Varco

open List

deriving instance DecidableEq for Binary64

/-! ## Values -/

/-- A `date`: of the years 1 to 9999. -/
abbrev CalendarDate := {d : Date // 1 ≤ d ∧ d ≤ 3652059}

/-- A naive `datetime`: of the years 1 to 9999. -/
abbrev CalendarTime := {w : Wall // 0 ≤ w ∧ w < 3652059 * 86400000000}

/-- What `utcoffset()` can return: less than a day either way. -/
abbrev UtcOffset := {d : Duration // -86400000000 < d ∧ d < 86400000000}

/-- A `tzinfo`: `timezone(offset)`, or another one, which is asked for the offset of a wall-clock
time with its fold. -/
inductive TzInfo
  | fixed (offset : UtcOffset)
  | zone (key : String) (utcoffset : CalendarTime → Bool → Option UtcOffset)

/-- A `datetime`. -/
structure DateTime where
  wall : CalendarTime
  fold : Bool
  tzinfo : Option TzInfo

namespace DateTime

/-- `utcoffset()` of the time with a fold. -/
def offsetAt (d : DateTime) (fold : Bool) : Option UtcOffset :=
  match d.tzinfo with
  | none => none
  | some (.fixed offset) => some offset
  | some (.zone _ utcoffset) => utcoffset d.wall fold

def utcoffset (d : DateTime) : Option UtcOffset := d.offsetAt d.fold

/-- The offset depends on the fold: the time is skipped or occurs twice. -/
def inTransition (d : DateTime) : Bool := d.utcoffset ≠ d.offsetAt (!d.fold)

def sameZone (d e : DateTime) : Bool :=
  match d.tzinfo, e.tzinfo with
  | none, none => true
  | some (.zone k _), some (.zone k' _) => k = k'
  | _, _ => false

/-- `d == e` -/
def eq (d e : DateTime) : Bool :=
  if d.sameZone e then d.wall = e.wall
  else
    match d.utcoffset, e.utcoffset with
    | none, none => d.wall = e.wall && !d.inTransition && !e.inTransition
    | some a, some b =>
      d.wall.val - a.val = e.wall.val - b.val && !d.inTransition && !e.inTransition
    | _, _ => false

/-- What is read from a text with the wall-clock time `w` and the offset `offset`. -/
def ofText (w : CalendarTime) (offset : Option UtcOffset) : DateTime :=
  ⟨w, false, offset.map .fixed⟩

theorem offsetAt_ofText (w : CalendarTime) (offset : Option UtcOffset) (fold : Bool) :
    (ofText w offset).offsetAt fold = offset := by
  cases offset <;> rfl

theorem inTransition_ofText (w : CalendarTime) (offset : Option UtcOffset) :
    (ofText w offset).inTransition = false := by
  unfold inTransition utcoffset
  rw [offsetAt_ofText, offsetAt_ofText]
  exact decide_eq_false (not_not.mpr rfl)

/-- A time is equal to what is read from its text unless its zone skips it or has it twice. -/
theorem eq_ofText (d : DateTime) :
    d.eq (ofText d.wall d.utcoffset) = true ↔ d.inTransition = false := by
  unfold eq
  split_ifs with hsame
  · -- both are naive
    have hnaive : d.tzinfo = none := by
      unfold sameZone ofText at hsame
      cases hzone : d.tzinfo with
      | none => rfl
      | some z => cases z <;> cases hwall : d.utcoffset <;> simp [hzone, hwall] at hsame
    have hoffset : ∀ fold, d.offsetAt fold = none := by
      intro fold
      rw [offsetAt, hnaive]
    simp [ofText, inTransition, utcoffset, hoffset]
  · rw [inTransition_ofText, utcoffset.eq_1 (ofText _ _), offsetAt_ofText]
    cases d.utcoffset <;> simp [ofText]

end DateTime

/-- A value of the types that an annotation can name. -/
inductive TaskValue
  | none
  | bool (b : Bool)
  | int (n : ℤ)
  | float (x : Binary64)
  | str (s : String)
  | uuid (u : UUID)
  | datetime (d : DateTime)
  | date (d : CalendarDate)
  | list (items : List TaskValue)
  | tuple (items : List TaskValue)
  | dict (fields : List (String × TaskValue))

namespace TaskValue

/-- Induction on a value: a container by what it holds. -/
theorem values_induction {P : TaskValue → Prop} (none : P none) (bool : ∀ b, P (bool b))
    (int : ∀ n, P (int n)) (float : ∀ x, P (float x)) (str : ∀ s, P (str s))
    (uuid : ∀ u, P (uuid u)) (datetime : ∀ d, P (datetime d)) (date : ∀ d, P (date d))
    (list : ∀ items, (∀ v ∈ items, P v) → P (list items))
    (tuple : ∀ items, (∀ v ∈ items, P v) → P (tuple items))
    (dict : ∀ fields : List (String × TaskValue), (∀ p ∈ fields, P p.2) → P (dict fields))
    (v : TaskValue) : P v := by
  refine @TaskValue.rec P (fun items => ∀ v ∈ items, P v) (fun fields => ∀ p ∈ fields, P p.2)
    (fun p => P p.2) none bool int float str uuid datetime date list tuple dict ?_ ?_ ?_ ?_ ?_ v
  · exact fun _ hv => nomatch hv
  · intro v items hv hitems w hw
    rcases mem_cons.mp hw with rfl | hw
    exacts [hv, hitems w hw]
  · exact fun _ hp => nomatch hp
  · intro p fields hp hfields q hq
    rcases mem_cons.mp hq with rfl | hq
    exacts [hp, hfields q hq]
  · exact fun _ _ hv => hv

def number? : TaskValue → Option Binary64
  | .bool b => some (.finite (if b then 1 else 0))
  | .int n => some (.finite n)
  | .float .nan => Option.none
  | .float x => some x
  | _ => Option.none

mutual

/-- `v == w`; dictionaries keep the order of their keys here. -/
def eq : TaskValue → TaskValue → Bool
  | .none, .none => true
  | .str s, .str t => s = t
  | .uuid u, .uuid v => u = v
  | .datetime d, .datetime e => d.eq e
  | .date d, .date e => d = e
  | .list items, .list items' => eqItems items items'
  | .tuple items, .tuple items' => eqItems items items'
  | .dict fields, .dict fields' => eqFields fields fields'
  | v, w => match v.number?, w.number? with
    | some x, some y => x = y
    | _, _ => false

def eqItems : List TaskValue → List TaskValue → Bool
  | [], [] => true
  | v :: items, w :: items' => eq v w && eqItems items items'
  | _, _ => false

def eqFields : List (String × TaskValue) → List (String × TaskValue) → Bool
  | [], [] => true
  | (k, v) :: fields, (k', w) :: fields' => k = k' && eq v w && eqFields fields fields'
  | _, _ => false

end

end TaskValue

/-- An annotation; `other` is one that nothing is made of. -/
inductive TypeHint
  | none
  | bool
  | int
  | float
  | str
  | uuid
  | datetime
  | date
  | list (elem : TypeHint)
  | tuple (elem : TypeHint)
  | dict (value : TypeHint)
  | optional (inner : TypeHint)
  | other

/-- `_unwrap_optional`: nested `Optional`s are one. -/
def TypeHint.unwrapOptional : TypeHint → TypeHint
  | .optional inner => inner.unwrapOptional
  | hint => hint

/-- A value is of the type: numbers of a smaller type count, a `datetime` is no `date`. -/
def TypeHint.HasType : TypeHint → TaskValue → Prop
  | .none, v => v = .none
  | .bool, v => ∃ b, v = .bool b
  | .int, v => (∃ n, v = .int n) ∨ ∃ b, v = .bool b
  | .float, v => (∃ x, v = .float x) ∨ (∃ n, v = .int n) ∨ ∃ b, v = .bool b
  | .str, v => ∃ s, v = .str s
  | .uuid, v => ∃ u, v = .uuid u
  | .datetime, v => ∃ d, v = .datetime d
  | .date, v => ∃ d, v = .date d
  | .list elem, v => ∃ items, v = .list items ∧ ∀ w ∈ items, elem.HasType w
  | .tuple elem, v => ∃ items, v = .tuple items ∧ ∀ w ∈ items, elem.HasType w
  | .dict value, v => ∃ fields, v = .dict fields ∧ ∀ p ∈ fields, value.HasType p.2
  | .optional inner, v => v = .none ∨ inner.HasType v
  | .other, _ => False

/-! ## The serializer -/

/-- How a kind of values is written as text and read. -/
structure TextForm (α : Type) where
  write : α → String
  read : String → Except PyException α
  read_write : ∀ a, read (write a) = .ok a

/-- `str()` and `UUID()`, `isoformat()` and `fromisoformat()`: a `datetime` is written by its
wall-clock time and its offset. -/
structure Texts where
  uuid : TextForm UUID
  datetime : TextForm (CalendarTime × Option UtcOffset)
  date : TextForm CalendarDate

namespace DefaultTaskSerializer

open TaskValue

variable (t : Texts)

mutual

def serialize : TaskValue → TaskValue
  | .uuid u => .str (t.uuid.write u)
  | .datetime d => .str (t.datetime.write (d.wall, d.utcoffset))
  | .date d => .str (t.date.write d)
  | .list items => .list (serializeItems items)
  | .tuple items => .list (serializeItems items)
  | .dict fields => .dict (serializeFields fields)
  | .none => .none
  | .bool b => .bool b
  | .int n => .int n
  | .float x => .float x
  | .str s => .str s

/-- `[self.serialize(item) for item in value]` -/
def serializeItems : List TaskValue → List TaskValue
  | [] => []
  | v :: items => serialize v :: serializeItems items

/-- `{k: self.serialize(v) for k, v in value.items()}` -/
def serializeFields : List (String × TaskValue) → List (String × TaskValue)
  | [] => []
  | (k, v) :: fields => (k, serialize v) :: serializeFields fields

end

/-- `datetime.fromisoformat(text)` -/
def fromIsoformat (text : String) : Except PyException TaskValue :=
  (t.datetime.read text).map fun x => .datetime (.ofText x.1 x.2)

mutual

def deserialize : TaskValue → Option TypeHint → Except PyException TaskValue
  | .none, _ => .ok .none
  | value, Option.none => .ok value
  | value, some hint =>
    match hint.unwrapOptional with
    | .uuid => match value with
      | .str s => (t.uuid.read s).map .uuid
      | _ => .ok value
    | .datetime => match value with
      | .str s => fromIsoformat t s
      | _ => .ok value
    | .date => match value with
      | .str s => (t.date.read s).map .date
      | _ => .ok value
    | .list elem => match value with
      | .list items => (deserializeItems items elem).map .list
      | _ => .ok value
    | .tuple elem => match value with
      | .list items => (deserializeItems items elem).map .tuple
      | _ => .ok value
    | .dict elem => match value with
      | .dict fields => (deserializeFields fields elem).map .dict
      | _ => .ok value
    | _ => .ok value

/-- `[self.deserialize(item, elem_type) for item in value]` -/
def deserializeItems : List TaskValue → TypeHint → Except PyException (List TaskValue)
  | [], _ => .ok []
  | v :: items, elem => do
    let w ← deserialize v (some elem)
    let items ← deserializeItems items elem
    return w :: items

/-- `{k: self.deserialize(v, val_type) for k, v in value.items()}` -/
def deserializeFields :
    List (String × TaskValue) → TypeHint → Except PyException (List (String × TaskValue))
  | [], _ => .ok []
  | (k, v) :: fields, elem => do
    let w ← deserialize v (some elem)
    let fields ← deserializeFields fields elem
    return (k, w) :: fields

end

attribute [grind =] deserialize

end DefaultTaskSerializer

/-! ## JSON -/

/-- The `TypeError` of `json.dumps`. -/
def notSerializable (typeName : String) : PyException :=
  ⟨"TypeError", s!"Object of type {typeName} is not JSON serializable"⟩

mutual

/-- `json.loads(json.dumps(value))`. An integer is written in decimal, which has a limit. -/
def jsonRoundTrip : TaskValue → Except PyException TaskValue
  | .int n =>
    if (Nat.toDigits 10 n.natAbs).length ≤ maxIntDigits then .ok (.int n)
    else .error (.valueError
      ("Exceeds the limit (4300 digits) for integer string conversion; " ++
        "use sys.set_int_max_str_digits() to increase the limit"))
  | .uuid _ => .error (notSerializable "UUID")
  | .datetime _ => .error (notSerializable "datetime")
  | .date _ => .error (notSerializable "date")
  | .list items => (jsonItems items).map .list
  | .tuple items => (jsonItems items).map .list
  | .dict fields => (jsonFields fields).map .dict
  | .none => .ok .none
  | .bool b => .ok (.bool b)
  | .float x => .ok (.float x)
  | .str s => .ok (.str s)

def jsonItems : List TaskValue → Except PyException (List TaskValue)
  | [] => .ok []
  | v :: items => do
    let w ← jsonRoundTrip v
    let items ← jsonItems items
    return w :: items

def jsonFields : List (String × TaskValue) → Except PyException (List (String × TaskValue))
  | [] => .ok []
  | (k, v) :: fields => do
    let w ← jsonRoundTrip v
    let fields ← jsonFields fields
    return (k, w) :: fields

end

/-! ## The task -/

/-- A parameter of a function. -/
structure Parameter where
  name : String
  annotation : TypeHint

/-- The arguments of a call. -/
structure Arguments where
  args : List TaskValue
  kwargs : List (String × TaskValue)

/-- `inspect.signature(fn)`: the kinds of parameters, in the order in which they are declared, and
the annotation of what is returned. -/
structure Signature where
  positionalOnly : List Parameter
  positionalOrKeyword : List Parameter
  varPositional : Option Parameter
  keywordOnly : List Parameter
  varKeyword : Option Parameter
  returns : Option TypeHint
  names_nodup : ((positionalOnly ++ positionalOrKeyword ++ varPositional.toList ++ keywordOnly ++
    varKeyword.toList).map Parameter.name).Nodup

namespace Signature

def positional (sig : Signature) : List Parameter := sig.positionalOnly ++ sig.positionalOrKeyword

def named (sig : Signature) : List Parameter := sig.positionalOrKeyword ++ sig.keywordOnly

def parameters (sig : Signature) : List Parameter :=
  sig.positional ++ sig.varPositional.toList ++ sig.keywordOnly ++ sig.varKeyword.toList

/-- `typing.get_type_hints(fn).get(name)` -/
def typeHint (sig : Signature) (name : String) : Option TypeHint :=
  match sig.parameters.find? (·.name = name) with
  | some p => some p.annotation
  | none => if name = "return" then sig.returns else none

/-- `type_hints.get(param_names[i]) if i < len(param_names) else None` -/
def hintAt (sig : Signature) (i : ℕ) : Option TypeHint :=
  match sig.parameters[i]? with
  | some p => sig.typeHint p.name
  | none => none

/-- The parameter that takes the positional argument `i`. -/
def takerAt (sig : Signature) (i : ℕ) : Option Parameter := sig.positional[i]?.or sig.varPositional

/-- The parameter that takes the keyword argument `k`. -/
def takerOf (sig : Signature) (k : String) : Option Parameter :=
  (sig.named.find? (·.name = k)).or sig.varKeyword

/-- A call whose arguments are of the types that the parameters taking them are annotated with. -/
structure Call (sig : Signature) extends Arguments where
  args_typed : ∀ i v, args[i]? = some v → ∃ p, sig.takerAt i = some p ∧ p.annotation.HasType v
  kwargs_typed : ∀ k v, (k, v) ∈ kwargs → ∃ p, sig.takerOf k = some p ∧ p.annotation.HasType v

end Signature

/-- A `VarcoTask` with the default serializer. -/
structure VarcoTask where
  name : String
  sig : Signature

namespace VarcoTask

open DefaultTaskSerializer

structure TaskPayload where
  taskName : TaskValue
  args : List TaskValue
  kwargs : List (String × TaskValue)

def TaskPayload.toDict (p : TaskPayload) : TaskValue :=
  .dict [("task_name", p.taskName), ("args", .list p.args), ("kwargs", .dict p.kwargs)]

/-- `from_dict`; whatever `list()` and `dict()` make of other shapes than those that `to_dict`
writes is an error here. -/
def TaskPayload.fromDict : TaskValue → Except PyException TaskPayload
  | .dict data => do
    let some taskName := data.lookup "task_name" | .error ⟨"KeyError", pyRepr "task_name"⟩
    let args ← match data.lookup "args" with
      | none => .ok []
      | some (.list args) => .ok args
      | some _ => .error ⟨"TypeError", "object is not iterable"⟩
    let kwargs ← match data.lookup "kwargs" with
      | none => .ok []
      | some (.dict kwargs) => .ok kwargs
      | some _ => .error ⟨"TypeError", "object is not iterable"⟩
    return ⟨taskName, args, kwargs⟩
  | _ => .error ⟨"TypeError", "object is not subscriptable"⟩

variable (t : Texts) (task : VarcoTask)

def payload (call : Arguments) : TaskPayload :=
  ⟨.str task.name, serializeItems t call.args, serializeFields t call.kwargs⟩

/-- The positional arguments of `_deserialize_payload`, from the position `i` on. -/
def deserializeArgs (i : ℕ) : List TaskValue → Except PyException (List TaskValue)
  | [] => .ok []
  | v :: args => do
    let w ← deserialize t v (task.sig.hintAt i)
    let args ← deserializeArgs (i + 1) args
    return w :: args

/-- The keyword arguments of `_deserialize_payload`. -/
def deserializeKwargs :
    List (String × TaskValue) → Except PyException (List (String × TaskValue))
  | [] => .ok []
  | (k, v) :: kwargs => do
    let w ← deserialize t v (task.sig.typeHint k)
    let kwargs ← deserializeKwargs kwargs
    return (k, w) :: kwargs

/-- `invoke`: what the function is called with. -/
def invoke (p : TaskPayload) : Except PyException Arguments := do
  let args ← task.deserializeArgs t 0 p.args
  let kwargs ← task.deserializeKwargs t p.kwargs
  return ⟨args, kwargs⟩

/-- `task.invoke(TaskPayload.from_dict(json.loads(json.dumps(task.payload(…).to_dict()))))` -/
def recover (call : Arguments) : Except PyException Arguments := do
  let data ← jsonRoundTrip (task.payload t call).toDict
  let p ← TaskPayload.fromDict data
  task.invoke t p

def Survives (call : Arguments) : Prop :=
  ∃ call', task.recover t call = .ok call' ∧
    TaskValue.eqItems call.args call'.args = true ∧
      TaskValue.eqFields call.kwargs call'.kwargs = true

end VarcoTask

/-! ## What a value needs -/

namespace TaskValue

mutual

def Writable : TaskValue → Prop
  | .int n => (Nat.toDigits 10 n.natAbs).length ≤ maxIntDigits
  | .list items => WritableItems items
  | .tuple items => WritableItems items
  | .dict fields => WritableFields fields
  | _ => True

def WritableItems : List TaskValue → Prop
  | [] => True
  | v :: items => Writable v ∧ WritableItems items

def WritableFields : List (String × TaskValue) → Prop
  | [] => True
  | (_, v) :: fields => Writable v ∧ WritableFields fields

end

mutual

/-- The value is equal to a copy of it: no NaN, and no time that its zone skips or has twice. -/
def Comparable : TaskValue → Prop
  | .float x => x ≠ .nan
  | .datetime d => d.inTransition = false
  | .list items => ComparableItems items
  | .tuple items => ComparableItems items
  | .dict fields => ComparableFields fields
  | _ => True

def ComparableItems : List TaskValue → Prop
  | [] => True
  | v :: items => Comparable v ∧ ComparableItems items

def ComparableFields : List (String × TaskValue) → Prop
  | [] => True
  | (_, v) :: fields => Comparable v ∧ ComparableFields fields

end

def itemHint : TypeHint → TypeHint
  | .list elem => elem
  | .tuple elem => elem
  | _ => .other

def fieldHint : TypeHint → TypeHint
  | .dict value => value
  | _ => .other

def IsTuple : TypeHint → Prop
  | .tuple _ => True
  | _ => False

mutual

/-- The annotation leads back to the kinds of the value: those that JSON lacks are named where they
occur, and no text and no list is taken for one of them. -/
def KnownTo : TypeHint → TaskValue → Prop
  | hint, .str _ => hint ≠ .uuid ∧ hint ≠ .datetime ∧ hint ≠ .date
  | hint, .uuid _ => hint = .uuid
  | hint, .datetime _ => hint = .datetime
  | hint, .date _ => hint = .date
  | hint, .list items => ¬IsTuple hint ∧ KnownItems (itemHint hint) items
  | hint, .tuple items => IsTuple hint ∧ KnownItems (itemHint hint) items
  | hint, .dict fields => KnownFields (fieldHint hint) fields
  | _, _ => True

def KnownItems : TypeHint → List TaskValue → Prop
  | _, [] => True
  | elem, v :: items => KnownTo elem.unwrapOptional v ∧ KnownItems elem items

def KnownFields : TypeHint → List (String × TaskValue) → Prop
  | _, [] => True
  | elem, (_, v) :: fields => KnownTo elem.unwrapOptional v ∧ KnownFields elem fields

end

/-- Whatever annotation there is leads back to the kinds of the value. -/
def KnownAs (hint : Option TypeHint) (v : TaskValue) : Prop :=
  KnownTo (hint.getD .other).unwrapOptional v

variable {hint : TypeHint} {v : TaskValue} {items : List TaskValue}
  {fields : List (String × TaskValue)}

theorem writableItems_iff : WritableItems items ↔ ∀ v ∈ items, v.Writable := by
  induction items with
  | nil => simp [WritableItems]
  | cons v items ih => simp [WritableItems, ih]

theorem writableFields_iff : WritableFields fields ↔ ∀ p ∈ fields, p.2.Writable := by
  induction fields with
  | nil => simp [WritableFields]
  | cons p fields ih =>
    obtain ⟨k, v⟩ := p
    simp [WritableFields, ih]

theorem knownItems_iff :
    KnownItems hint items ↔ ∀ v ∈ items, KnownTo hint.unwrapOptional v := by
  induction items with
  | nil => simp [KnownItems]
  | cons v items ih => simp [KnownItems, ih]

theorem knownFields_iff :
    KnownFields hint fields ↔ ∀ p ∈ fields, KnownTo hint.unwrapOptional p.2 := by
  induction fields with
  | nil => simp [KnownFields]
  | cons p fields ih =>
    obtain ⟨k, v⟩ := p
    simp [KnownFields, ih]

theorem knownTo_of_hasType (h : hint.HasType v) : KnownTo hint.unwrapOptional v := by
  induction hint generalizing v with
  | none => subst h; trivial
  | bool => obtain ⟨b, rfl⟩ := h; trivial
  | int => obtain ⟨n, rfl⟩ | ⟨b, rfl⟩ := h <;> trivial
  | float => obtain ⟨x, rfl⟩ | ⟨n, rfl⟩ | ⟨b, rfl⟩ := h <;> trivial
  | str => obtain ⟨s, rfl⟩ := h; simp [TypeHint.unwrapOptional, KnownTo]
  | uuid => obtain ⟨u, rfl⟩ := h; rfl
  | datetime => obtain ⟨d, rfl⟩ := h; rfl
  | date => obtain ⟨d, rfl⟩ := h; rfl
  | list elem ih =>
    obtain ⟨items, rfl, hitems⟩ := h
    exact ⟨id, knownItems_iff.mpr fun w hw => ih (hitems w hw)⟩
  | tuple elem ih =>
    obtain ⟨items, rfl, hitems⟩ := h
    exact ⟨trivial, knownItems_iff.mpr fun w hw => ih (hitems w hw)⟩
  | dict elem ih =>
    obtain ⟨fields, rfl, hfields⟩ := h
    exact knownFields_iff.mpr fun p hp => ih (hfields p hp)
  | optional inner ih =>
    obtain rfl | h := h
    · trivial
    · exact ih h
  | other => exact h.elim

end TaskValue

/-! ## One value -/

namespace DefaultTaskSerializer

open TaskValue

variable {t : Texts}

theorem exists_cons {ε α β : Type} {x : Except ε α} {f : α → β} {y : Except ε (List β)}
    {P : α → Prop} {Q R : List β → Prop} (hR : ∀ w ws, R (f w :: ws) ↔ P w ∧ Q ws) :
    (∃ r, (do let w ← x; let ws ← y; return f w :: ws : Except ε (List β)) = .ok r ∧ R r) ↔
      (∃ w, x = .ok w ∧ P w) ∧ ∃ ws, y = .ok ws ∧ Q ws := by
  cases x <;> cases y <;> simp [bind, Except.bind, pure, Except.pure, hR]

theorem exists_map {ε α β : Type} {x : Except ε α} {f : α → β} {P : β → Prop} :
    (∃ w, x.map f = .ok w ∧ P w) ↔ ∃ a, x = .ok a ∧ P (f a) := by
  cases x <;> simp [Except.map]

theorem deserialize_none (v : TaskValue) : deserialize t v none = .ok v := by
  cases v <;> simp [deserialize]

theorem deserialize_other (v : TaskValue) : deserialize t v (some .other) = .ok v := by
  cases v <;> simp [deserialize, TypeHint.unwrapOptional]

theorem deserializeItems_other (items : List TaskValue) :
    deserializeItems t items .other = .ok items := by
  induction items with
  | nil => simp [deserializeItems]
  | cons v items ih =>
    simp [deserializeItems, deserialize_other, ih, bind, Except.bind, pure, Except.pure]

theorem deserializeFields_other (fields : List (String × TaskValue)) :
    deserializeFields t fields .other = .ok fields := by
  induction fields with
  | nil => simp [deserializeFields]
  | cons p fields ih =>
    obtain ⟨k, v⟩ := p
    simp [deserializeFields, deserialize_other, ih, bind, Except.bind, pure, Except.pure]

/-- What is neither a text nor a container is handed on. -/
theorem deserialize_scalar {v : TaskValue} {hint : TypeHint} (hstr : ∀ s, v ≠ .str s)
    (hlist : ∀ items, v ≠ .list items) (hdict : ∀ fields, v ≠ .dict fields) :
    deserialize t v (some hint) = .ok v := by
  cases v with
  | str s => exact absurd rfl (hstr s)
  | list items => exact absurd rfl (hlist items)
  | dict fields => exact absurd rfl (hdict fields)
  | _ =>
    unfold deserialize
    first | rfl | (split <;> rfl)

theorem deserialize_str (s : String) (hint : TypeHint) :
    deserialize t (.str s) (some hint) =
      match hint.unwrapOptional with
      | .uuid => (t.uuid.read s).map .uuid
      | .datetime => fromIsoformat t s
      | .date => (t.date.read s).map .date
      | _ => .ok (.str s) := by
  unfold deserialize
  cases hint.unwrapOptional <;> rfl

/-- A list is read by the annotation of its items, and made a tuple for a tuple's. -/
theorem deserialize_list (items : List TaskValue) (hint : TypeHint) :
    (∃ f : List TaskValue → TaskValue, deserialize t (.list items) (some hint) =
        (deserializeItems t items (itemHint hint.unwrapOptional)).map f ∧
      (IsTuple hint.unwrapOptional ∧ f = .tuple ∨ ¬IsTuple hint.unwrapOptional ∧ f = .list)) := by
  unfold deserialize
  cases hint.unwrapOptional with
  | tuple elem => exact ⟨.tuple, rfl, .inl ⟨trivial, rfl⟩⟩
  | list elem => exact ⟨.list, rfl, .inr ⟨id, rfl⟩⟩
  | _ =>
    refine ⟨.list, ?_, .inr ⟨id, rfl⟩⟩
    simp only [itemHint, deserializeItems_other]
    rfl

theorem deserialize_dict (fields : List (String × TaskValue)) (hint : TypeHint) :
    deserialize t (.dict fields) (some hint) =
      (deserializeFields t fields (fieldHint hint.unwrapOptional)).map .dict := by
  unfold deserialize
  cases hint.unwrapOptional with
  | dict elem => rfl
  | _ =>
    simp only [fieldHint, deserializeFields_other]
    rfl

theorem exists_kept {v v' : TaskValue} :
    (∃ w, (Except.ok v' : Except PyException TaskValue) = .ok w ∧ v.eq w = true) ↔
      v.eq v' = true := by
  constructor
  · rintro ⟨w, hw, heq⟩
    rwa [Except.ok.inj hw]
  · exact fun h => ⟨v', rfl, h⟩

theorem exists_read {α : Type} {form : TextForm α} {f : α → TaskValue} {a : α} {v : TaskValue} :
    (∃ w, (form.read (form.write a)).map f = .ok w ∧ v.eq w = true) ↔ v.eq (f a) = true := by
  rw [form.read_write]
  simp [Except.map]

theorem not_exists_read {α : Type} {x : Except PyException α} {f : α → TaskValue} {v : TaskValue}
    (hf : ∀ a, v.eq (f a) = false) : ¬∃ w, x.map f = .ok w ∧ v.eq w = true := by
  rintro ⟨w, hw, heq⟩
  cases x with
  | error e => cases hw
  | ok a =>
    cases hw
    rw [hf a] at heq
    cases heq

def ReadsBack (t : Texts) (hint : TypeHint) (v : TaskValue) : Prop :=
  ∃ w, deserialize t (serialize t v) (some hint) = .ok w ∧ v.eq w = true

theorem items_read_iff {items : List TaskValue}
    (h : ∀ v ∈ items, ∀ hint, ReadsBack t hint v ↔ v.Comparable ∧ KnownTo hint.unwrapOptional v)
    (elem : TypeHint) :
    (∃ ws, deserializeItems t (serializeItems t items) elem = .ok ws ∧
      eqItems items ws = true) ↔ ComparableItems items ∧ KnownItems elem items := by
  induction items with
  | nil => simp [serializeItems, deserializeItems, eqItems, ComparableItems, KnownItems]
  | cons v items ih =>
    rw [serializeItems, deserializeItems, ComparableItems, KnownItems, and_and_and_comm,
      ← h v mem_cons_self elem, ← ih fun w hw => h w (mem_cons_of_mem v hw)]
    exact exists_cons fun w ws => by simp [eqItems]

theorem fields_read_iff {fields : List (String × TaskValue)}
    (h : ∀ p ∈ fields, ∀ hint,
      ReadsBack t hint p.2 ↔ p.2.Comparable ∧ KnownTo hint.unwrapOptional p.2)
    (elem : TypeHint) :
    (∃ ws, deserializeFields t (serializeFields t fields) elem = .ok ws ∧
      eqFields fields ws = true) ↔ ComparableFields fields ∧ KnownFields elem fields := by
  induction fields with
  | nil => simp [serializeFields, deserializeFields, eqFields, ComparableFields, KnownFields]
  | cons p fields ih =>
    obtain ⟨k, v⟩ := p
    rw [serializeFields, deserializeFields, ComparableFields, KnownFields, and_and_and_comm,
      ← h (k, v) mem_cons_self elem, ← ih fun q hq => h q (mem_cons_of_mem _ hq)]
    exact exists_cons (f := fun w => (k, w)) fun w ws => by simp [eqFields]

/-- **What becomes of a value**: read by an annotation, its JSON form gives an equal value exactly
if the value is equal to copies of it and the annotation knows its kinds. -/
theorem readsBack_iff (hint : TypeHint) (v : TaskValue) :
    ReadsBack t hint v ↔ v.Comparable ∧ KnownTo hint.unwrapOptional v := by
  unfold ReadsBack
  induction v using values_induction generalizing hint with
  | none =>
    rw [serialize, deserialize, exists_kept]
    simp [TaskValue.eq, Comparable, KnownTo]
  | bool b =>
    rw [serialize, deserialize_scalar (by simp) (by simp) (by simp), exists_kept]
    simp [TaskValue.eq, number?, Comparable, KnownTo]
  | int n =>
    rw [serialize, deserialize_scalar (by simp) (by simp) (by simp), exists_kept]
    simp [TaskValue.eq, number?, Comparable, KnownTo]
  | float x =>
    rw [serialize, deserialize_scalar (by simp) (by simp) (by simp), exists_kept]
    cases x <;> simp [TaskValue.eq, number?, Comparable, KnownTo]
  | str s =>
    rw [serialize, deserialize_str]
    cases hint.unwrapOptional with
    | uuid => exact iff_of_false (not_exists_read fun _ => rfl) (by simp [KnownTo])
    | datetime | date => exact iff_of_false (not_exists_read fun _ => rfl) (by simp [KnownTo])
    | _ => exact exists_kept.trans (by simp [TaskValue.eq, Comparable, KnownTo])
  | uuid u =>
    rw [serialize, deserialize_str]
    cases hint.unwrapOptional with
    | uuid => exact exists_read.trans (by simp [TaskValue.eq, Comparable, KnownTo])
    | datetime | date => exact iff_of_false (not_exists_read fun _ => rfl) (by simp [KnownTo])
    | _ => exact exists_kept.trans (by simp [TaskValue.eq, number?, KnownTo])
  | datetime d =>
    rw [serialize, deserialize_str]
    cases hint.unwrapOptional with
    | uuid => exact iff_of_false (not_exists_read fun _ => rfl) (by simp [KnownTo])
    | datetime =>
      exact exists_read.trans (by simp [TaskValue.eq, DateTime.eq_ofText, Comparable, KnownTo])
    | date => exact iff_of_false (not_exists_read fun _ => rfl) (by simp [KnownTo])
    | _ => exact exists_kept.trans (by simp [TaskValue.eq, number?, KnownTo])
  | date d =>
    rw [serialize, deserialize_str]
    cases hint.unwrapOptional with
    | uuid | datetime => exact iff_of_false (not_exists_read fun _ => rfl) (by simp [KnownTo])
    | date => exact exists_read.trans (by simp [TaskValue.eq, Comparable, KnownTo])
    | _ => exact exists_kept.trans (by simp [TaskValue.eq, number?, KnownTo])
  | list items ih =>
    rw [serialize, Comparable, KnownTo]
    obtain ⟨f, hf, ⟨htuple, rfl⟩ | ⟨htuple, rfl⟩⟩ :=
      deserialize_list (t := t) (serializeItems t items) hint
    · rw [hf]
      exact iff_of_false (not_exists_read fun _ => rfl) fun h => h.2.1 htuple
    · rw [hf, and_iff_right htuple, ← items_read_iff fun v hv hint => ih v hv hint, exists_map]
      simp [TaskValue.eq]
  | tuple items ih =>
    rw [serialize, Comparable, KnownTo]
    obtain ⟨f, hf, ⟨htuple, rfl⟩ | ⟨htuple, rfl⟩⟩ :=
      deserialize_list (t := t) (serializeItems t items) hint
    · rw [hf, and_iff_right htuple, ← items_read_iff fun v hv hint => ih v hv hint, exists_map]
      simp [TaskValue.eq]
    · rw [hf]
      exact iff_of_false (not_exists_read fun _ => rfl) fun h => htuple h.2.1
  | dict fields ih =>
    rw [serialize, Comparable, KnownTo, deserialize_dict,
      ← fields_read_iff fun p hp hint => ih p hp hint, exists_map]
    simp [TaskValue.eq]

/-- The result is `a` if `p` holds, and an error otherwise. -/
def SucceedsIf {α : Type} (p : Prop) (x : Except PyException α) (a : α) : Prop :=
  p ∧ x = .ok a ∨ ¬p ∧ ∃ e, x = .error e

theorem SucceedsIf.ok {α : Type} {p : Prop} {a : α} (h : p) : SucceedsIf p (.ok a) a :=
  .inl ⟨h, rfl⟩

theorem SucceedsIf.map {α β : Type} {p : Prop} {x : Except PyException α} {a : α}
    (h : SucceedsIf p x a) (f : α → β) : SucceedsIf p (x.map f) (f a) := by
  rcases h with ⟨hp, rfl⟩ | ⟨hp, e, rfl⟩
  · exact .inl ⟨hp, rfl⟩
  · exact .inr ⟨hp, e, rfl⟩

theorem SucceedsIf.cons {α β : Type} {p q : Prop} {x : Except PyException α} {a : α}
    {xs : Except PyException (List β)} {as : List β} {f : α → β} (h : SucceedsIf p x a)
    (hs : SucceedsIf q xs as) :
    SucceedsIf (p ∧ q) (do let w ← x; let ws ← xs; return f w :: ws) (f a :: as) := by
  rcases h with ⟨hp, rfl⟩ | ⟨hp, e, rfl⟩
  · rcases hs with ⟨hq, rfl⟩ | ⟨hq, e, rfl⟩
    · exact .inl ⟨⟨hp, hq⟩, rfl⟩
    · exact .inr ⟨fun h => hq h.2, e, rfl⟩
  · exact .inr ⟨fun h => hp h.1, e, rfl⟩

theorem jsonItems_serializeItems {items : List TaskValue}
    (h : ∀ v ∈ items, SucceedsIf v.Writable (jsonRoundTrip (serialize t v)) (serialize t v)) :
    SucceedsIf (WritableItems items) (jsonItems (serializeItems t items))
      (serializeItems t items) := by
  induction items with
  | nil =>
    simp only [serializeItems, jsonItems, WritableItems]
    exact .ok trivial
  | cons v items ih =>
    simp only [serializeItems, jsonItems, WritableItems]
    exact (h v mem_cons_self).cons (f := id)
      (ih fun w hw => h w (mem_cons_of_mem v hw))

theorem jsonFields_serializeFields {fields : List (String × TaskValue)}
    (h : ∀ p ∈ fields,
      SucceedsIf p.2.Writable (jsonRoundTrip (serialize t p.2)) (serialize t p.2)) :
    SucceedsIf (WritableFields fields) (jsonFields (serializeFields t fields))
      (serializeFields t fields) := by
  induction fields with
  | nil =>
    simp only [serializeFields, jsonFields, WritableFields]
    exact .ok trivial
  | cons p fields ih =>
    obtain ⟨k, v⟩ := p
    simp only [serializeFields, jsonFields, WritableFields]
    exact (h (k, v) mem_cons_self).cons (f := fun w => (k, w))
      (ih fun q hq => h q (mem_cons_of_mem _ hq))

/-- **What JSON does to a serialized value**: nothing, if its integers can be written. -/
theorem jsonRoundTrip_serialize (v : TaskValue) :
    SucceedsIf v.Writable (jsonRoundTrip (serialize t v)) (serialize t v) := by
  induction v using values_induction with
  | int n =>
    simp only [serialize, jsonRoundTrip, Writable]
    split_ifs with hn
    · exact .ok hn
    · exact .inr ⟨hn, _, rfl⟩
  | list items ih | tuple items ih =>
    simp only [serialize, jsonRoundTrip, Writable]
    exact (jsonItems_serializeItems ih).map _
  | dict fields ih =>
    simp only [serialize, jsonRoundTrip, Writable]
    exact (jsonFields_serializeFields ih).map _
  | _ =>
    simp only [serialize, jsonRoundTrip, Writable]
    exact .ok trivial

end DefaultTaskSerializer

/-! ## A call -/

namespace Signature

variable {sig : Signature}

/-- A parameter's own annotation is found under its name. -/
theorem typeHint_of_mem {p : Parameter} (hp : p ∈ sig.parameters) :
    sig.typeHint p.name = some p.annotation := by
  have hfind : sig.parameters.find? (·.name = p.name) = some p := by
    have hnodup : (sig.parameters.map Parameter.name).Nodup := sig.names_nodup
    generalize sig.parameters = ps at hp hnodup
    induction ps with
    | nil => exact nomatch hp
    | cons q ps ih =>
      rw [map_cons, nodup_cons] at hnodup
      rcases mem_cons.mp hp with rfl | hp
      · simp
      · have hne : q.name ≠ p.name := fun h => hnodup.1 (h ▸ mem_map_of_mem hp)
        rw [List.find?_cons_of_neg (by simpa using hne)]
        exact ih hp hnodup.2
  rw [typeHint, hfind]

/-- Up to the first argument that `*args` takes, the annotation at a position is that of the
parameter that takes it. -/
theorem hintAt_of_taker {i : ℕ} {p : Parameter} (hi : i ≤ sig.positional.length)
    (h : sig.takerAt i = some p) : sig.hintAt i = some p.annotation := by
  have hat : sig.parameters[i]? = some p := by
    unfold takerAt at h
    unfold parameters
    rcases Nat.lt_or_eq_of_le hi with hi | rfl
    · rw [append_assoc, append_assoc, List.getElem?_append_left hi]
      rwa [List.getElem?_eq_getElem hi] at h ⊢
    · rw [List.getElem?_eq_none le_rfl, Option.none_or] at h
      rw [h]
      simp
  rw [hintAt, hat]
  exact typeHint_of_mem (mem_of_getElem? hat)

/-- By its name, an argument is found to be annotated as the parameter that takes it. -/
theorem typeHint_of_taker {k : String} {p : Parameter} (h : sig.takerOf k = some p)
    (hk : p.name = k) : sig.typeHint k = some p.annotation := by
  subst hk
  refine typeHint_of_mem ?_
  unfold takerOf at h
  rcases Option.or_eq_some_iff.mp h with h | ⟨-, h⟩
  · have hmem := mem_of_find?_eq_some h
    unfold named at hmem
    unfold parameters positional
    rcases mem_append.mp hmem with hmem | hmem <;> simp [hmem]
  · simp [parameters, h]

end Signature

namespace VarcoTask

open DefaultTaskSerializer TaskValue

variable {t : Texts} {task : VarcoTask}

theorem deserialize_serialize_iff (hint : Option TypeHint) (v : TaskValue) :
    (∃ w, deserialize t (serialize t v) hint = .ok w ∧ v.eq w = true) ↔
      v.Comparable ∧ KnownAs hint v := by
  cases hint with
  | none =>
    rw [deserialize_none, ← deserialize_other (t := t)]
    exact readsBack_iff .other v
  | some hint => exact readsBack_iff hint v

theorem deserializeArgs_iff (task : VarcoTask) (i : ℕ) (args : List TaskValue) :
    (∃ ws, task.deserializeArgs t i (serializeItems t args) = .ok ws ∧
      eqItems args ws = true) ↔
      ∀ j v, args[j]? = some v → v.Comparable ∧ KnownAs (task.sig.hintAt (i + j)) v := by
  induction args generalizing i with
  | nil => simp [serializeItems, deserializeArgs, eqItems]
  | cons v args ih =>
    rw [serializeItems, deserializeArgs]
    have hcons := exists_cons (f := id) (P := fun w => v.eq w = true)
      (Q := fun ws => eqItems args ws = true) (R := fun ws => eqItems (v :: args) ws = true)
      (x := deserialize t (serialize t v) (task.sig.hintAt i))
      (y := task.deserializeArgs t (i + 1) (serializeItems t args))
      fun w ws => by simp [eqItems]
    refine hcons.trans ?_
    rw [deserialize_serialize_iff, ih]
    constructor
    · rintro ⟨hv, hargs⟩ (_ | j) u hu
      · rw [List.getElem?_cons_zero, Option.some.injEq] at hu
        exact hu ▸ hv
      · rw [List.getElem?_cons_succ] at hu
        rw [show i + (j + 1) = i + 1 + j by omega]
        exact hargs j u hu
    · intro h
      refine ⟨h 0 v rfl, fun j u hu => ?_⟩
      rw [show i + 1 + j = i + (j + 1) by omega]
      exact h (j + 1) u hu

theorem deserializeKwargs_iff (kwargs : List (String × TaskValue)) :
    (∃ ws, task.deserializeKwargs t (serializeFields t kwargs) = .ok ws ∧
      eqFields kwargs ws = true) ↔
      ∀ k v, (k, v) ∈ kwargs → v.Comparable ∧ KnownAs (task.sig.typeHint k) v := by
  induction kwargs with
  | nil => simp [serializeFields, deserializeKwargs, eqFields]
  | cons p kwargs ih =>
    obtain ⟨k, v⟩ := p
    rw [serializeFields, deserializeKwargs]
    have hcons := exists_cons (f := fun w => (k, w)) (P := fun w => v.eq w = true)
      (Q := fun ws => eqFields kwargs ws = true)
      (R := fun ws => eqFields ((k, v) :: kwargs) ws = true)
      (x := deserialize t (serialize t v) (task.sig.typeHint k))
      (y := task.deserializeKwargs t (serializeFields t kwargs))
      fun w ws => by simp [eqFields]
    refine hcons.trans ?_
    rw [deserialize_serialize_iff, ih]
    constructor
    · rintro ⟨hv, hkwargs⟩ k' v' hmem
      rcases mem_cons.mp hmem with heq | hmem
      · cases heq
        exact hv
      · exact hkwargs k' v' hmem
    · exact fun h => ⟨h k v mem_cons_self, fun k' v' hmem =>
        h k' v' (mem_cons_of_mem _ hmem)⟩

/-- The payload comes back from JSON as it was, if its integers can be written. -/
theorem recover_eq (task : VarcoTask) (call : Arguments) :
    ((WritableItems call.args ∧ WritableFields call.kwargs) ∧
      task.recover t call = task.invoke t (task.payload t call)) ∨
    ¬(WritableItems call.args ∧ WritableFields call.kwargs) ∧
      ∃ e, task.recover t call = .error e := by
  have hargs := jsonItems_serializeItems fun v (_ : v ∈ call.args) =>
    jsonRoundTrip_serialize (t := t) v
  have hkwargs := jsonFields_serializeFields fun p (_ : p ∈ call.kwargs) =>
    jsonRoundTrip_serialize (t := t) p.2
  have hpayload : SucceedsIf (WritableItems call.args ∧ WritableFields call.kwargs)
      (jsonRoundTrip (task.payload t call).toDict) (task.payload t call).toDict := by
    simp only [payload, TaskPayload.toDict, jsonRoundTrip, jsonFields]
    rcases hargs with ⟨hp, hargs⟩ | ⟨hp, e, hargs⟩
    · rcases hkwargs with ⟨hq, hkwargs⟩ | ⟨hq, e, hkwargs⟩
      · rw [hargs, hkwargs]
        exact .inl ⟨⟨hp, hq⟩, rfl⟩
      · rw [hargs, hkwargs]
        exact .inr ⟨fun h => hq h.2, e, rfl⟩
    · rw [hargs]
      exact .inr ⟨fun h => hp h.1, e, rfl⟩
  rcases hpayload with ⟨hp, hpayload⟩ | ⟨hp, e, hpayload⟩
  · refine .inl ⟨hp, ?_⟩
    rw [recover, hpayload]
    rfl
  · refine .inr ⟨hp, e, ?_⟩
    rw [recover, hpayload]
    rfl

/-- The function is called with equal arguments if both halves of the payload are read back. -/
theorem survives_iff (call : Arguments) :
    task.Survives t call ↔ (WritableItems call.args ∧ WritableFields call.kwargs) ∧
      (∀ j v, call.args[j]? = some v → v.Comparable ∧ KnownAs (task.sig.hintAt j) v) ∧
      ∀ k v, (k, v) ∈ call.kwargs → v.Comparable ∧ KnownAs (task.sig.typeHint k) v := by
  have hargs := deserializeArgs_iff (t := t) task 0 call.args
  simp only [Nat.zero_add] at hargs
  rw [← hargs, ← deserializeKwargs_iff (t := t)]
  unfold Survives
  rcases recover_eq (t := t) task call with ⟨hp, hrecover⟩ | ⟨hp, e, hrecover⟩
  · rw [hrecover, and_iff_right hp]
    unfold invoke payload
    constructor
    · rintro ⟨call', hinvoke, heq⟩
      obtain ⟨args, hread, hinvoke⟩ := exists_of_bind_ok hinvoke
      obtain ⟨kwargs, hread', hinvoke⟩ := exists_of_bind_ok hinvoke
      cases hinvoke
      exact ⟨⟨args, hread, heq.1⟩, kwargs, hread', heq.2⟩
    · rintro ⟨⟨args, hread, heq⟩, kwargs, hread', heq'⟩
      refine ⟨⟨args, kwargs⟩, ?_, heq, heq'⟩
      simp only [hread, hread']
      rfl
  · rw [hrecover]
    exact iff_of_false (fun ⟨_, h, _⟩ => nomatch h) fun h => hp h.1

/-- What the arguments of a call need to come back. The last two concern the arguments that no
parameter takes by its position or its name: those of `*args` after its first, and those of
`**kwargs`. -/
structure Recoverable (sig : Signature) (call : Arguments) : Prop where
  args : ∀ v ∈ call.args, v.Writable ∧ v.Comparable
  kwargs : ∀ p ∈ call.kwargs, p.2.Writable ∧ p.2.Comparable
  further : ∀ i v, sig.positional.length < i → call.args[i]? = some v →
    KnownAs (sig.hintAt i) v
  collected : ∀ k v, (k, v) ∈ call.kwargs → (∀ p, sig.takerOf k = some p → p.name ≠ k) →
    KnownAs (sig.typeHint k) v

/-- `async def link(*pairs: tuple[int, ...])` -/
def linkTask : VarcoTask where
  name := "link"
  sig :=
    { positionalOnly := []
      positionalOrKeyword := []
      varPositional := some ⟨"pairs", .tuple .int⟩
      keywordOnly := []
      varKeyword := none
      returns := none
      names_nodup := by decide }

/-- `link((1, 2), (3, 4))` -/
def linkCall : linkTask.sig.Call where
  args := [.tuple [.int 1, .int 2], .tuple [.int 3, .int 4]]
  kwargs := []
  args_typed i v hv := by
    refine ⟨⟨"pairs", .tuple .int⟩, rfl, ?_⟩
    have hmem := mem_of_getElem? hv
    simp only [mem_cons, not_mem_nil, or_false] at hmem
    rcases hmem with rfl | rfl
    · exact ⟨[.int 1, .int 2], rfl, by simp [TypeHint.HasType]⟩
    · exact ⟨[.int 3, .int 4], rfl, by simp [TypeHint.HasType]⟩
  kwargs_typed k v hv := nomatch hv

end VarcoTask

end Varco
