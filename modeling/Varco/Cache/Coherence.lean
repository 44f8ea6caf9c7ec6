import Mathlib.Data.Fintype.Basic
import Mathlib.Tactic.FinCases
import Varco.Cache.Layered

/-!
# The layered cache is coherent where no promotion straddles a write

A write is older than another if it had returned when the other began. `get_not_older`: a `get` that
begins after a `delete` or a write-through `set` has returned finds no value that is older, in every
interleaving in which a value is promoted only if all writes of its key that have begun by then had
returned when the value was read.

The invariant is on each layer: a value that it holds is not older than any write that has reached
the layer (`Fresh`). A write that reaches the layer is itself not older than another, since it has
not returned. A promoted value was read from a slower layer, and every write that has reached the
faster layer had reached that one too.
-/

namespace Varco

open List

namespace LayeredCache

open Pool

variable {κ α : Type}

/-! ## What a call does -/

abbrev LayerEntry (κ α : Type) := Entry ℕ (LayerCmd κ α) LayerCmd.Res

def writtenBy : LayerOp κ α → Option (ℕ × κ × Option α)
  | .set layer key value _ => some (layer, key, value)
  | .delete layer key => some (layer, key, none)
  | .publish _ => none

def op? : LayerEntry κ α → Option (LayerOp κ α)
  | ⟨_, .get _ _, _⟩ => none
  | ⟨_, .gather ops, i⟩ => ops[i]?

def written? (x : LayerEntry κ α) : Option (ℕ × κ × Option α) := (op? x).bind writtenBy

def hit? : LayerEntry κ α → Option (ℕ × κ × α)
  | ⟨_, .get layer key, value⟩ => Option.map (fun v => (layer, key, v)) value
  | ⟨_, .gather _, _⟩ => none

def Wrote (log : List (LayerEntry κ α)) (layer : ℕ) : Prop :=
  ∃ x ∈ log, ∃ key value, written? x = some (layer, key, value)

def write? : LayeredCall κ α → Option (κ × Option α)
  | .get _ => none
  | .set key value _ => some (key, value)
  | .delete key => some (key, none)

def Writes (key : κ) (call : LayeredCall κ α) : Prop := ∃ value, write? call = some (key, value)

def targets (c : LayeredCache) : LayeredCall κ α → List ℕ
  | .get _ => []
  | .set _ _ _ => if c.writeMode = .writeThrough then List.range c.layers else [c.last]
  | .delete _ => List.range c.layers

def Answers (_ : ℕ) : (cmd : LayerCmd κ α) → cmd.Res → Prop
  | .get _ _, _ => True
  | .gather ops, i => i < ops.length

/-- What a call may await: a `get` reads its key, and promotes what it has found to faster layers; a
write writes its value to its layers. -/
def Issues (c : LayeredCache) (call : LayeredCall κ α) (log : List (LayerEntry κ α)) :
    LayerCmd κ α → Prop
  | .get _ key => call = .get key
  | .gather ops => ∀ op ∈ ops, ∀ layer key value, writtenBy op = some (layer, key, value) →
    (write? call = some (key, value) ∧ layer ∈ c.targets call) ∨
    (call = .get key ∧ ∃ found v, value = some v ∧ layer < found ∧ found < c.layers ∧
      ∃ x ∈ log, hit? x = some (found, key, v))

/-- What holds when a call has returned: a write has reached its layers, and a `get` returns what it
has found. -/
def Ends (c : LayeredCache) (call : LayeredCall κ α) (log : List (LayerEntry κ α))
    (result : Except PyException (Option α)) : Prop :=
  ∀ r, result = .ok r → (∀ layer ∈ c.targets call, Wrote log layer) ∧
    ∀ key v, call = .get key → r = some v → ∃ found < c.layers, ∃ x ∈ log,
      hit? x = some (found, key, v)

section

variable {c : LayeredCache} {log : List (LayerEntry κ α)} {ops : List (LayerOp κ α)}
  {Φ : List (LayerEntry κ α) → LayerCmd κ α → Prop}

theorem gatherRounds_local {Ψ : List (LayerEntry κ α) → Unit → Prop} {n : ℕ}
    (hn : n = ops.length)
    (hΦ : ∀ log' ops', log ⊆ log' → ops' ⊆ ops → Φ log' (.gather ops'))
    (hΨ : ∀ log', log ⊆ log' → (∀ op ∈ ops, ∃ x ∈ log', op? x = some op) → Ψ log' ()) :
    Prog.Local Answers Φ Ψ (gatherRounds n ops) log := by
  induction n generalizing ops log with
  | zero =>
    have hops : ops = [] := eq_nil_of_length_eq_zero hn.symm
    subst hops
    exact hΨ log (List.Subset.refl _) (by simp)
  | succ n ih =>
    refine ⟨hΦ log ops (List.Subset.refl _) (List.Subset.refl _), fun x i hi => ?_⟩
    replace hi : i < ops.length := hi
    have hgrow : log ⊆ log ++ [⟨x, .gather ops, i⟩] := subset_append_left ..
    refine ih (by rw [length_eraseIdx_of_lt hi]; omega) (fun log' ops' hlog hops => ?_)
      fun log' hlog hdone => ?_
    · exact hΦ log' ops' (List.Subset.trans hgrow hlog)
        (List.Subset.trans hops eraseIdx_subset)
    · refine hΨ log' (List.Subset.trans hgrow hlog) fun op hop => ?_
      rcases mem_cons.mp ((getElem_cons_eraseIdx_perm hi).mem_iff.mpr hop) with rfl | hop
      · refine ⟨⟨x, .gather ops, i⟩, hlog (by simp), ?_⟩
        exact List.getElem?_eq_getElem hi
      · exact hdone op hop

/-- **A gather** does its operations, and awaits nothing but them. -/
theorem gather_local {Ψ : List (LayerEntry κ α) → Unit → Prop}
    (hΦ : ∀ log' ops', log ⊆ log' → ops' ⊆ ops → Φ log' (.gather ops'))
    (hΨ : ∀ log', log ⊆ log' → (∀ op ∈ ops, ∃ x ∈ log', op? x = some op) → Ψ log' ()) :
    Prog.Local Answers Φ Ψ (gather ops) log :=
  gatherRounds_local rfl hΦ hΨ

theorem requireStarted_local {Ψ : List (LayerEntry κ α) → Except PyException (Option α) → Prop}
    {rest : LayerProg κ α (Option α)}
    (h : Prog.Local Answers Φ (fun l value => Ψ l (.ok value)) rest log)
    (herr : ∀ l e, Ψ l (.error e)) : Prog.Local Answers Φ Ψ (c.requireStarted rest) log := by
  unfold requireStarted
  split
  · exact Prog.Local.bind h
  · exact herr log _

/-- A call that gathers writes twice: they write its value, and reach its layers. -/
theorem writes_local {call : LayeredCall κ α} {key : κ} {value : Option α} (f : ℕ → LayerOp κ α)
    (layers₁ layers₂ : List ℕ) (published : List (LayerOp κ α))
    (hcall : write? call = some (key, value))
    (hf : ∀ layer, writtenBy (f layer) = some (layer, key, value))
    (hpublished : ∀ op ∈ published, writtenBy op = none)
    (htargets : ∀ layer, layer ∈ c.targets call ↔ layer ∈ layers₁ ++ layers₂) :
    Prog.Local Answers (Issues c call) (Ends c call) (c.requireStarted
      (gather (layers₁.map f) >>= fun _ => gather (layers₂.map f ++ published) >>= fun _ =>
        pure none)) [] := by
  have hissues : ∀ log' ops', (∀ op ∈ ops', op ∈ (layers₁ ++ layers₂).map f ∨ op ∈ published) →
      Issues c call log' (.gather ops') := by
    intro log' ops' hops op hop layer key' value' hwritten
    rcases hops op hop with hmap | hpub
    · obtain ⟨layer', hlayer', rfl⟩ := mem_map.mp hmap
      rw [hf] at hwritten
      cases hwritten
      exact .inl ⟨hcall, (htargets _).mpr hlayer'⟩
    · rw [hpublished op hpub] at hwritten
      cases hwritten
  refine requireStarted_local (Prog.Local.bind ?_) fun l e r hr => by cases hr
  refine gather_local (fun log' ops' _ hsub => ?_) fun l₁ _ hdone₁ => ?_
  · refine hissues log' ops' fun op hop => .inl ?_
    rw [map_append]
    exact mem_append_left _ (hsub hop)
  refine Prog.Local.bind (gather_local (fun log' ops' _ hsub => ?_) fun l₂ hgrow hdone₂ => ?_)
  · refine hissues log' ops' fun op hop => ?_
    rw [map_append]
    exact (mem_append.mp (hsub hop)).imp (mem_append_right _) id
  intro r _
  refine ⟨fun layer hlayer => ?_, fun key' v hget => by rw [hget] at hcall; cases hcall⟩
  have hdone : ∃ x ∈ l₂, op? x = some (f layer) := by
    rcases mem_append.mp ((htargets layer).mp hlayer) with hlayer | hlayer
    · obtain ⟨x, hx, hxop⟩ := hdone₁ (f layer) (mem_map_of_mem hlayer)
      exact ⟨x, hgrow hx, hxop⟩
    · exact hdone₂ (f layer) (mem_append_left _ (mem_map_of_mem hlayer))
  obtain ⟨x, hx, hxop⟩ := hdone
  exact ⟨x, hx, key, value, by rw [written?, hxop, Option.bind_some, hf]⟩

theorem last_add_one (c : LayeredCache) : c.last + 1 = c.layers := by
  have := c.two_le
  unfold last
  omega

theorem mem_range_layers (layer : ℕ) :
    layer ∈ List.range c.layers ↔ layer ∈ [c.last] ++ List.range c.last := by
  have := last_add_one c
  simp only [mem_append, mem_singleton, mem_range]
  omega

theorem set_local (key : κ) (value : Option α) (ttl : Option ℚ) :
    Prog.Local Answers (Issues c (.set key value ttl)) (Ends c (.set key value ttl))
      (c.set key value ttl) [] := by
  unfold set
  split
  case isTrue hmode =>
    obtain ⟨-, hmode⟩ := Bool.and_eq_true_iff.mp hmode
    refine writes_local (.set · key value ttl) [c.last] (List.range c.last) [.publish key] rfl
      (fun _ => rfl) (by simp [writtenBy]) fun layer => ?_
    rw [targets, if_pos (of_decide_eq_true hmode), mem_range_layers]
  case isFalse =>
    split
    case isTrue hmode =>
      refine writes_local (.set · key value ttl) (List.range c.layers) [] [] rfl (fun _ => rfl)
        (by simp) fun layer => ?_
      rw [targets, if_pos hmode, append_nil]
    case isFalse hmode =>
      refine writes_local (.set · key value ttl) [c.last] []
        (if c.backplane then [.publish key] else []) rfl (fun _ => rfl) ?_ fun layer => ?_
      · cases c.backplane <;> simp [writtenBy]
      · rw [targets, if_neg hmode, append_nil]

theorem delete_local (key : κ) :
    Prog.Local Answers (Issues c (.delete key : LayeredCall κ α)) (Ends c (.delete key))
      (c.delete key) [] := by
  unfold delete
  split
  · refine writes_local (.delete · key) [c.last] (List.range c.last) [.publish key] rfl
      (fun _ => rfl) (by simp [writtenBy]) fun layer => ?_
    rw [targets, mem_range_layers]
  · refine writes_local (.delete · key) (List.range c.layers) [] [] rfl (fun _ => rfl) (by simp)
      fun layer => ?_
    rw [targets, append_nil]

theorem getFrom_local {key : κ} {n i : ℕ} (hn : i + n ≤ c.layers) (log : List (LayerEntry κ α)) :
    Prog.Local Answers (Issues c (.get key : LayeredCall κ α))
      (fun l value => Ends c (.get key) l (.ok value)) (c.getFrom key n i) log := by
  induction n generalizing i log with
  | zero =>
    intro r hr
    cases hr
    exact ⟨by simp [targets], fun key' v _ hv => by cases hv⟩
  | succ n ih =>
    refine ⟨rfl, fun x value _ => ?_⟩
    cases value with
    | none => exact ih (by omega) _
    | some v =>
      have hhit : hit? (⟨x, .get i key, some v⟩ : LayerEntry κ α) = some (i, key, v) := rfl
      have hends : ∀ l, log ++ [⟨x, .get i key, some v⟩] ⊆ l →
          Ends c (.get key : LayeredCall κ α) l (.ok (some v)) := by
        intro l hl r hr
        cases hr
        refine ⟨by simp [targets], fun key' v' hkey hv => ?_⟩
        cases hkey
        cases hv
        exact ⟨i, by omega, _, hl (by simp), hhit⟩
      simp only
      split
      · refine Prog.Local.bind (gather_local (fun log' ops' hl hsub => ?_) fun l hl _ => hends l hl)
        intro op hop layer key' value hwritten
        obtain ⟨layer', hlayer', rfl⟩ := mem_map.mp (hsub hop)
        cases hwritten
        exact .inr ⟨rfl, i, v, rfl, mem_range.mp hlayer', by omega, _, hl (by simp), hhit⟩
      · exact hends _ (List.Subset.refl _)

/-- **What a call awaits, and what holds when it has returned.** -/
theorem call_local (c : LayeredCache) (call : LayeredCall κ α) :
    Prog.Local Answers (Issues c call) (Ends c call) (c.call call) [] := by
  cases call with
  | get key =>
    refine requireStarted_local (getFrom_local (by omega) []) fun l e r hr => ?_
    cases hr
  | set key value ttl => exact set_local key value ttl
  | delete key => exact delete_local key

/-- A write that goes to a layer goes to every slower one. -/
theorem targets_of_lt {call : LayeredCall κ α} {layer found : ℕ} (hlayer : layer ∈ c.targets call)
    (hlt : layer < found) (hfound : found < c.layers) : found ∈ c.targets call := by
  have hlast := last_add_one c
  cases call with
  | get key => cases hlayer
  | set key value ttl =>
    rw [targets] at hlayer ⊢
    by_cases hmode : c.writeMode = .writeThrough
    · rw [if_pos hmode]
      exact mem_range.mpr hfound
    · rw [if_neg hmode, mem_singleton] at hlayer
      omega
  | delete key => exact mem_range.mpr hfound

end

variable {ι : Type} [DecidableEq ι]

abbrev LayerEvent (ι κ α : Type) := Event ι ℕ (LayerCmd κ α) LayerCmd.Res

def Began (l : List (LayerEvent ι κ α)) (i : ι) : Prop := log i l ≠ []

variable {l l₁ l₂ : List (LayerEvent ι κ α)} {e : LayerEvent ι κ α} {i j : ι}

theorem Began.append (h : Began l₁ i) (l₂ : List (LayerEvent ι κ α)) : Began (l₁ ++ l₂) i := by
  unfold Began
  rw [log_append]
  exact append_ne_nil_of_left_ne_nil h _

variable {layer : ℕ}

theorem began_of_wrote (h : Wrote (log i l) layer) : Began l i := by
  obtain ⟨x, hx, -⟩ := h
  exact ne_nil_of_mem hx

theorem Wrote.append (h : Wrote (log i l₁) layer) (l₂ : List (LayerEvent ι κ α)) :
    Wrote (log i (l₁ ++ l₂)) layer := by
  obtain ⟨x, hx, hwritten⟩ := h
  rw [log_append]
  exact ⟨x, mem_append_left _ hx, hwritten⟩

variable [DecidableEq κ] (c : LayeredCache) (calls : ι → LayeredCall κ α) (s : State κ α)

def Returned (l : List (LayerEvent ι κ α)) (i : ι) : Prop :=
  ∃ P r, Run (Step exec) (start c calls s) l P ∧ P.prog i = .ret (.ok r)

def ReturnedBefore (l : List (LayerEvent ι κ α)) (j i : ι) : Prop :=
  ∃ l₁ l₂, l = l₁ ++ l₂ ∧ Returned c calls s l₁ j ∧ ¬ Began l₁ i

/-- No promotion straddles a write: when a value is promoted, all writes of its key that have begun
had returned when the value was read. -/
def Unstraddled (l : List (LayerEvent ι κ α))
    (_ : Pool ι (State κ α) (LayerCmd κ α) LayerCmd.Res (Except PyException (Option α)))
    (e : LayerEvent ι κ α) : Prop :=
  ∀ l₁ (read : LayerEvent ι κ α) l₂ found key v, l = l₁ ++ read :: l₂ → read.thread = e.thread →
    hit? read.toEntry = some (found, key, v) →
    ∀ w, Writes key (calls w) → Began l w → Returned c calls s l₁ w

variable {c calls s}
  {P P' : Pool ι (State κ α) (LayerCmd κ α) LayerCmd.Res (Except PyException (Option α))}

/-- Whether a call had returned before another is settled when the other begins. -/
theorem ReturnedBefore.of_append (h : ReturnedBefore c calls s (l₁ ++ l₂) j i)
    (hi : Began l₁ i) : ReturnedBefore c calls s l₁ j i := by
  obtain ⟨a, b, hab, hreturned, hbegan⟩ := h
  rcases append_eq_append_iff.mp hab with ⟨t, rfl, -⟩ | ⟨t, rfl, -⟩
  · exact absurd (hi.append t) hbegan
  · exact ⟨a, t, rfl, hreturned, hbegan⟩

omit [DecidableEq ι] in
theorem exec_answers (i : ι) (x : ℕ) (cmd : LayerCmd κ α) (st : State κ α) (r : cmd.Res)
    (st' : State κ α) (h : exec i x cmd st = some (r, st')) : Answers x cmd r := by
  cases cmd with
  | get layer key => trivial
  | gather ops =>
    obtain ⟨op, hop, heq⟩ := Option.map_eq_some_iff.mp h
    cases heq
    exact (List.getElem?_eq_some_iff.mp hop).1

theorem issues_of_run (h : Run (Step exec) (start c calls s) (l₁ ++ e :: l₂) P) :
    Issues c (calls e.thread) (log e.thread l₁) e.cmd :=
  Pool.issued exec_answers (fun i => call_local c (calls i)) h

theorem Returned.wrote (h : Returned c calls s l i)
    (hlayer : layer ∈ c.targets (calls i)) : Wrote (log i l) layer := by
  obtain ⟨P, r, hrun, hret⟩ := h
  have hends := Pool.returned exec_answers (fun i => call_local c (calls i)) hrun hret r rfl
  exact hends.1 layer hlayer

theorem Returned.not_step (h : Returned c calls s l₁ e.thread)
    (hrun : Run (Step exec) (start c calls s) (l₁ ++ l₂ ++ [e]) P) : False := by
  obtain ⟨P₁, r, hrun₁, hret⟩ := h
  rw [append_assoc] at hrun
  obtain ⟨P₁', hrun₁', hrest⟩ := hrun.split
  rw [← hrun₁.det (fun _ _ _ _ => Step.det) hrun₁'] at hrest
  have hnil := (ret_of_run hrest hret).2
  rw [log_append] at hnil
  exact absurd (append_eq_nil_iff.mp hnil).2 (by simp [log])

/-! ## The layers -/

/-- **The effect of a step** on the layers. -/
theorem step_layers (h : Step exec P e P') :
    P'.shared.layers = match written? e.toEntry with
      | none => P.shared.layers
      | some (layer, key, value) => Function.update P.shared.layers layer
          (Function.update (P.shared.layers layer) key value) := by
  have hexec := h.exec_eq
  obtain ⟨⟨x, cmd, r⟩, i⟩ := e
  cases cmd with
  | get layer key =>
    have hs : P.shared = P'.shared := congrArg Prod.snd (Option.some.inj hexec)
    rw [← hs]
    rfl
  | gather ops =>
    obtain ⟨op, hop, heq⟩ := Option.map_eq_some_iff.mp hexec
    have hr : r = x := (Prod.mk.inj heq).1.symm
    have hwritten : written? (⟨x, .gather ops, r⟩ : LayerEntry κ α) = writtenBy op := by
      rw [hr, written?, op?, hop, Option.bind_some]
    rw [← (Prod.mk.inj heq).2]
    simp only [hwritten]
    cases op <;> rfl

variable {key : κ}

theorem layers_of_written (h : Step exec P e P') {value : Option α}
    (hwritten : written? e.toEntry = some (layer, key, value)) :
    P'.shared.layers layer key = value := by
  rw [step_layers h, hwritten]
  simp

/-- A step that does not write a key of a layer leaves it as it is. -/
theorem layers_of_other (h : Step exec P e P')
    (hother : ∀ value, written? e.toEntry ≠ some (layer, key, value)) :
    P'.shared.layers layer key = P.shared.layers layer key := by
  rw [step_layers h]
  cases hwritten : written? e.toEntry with
  | none => rfl
  | some w =>
    obtain ⟨layer', key', value⟩ := w
    rw [hwritten] at hother
    simp only
    by_cases hlayer : layer = layer'
    · subst hlayer
      have hkey : key ≠ key' := fun hkey => hother value (by rw [hkey])
      rw [Function.update_self, Function.update_of_ne hkey]
    · rw [Function.update_of_ne hlayer]

theorem step_hit (h : Step exec P e P') {found : ℕ} {v : α}
    (hhit : hit? e.toEntry = some (found, key, v)) : P.shared.layers found key = some v := by
  have hexec := h.exec_eq
  obtain ⟨⟨x, cmd, r⟩, i⟩ := e
  cases cmd with
  | get layer key' =>
    have hr := congrArg Prod.fst (Option.some.inj hexec)
    obtain ⟨v', hv', heq⟩ := Option.map_eq_some_iff.mp hhit
    cases heq
    exact hr.trans hv'
  | gather ops => cases hhit

/-- What a step writes: a write has reached one of its layers, or a value that was found in a slower
layer is promoted. -/
theorem written_of_run (h : Run (Step exec) (start c calls s) (l ++ [e]) P)
    {value : Option α} (hwritten : written? e.toEntry = some (layer, key, value)) :
    (write? (calls e.thread) = some (key, value) ∧ layer ∈ c.targets (calls e.thread)) ∨
      (calls e.thread = .get key ∧ ∃ found v, value = some v ∧ layer < found ∧ found < c.layers ∧
        ∃ x ∈ log e.thread l, hit? x = some (found, key, v)) := by
  have hissues := issues_of_run h
  obtain ⟨⟨x, cmd, r⟩, i⟩ := e
  cases cmd with
  | get layer' key' => cases hwritten
  | gather ops =>
    obtain ⟨op, hop, hby⟩ := Option.bind_eq_some_iff.mp hwritten
    exact hissues op (mem_of_getElem? hop) layer key value hby

variable (c calls s) in
/-- A value is not older than any write of its key that has reached the layer. -/
def Fresh (l : List (LayerEvent ι κ α)) (layer : ℕ) (key : κ) (v : α) : Prop :=
  ∀ i, Writes key (calls i) → Wrote (log i l) layer →
    ∃ j ttl, calls j = .set key (some v) ttl ∧ Began l j ∧ ¬ ReturnedBefore c calls s l j i

/-- A value that is not older is not older later, if no other write has reached the layer since. -/
theorem Fresh.append {v : α} (h : Fresh c calls s l₁ layer key v)
    (hwrote : ∀ i, Writes key (calls i) → Wrote (log i (l₁ ++ l₂)) layer → Wrote (log i l₁) layer) :
    Fresh c calls s (l₁ ++ l₂) layer key v := by
  intro i hi hreached
  have hreached₁ := hwrote i hi hreached
  obtain ⟨j, ttl, hj, hbegan, hbefore⟩ := h i hi hreached₁
  refine ⟨j, ttl, hj, hbegan.append l₂, fun hlater => hbefore ?_⟩
  exact hlater.of_append (began_of_wrote hreached₁)

/-- A value that a write writes is not older than any write: the write has not returned. -/
theorem fresh_written (h : Run (Step exec) (start c calls s) (l ++ [e]) P)
    {v : α} (hwrite : write? (calls e.thread) = some (key, some v)) :
    Fresh c calls s (l ++ [e]) layer key v := by
  intro i _ hreached
  have hset : ∃ ttl, calls e.thread = .set key (some v) ttl := by
    cases hcall : calls e.thread with
    | get key' => simp [hcall, write?] at hwrite
    | set key' value ttl =>
      rw [hcall] at hwrite
      cases hwrite
      exact ⟨ttl, rfl⟩
    | delete key' => simp [hcall, write?] at hwrite
  obtain ⟨ttl, hset⟩ := hset
  refine ⟨e.thread, ttl, hset, by simp [Began, log_snoc_self], ?_⟩
  rintro ⟨l₁, l₂, hl, hreturned, hbegan⟩
  -- the other write has begun by now, so this one would have returned before this step
  rcases eq_nil_or_concat l₂ with rfl | ⟨l₃, e', rfl⟩
  · rw [append_nil] at hl
    rw [hl] at hreached
    exact hbegan (began_of_wrote hreached)
  · rw [concat_eq_append, ← append_assoc] at hl
    obtain ⟨rfl, hlast⟩ := append_inj' hl rfl
    exact hreturned.not_step h

/-- The layers that a write has reached are layers that it writes to. -/
theorem targets_of_wrote (h : Run (Step exec) (start c calls s) l P)
    (hi : Writes key (calls i)) (hwrote : Wrote (log i l) layer) : layer ∈ c.targets (calls i) := by
  obtain ⟨x, hx, key', value, hwritten⟩ := hwrote
  obtain ⟨e, he, rfl, rfl⟩ := mem_log.mp hx
  obtain ⟨l₁, l₂, rfl⟩ := append_of_mem he
  have hsplit : l₁ ++ e :: l₂ = l₁ ++ [e] ++ l₂ := by simp
  rw [hsplit] at h
  obtain ⟨P₁, h₁, -⟩ := h.split
  rcases written_of_run h₁ hwritten with ⟨-, htarget⟩ | ⟨hget, -⟩
  · exact htarget
  · obtain ⟨value', hvalue⟩ := hi
    rw [hget] at hvalue
    cases hvalue

/-- A value that is promoted is not older than any write that has reached the faster layer. -/
theorem fresh_promoted (h : Run (Step exec) (start c calls s) l P) {read : LayerEvent ι κ α}
    {found : ℕ} {v : α} (hl : l = l₁ ++ read :: l₂)
    (hsettled : ∀ w, Writes key (calls w) → Began l w → Returned c calls s l₁ w)
    (hlt : layer < found) (hfound : found < c.layers) (hfresh : Fresh c calls s l₁ found key v) :
    Fresh c calls s l layer key v := by
  intro i hi hreached
  have hreturned := hsettled i hi (began_of_wrote hreached)
  have htarget := targets_of_lt (targets_of_wrote h hi hreached) hlt hfound
  have hreached₁ := hreturned.wrote htarget
  obtain ⟨j, ttl, hj, hbegan, hbefore⟩ := hfresh i hi hreached₁
  rw [hl]
  refine ⟨j, ttl, hj, hbegan.append _, fun hlater => hbefore ?_⟩
  exact hlater.of_append (began_of_wrote hreached₁)

/-- A write that has reached a layer had done so before a step that does not write its key there. -/
theorem wrote_of_snoc (h : Run (Step exec) (start c calls s) (l ++ [e]) P)
    (hother : ∀ value, written? e.toEntry ≠ some (layer, key, value)) (hi : Writes key (calls i))
    (hreached : Wrote (log i (l ++ [e])) layer) : Wrote (log i l) layer := by
  obtain ⟨x, hx, key', value, hwritten⟩ := hreached
  rw [log_append, mem_append] at hx
  rcases hx with hx | hx
  · exact ⟨x, hx, key', value, hwritten⟩
  · obtain ⟨e', he', rfl, rfl⟩ := mem_log.mp hx
    rw [mem_singleton] at he'
    subst he'
    obtain ⟨value', hvalue⟩ := hi
    rcases written_of_run h hwritten with ⟨hwrite, -⟩ | ⟨hget, -⟩
    · rw [hvalue] at hwrite
      cases hwrite
      exact absurd hwritten (hother value)
    · rw [hget] at hvalue
      cases hvalue

omit [DecidableEq κ] in
/-- A step of a `get` begins no write. -/
theorem began_of_snoc {key' : κ} {w : ι} (hget : calls e.thread = .get key)
    (hw : Writes key' (calls w)) (hbegan : Began (l ++ [e]) w) : Began l w := by
  have hne : e.thread ≠ w := by
    rintro rfl
    obtain ⟨value, hvalue⟩ := hw
    rw [hget] at hvalue
    cases hvalue
  rwa [Began, log_snoc_ne l hne] at hbegan

/-- **The invariant**: what the layers hold is fresh, at every time of a run in which no promotion
straddles a write. -/
theorem fresh_of_run (h : Guarded (Step exec) (Unstraddled c calls s) (start c calls s) l P)
    {P₁ : Pool ι (State κ α) (LayerCmd κ α) LayerCmd.Res (Except PyException (Option α))}
    (hl : l = l₁ ++ l₂) (h₁ : Run (Step exec) (start c calls s) l₁ P₁) {v : α}
    (hv : P₁.shared.layers layer key = some v) : Fresh c calls s l₁ layer key v := by
  induction h generalizing l₁ l₂ P₁ layer key v with
  | nil =>
    obtain ⟨rfl, -⟩ := append_eq_nil_iff.mp hl.symm
    rintro i - ⟨x, hx, -⟩
    cases hx
  | @snoc l t t' e hguarded hok hst ih =>
    rcases eq_nil_or_concat l₂ with rfl | ⟨l₃, e', rfl⟩
    · rw [append_nil] at hl
      subst hl
      have hrun := hguarded.run
      have hrun' := hrun.append (.single hst)
      obtain rfl := h₁.det (fun _ _ _ _ => Step.det) hrun'
      by_cases hother : ∀ value, written? e.toEntry ≠ some (layer, key, value)
      · rw [layers_of_other hst hother] at hv
        refine (ih (append_nil _).symm hrun hv).append fun i hi hreached => ?_
        exact wrote_of_snoc hrun' hother hi hreached
      · obtain ⟨value, hwritten⟩ := not_forall_not.mp hother
        rw [layers_of_written hst hwritten] at hv
        subst hv
        rcases written_of_run hrun' hwritten with
          ⟨hwrite, -⟩ | ⟨hget, found, v', hv', hlt, hfound, x, hx, hhit⟩
        · exact fresh_written hrun' hwrite
        · cases hv'
          obtain ⟨read, hread, hthread, rfl⟩ := mem_log.mp hx
          obtain ⟨a, b, rfl⟩ := append_of_mem hread
          obtain ⟨Pa, Pb, hruna, hsta, -⟩ := hrun.at_label
          have hfresh := ih rfl hruna (step_hit hsta hhit)
          refine fresh_promoted hrun' (append_assoc ..) (fun w hw hbegan => ?_) hlt hfound
            hfresh
          exact hok a read b found key v rfl hthread hhit w hw (began_of_snoc hget hw hbegan)
    · rw [concat_eq_append, ← append_assoc] at hl
      obtain ⟨rfl, -⟩ := append_inj' hl rfl
      exact ih rfl h₁ hv

/-! ## What a `get` finds -/

/-- **A `get` finds nothing older than a write that had returned when it began**, if the write goes
to every layer and no promotion straddles a write: what it returns is the value of a `set` that had
not returned when the write began. If all other writes of the key had returned by then, it is the
value of that write, and after a `delete` there is none. -/
theorem get_not_older (c : LayeredCache) (calls : ι → LayeredCall κ α) (s : State κ α)
    (l₁ l₂ : List (LayerEvent ι κ α))
    (P : Pool ι (State κ α) (LayerCmd κ α) LayerCmd.Res (Except PyException (Option α)))
    (hrun : Guarded (Step exec) (Unstraddled c calls s) (start c calls s) (l₁ ++ l₂) P)
    (i g : ι) (key : κ) (v : α)
    (hi : calls i = .delete key ∨
      c.writeMode = .writeThrough ∧ ∃ value ttl, calls i = .set key value ttl)
    (hreturned : Returned c calls s l₁ i) (hg : calls g = .get key) (hstart : ¬ Began l₁ g)
    (hv : P.prog g = .ret (.ok (some v))) :
    (∃ j ttl, calls j = .set key (some v) ttl ∧ Began (l₁ ++ l₂) j ∧
      ¬ ReturnedBefore c calls s (l₁ ++ l₂) j i) ∧
    ((∀ w ≠ i, Writes key (calls w) → Began (l₁ ++ l₂) w →
      ReturnedBefore c calls s (l₁ ++ l₂) w i) → ∃ ttl, calls i = .set key (some v) ttl) := by
  have hwrites : Writes key (calls i) := by
    rcases hi with hi | ⟨-, value, ttl, hi⟩
    · exact ⟨none, by rw [hi, write?]⟩
    · exact ⟨value, by rw [hi, write?]⟩
  have htargets : c.targets (calls i) = List.range c.layers := by
    rcases hi with hi | ⟨hmode, value, ttl, hi⟩
    · rw [hi, targets]
    · rw [hi, targets, if_pos hmode]
  have hends := Pool.returned exec_answers (fun i => call_local c (calls i)) hrun.run hv _ rfl
  obtain ⟨found, hfound, x, hx, hhit⟩ := hends.2 key v hg rfl
  obtain ⟨read, hread, hthread, rfl⟩ := mem_log.mp hx
  -- the value was read after the write had returned
  have hread₂ : read ∈ l₂ := by
    rcases mem_append.mp hread with hread | hread
    · exact absurd (ne_nil_of_mem (mem_log.mpr ⟨read, hread, hthread, rfl⟩)) hstart
    · exact hread
  obtain ⟨a, b, rfl⟩ := append_of_mem hread₂
  have hsplit : l₁ ++ (a ++ read :: b) = l₁ ++ a ++ read :: b := (append_assoc ..).symm
  obtain ⟨Pa, Pb, hruna, hsta, -⟩ := (hsplit ▸ hrun.run).at_label
  have hfresh := fresh_of_run hrun hsplit hruna (step_hit hsta hhit)
  have hreached := hreturned.wrote (htargets ▸ mem_range.mpr hfound)
  obtain ⟨j, ttl, hj, hbegan, hbefore⟩ := hfresh i hwrites (hreached.append a)
  have hnot : ¬ ReturnedBefore c calls s (l₁ ++ (a ++ read :: b)) j i := by
    rw [hsplit]
    exact fun hlater => hbefore (hlater.of_append (began_of_wrote (hreached.append a)))
  have hbegan' : Began (l₁ ++ (a ++ read :: b)) j := by
    rw [hsplit]
    exact hbegan.append _
  refine ⟨⟨j, ttl, hj, hbegan', hnot⟩, fun hothers => ⟨ttl, ?_⟩⟩
  by_contra hne
  have hji : j ≠ i := fun hji => hne (hji ▸ hj)
  exact hnot (hothers j hji ⟨some v, by rw [hj, write?]⟩ hbegan')

theorem unstraddled_of_no_write (h : ∀ w, Began l w → ∀ key, ¬ Writes key (calls w)) :
    Unstraddled c calls s l P e :=
  fun _ _ _ _ key _ _ _ _ w hw hbegan => absurd hw (h w hbegan key)

theorem unstraddled_of_no_hit (h : ∀ x ∈ l, x.thread = e.thread → hit? x.toEntry = none) :
    Unstraddled c calls s l P e := by
  intro l₁ read l₂ found key v hl hthread hhit
  rw [h read (by simp [hl]) hthread] at hhit
  cases hhit

def twoLayers : LayeredCache where
  layers := 2
  two_le := two_le_two

/-- A `get`, a `set` of 2, and a `get`. -/
def setBetween : Fin 3 → LayeredCall String ℕ
  | 0 => .get "k"
  | 1 => .set "k" (some 2) none
  | 2 => .get "k"

def stored : State String ℕ where
  layers := fun layer key => if layer = 1 ∧ key = "k" then some 1 else none

/-- A value is found in the last layer and promoted; it is overwritten, and the new value is found.
-/
theorem get_not_older_overwritten :
    ∃ l₁ l₂ P, Guarded (Step exec) (Unstraddled twoLayers setBetween stored)
        (start twoLayers setBetween stored) (l₁ ++ l₂) P ∧
      P.prog 0 = .ret (.ok (some 1)) ∧ P.prog 2 = .ret (.ok (some 2)) ∧
      ∃ j ttl, setBetween j = .set "k" (some 2) ttl ∧ Began (l₁ ++ l₂) j ∧
        ¬ ReturnedBefore twoLayers setBetween stored (l₁ ++ l₂) j 1 := by
  have hrun : ∃ l₀ l₁ l₂ P₀ P₁ P, Run (Step exec) (start twoLayers setBetween stored) l₀ P₀ ∧
      Run (Step exec) P₀ l₁ P₁ ∧ Run (Step exec) P₁ l₂ P ∧
      (P₁.prog 1 = .ret (.ok none) ∧ P.prog 0 = .ret (.ok (some 1)) ∧
        P.prog 2 = .ret (.ok (some 2))) ∧
      (∀ x ∈ l₀, x.thread = 0) ∧ (∀ x ∈ l₁ ++ l₂, x.thread ≠ 0) ∧ (∀ x ∈ l₁, x.thread ≠ 2) ∧
      ∀ x ∈ (l₁ ++ l₂).dropLast, hit? x.toEntry = none := by
    refine ⟨_, _, _, _, _, _, Pool.run_of_sched (q := [(0, 0), (0, 0), (0, 0)]) rfl,
      Pool.run_of_sched (q := [(1, 0), (1, 0)]) rfl, Pool.run_of_sched (q := [(2, 0)]) rfl,
      ⟨rfl, rfl, rfl⟩, ?_, ?_, ?_, ?_⟩
    · simp
    · simp
    · simp
    · simp [hit?]
  obtain ⟨l₀, l₁, l₂, P₀, P₁, P, h₀, h₁, h₂, ⟨hset, hget₀, hget₂⟩, hl₀, hl, hl₁, hhit⟩ := hrun
  have hguarded₀ : Guarded (Step exec) (Unstraddled twoLayers setBetween stored)
      (start twoLayers setBetween stored) l₀ P₀ := by
    refine .of_run h₀ fun a e b t hab _ => unstraddled_of_no_write fun w hw key => ?_
    obtain ⟨x, hx⟩ := exists_mem_of_ne_nil _ hw
    obtain ⟨e', he', rfl, -⟩ := mem_log.mp hx
    rw [hl₀ e' (by simp [hab, he'])]
    rintro ⟨value, hvalue⟩
    cases hvalue
  have hguarded := hguarded₀.extend (h₁.append h₂) fun a e b t hab _ => by
    refine unstraddled_of_no_hit fun x hx hthread => ?_
    have he := hl e (by simp [hab])
    rcases mem_append.mp hx with hx | hx
    · exact absurd (hthread.symm.trans (hl₀ x hx)) he
    · refine hhit x ?_
      rw [hab, dropLast_append_cons]
      exact mem_append_left _ hx
  rw [← append_assoc] at hguarded
  have hstart : ¬ Began (l₀ ++ l₁) (2 : Fin 3) := by
    intro hbegan
    obtain ⟨x, hx⟩ := exists_mem_of_ne_nil _ hbegan
    obtain ⟨e', he', hthread, -⟩ := mem_log.mp hx
    rcases mem_append.mp he' with he' | he'
    · rw [hl₀ e' he'] at hthread
      cases hthread
    · exact hl₁ e' he' hthread
  refine ⟨l₀ ++ l₁, l₂, P, hguarded, hget₀, hget₂, ?_⟩
  exact (get_not_older twoLayers setBetween stored (l₀ ++ l₁) l₂ P hguarded 1 2 "k" 2
    (.inr ⟨rfl, some 2, none, rfl⟩) ⟨P₁, none, h₀.append h₁, hset⟩ rfl hstart hget₂).1

/-! ## Without the conditions -/

/-- Coherence: once a write of a key has returned and no later one has begun, a `get` of the key
that begins afterwards returns nothing but the value of that write. -/
def Coherent {ι : Type} [DecidableEq ι] (c : LayeredCache) (calls : ι → LayeredCall κ α)
    (s : State κ α) : Prop :=
  ∀ l₁ l₂ P i g key v, Run (Step exec) (start c calls s) (l₁ ++ l₂) P → Writes key (calls i) →
    Returned c calls s l₁ i →
    (∀ w ≠ i, Writes key (calls w) → Began (l₁ ++ l₂) w →
      ∃ a b, l₁ ++ l₂ = a ++ b ∧ Began a w ∧ ¬ Began a i) →
    calls g = .get key → ¬ Began l₁ g → P.prog g = .ret (.ok (some v)) →
    ∃ ttl, calls i = .set key (some v) ttl

def writeAround : LayeredCache where
  layers := 2
  writeMode := .writeAround

/-- A `set` of 1, a `get`, a `set` of 2, and a `get`. -/
def setTwice : Fin 4 → LayeredCall String ℕ
  | 0 => .set "k" (some 1) none
  | 1 => .get "k"
  | 2 => .set "k" (some 2) none
  | 3 => .get "k"

/-- A `set` of 1, a `delete`, and a `get`. -/
def deleteBetween : Fin 3 → LayeredCall String ℕ
  | 0 => .set "k" (some 1) none
  | 1 => .delete "k"
  | 2 => .get "k"

theorem not_coherent {g : ι} {v : α} {r : Option α}
    {P₁ : Pool ι (State κ α) (LayerCmd κ α) LayerCmd.Res (Except PyException (Option α))}
    (h₁ : Run (Step exec) (start c calls s) l₁ P₁) (h₂ : Run (Step exec) P₁ l₂ P)
    (hreturned : P₁.prog i = .ret (.ok r)) (hv : P.prog g = .ret (.ok (some v)))
    (hg : calls g = .get key) (hi : Writes key (calls i))
    (hvalue : ∀ ttl, calls i ≠ .set key (some v) ttl) (hstart : ¬ Began l₁ g)
    (hlast : ∀ w ≠ i, Writes key (calls w) → ∃ a b, l₁ ++ l₂ = a ++ b ∧ Began a w ∧ ¬ Began a i) :
    ¬ Coherent c calls s := by
  intro hcoherent
  obtain ⟨ttl, hset⟩ := hcoherent l₁ l₂ P i g key v (h₁.append h₂) hi ⟨P₁, r, h₁, hreturned⟩
    (fun w hne hw _ => hlast w hne hw) hg hstart hv
  exact hvalue ttl hset

/-- **The conditions are needed.** A write-around `set` leaves the old value in the faster layer. A
`get` that has read before a `set` promotes the old value after it. A `set` that overlaps with a
`delete` writes the last layer after it. -/
theorem incoherent :
    ¬ Coherent writeAround setTwice ⟨fun _ _ => none, []⟩ ∧
      ¬ Coherent twoLayers setBetween stored ∧
      ¬ Coherent twoLayers deleteBetween ⟨fun _ _ => none, []⟩ := by
  refine ⟨?_, ?_, ?_⟩
  · refine not_coherent (i := 2) (g := 3)
      (Pool.run_of_sched (q := [(0, 0), (1, 0), (1, 0), (1, 0), (2, 0)]) rfl)
      (Pool.run_of_sched (q := [(3, 0)]) rfl) rfl rfl rfl ⟨_, rfl⟩ (fun _ h => by cases h)
      (by simp [Began, log]) fun w hne hw => ?_
    fin_cases w
    · exact ⟨[_], _, rfl, by simp [Began, log], by simp [Began, log]⟩
    · exact absurd hw.choose_spec (by simp [setTwice, write?])
    · exact absurd rfl hne
    · exact absurd hw.choose_spec (by simp [setTwice, write?])
  · refine not_coherent (i := 1) (g := 2)
      (Pool.run_of_sched (q := [(0, 0), (0, 0), (1, 0), (1, 0)]) rfl)
      (Pool.run_of_sched (q := [(0, 0), (2, 0)]) rfl) rfl rfl rfl ⟨_, rfl⟩ (fun _ h => by cases h)
      (by simp [Began, log]) fun w hne hw => ?_
    fin_cases w
    · exact absurd hw.choose_spec (by simp [setBetween, write?])
    · exact absurd rfl hne
    · exact absurd hw.choose_spec (by simp [setBetween, write?])
  · refine not_coherent (i := 1) (g := 2)
      (Pool.run_of_sched (q := [(0, 0), (1, 0), (1, 0)]) rfl)
      (Pool.run_of_sched (q := [(0, 0), (2, 0), (2, 0), (2, 0)]) rfl) rfl rfl rfl ⟨_, rfl⟩
      (fun _ h => by cases h) (by simp [Began, log]) fun w hne hw => ?_
    fin_cases w
    · exact ⟨[_], _, rfl, by simp [Began, log], by simp [Began, log]⟩
    · exact absurd rfl hne
    · exact absurd hw.choose_spec (by simp [deleteBetween, write?])

end LayeredCache

end Varco
