import Mathlib
import Hotload.Proofs.Evaluation.Placement
import Hotload.Proofs.Evaluation.Promises

/-!
# What scopes bind

A scope binds a name to a variable or else to a function that it declares. Operations on scopes change
what is bound to the names that they are about, and to no others.

* `Heap.lookup_define_of_ne`: the other names after a `let`.
* `declaration?`, `Heap.binds_hoistAll`: the functions that a block declares.
* `Heap.Binds`: what a scope binds a name to.
* `ReadsAs`: a name is read as a value for as long as it gets no other one in its scope.
-/

namespace Hotload

open Syntax (Stmt Function)

/-! ## Pairs -/

theorem lookup_cons_of_ne {α : Type} {key name : String} (hname : name ≠ key) (value : α)
    (pairs : List (String × α)) : ((key, value) :: pairs).lookup name = pairs.lookup name := by
  rw [List.lookup_cons, beq_eq_false_iff_ne.2 hname]

theorem lookup_setPair {α : Type} (key : String) (value : α) (pairs : List (String × α))
    (name : String) :
    (setPair key value pairs).lookup name = if name = key then some value else pairs.lookup name := by
  induction pairs with
  | nil =>
    unfold setPair
    by_cases hname : name = key
    · rw [if_pos hname, hname, List.lookup_cons_self]
    · rw [if_neg hname, lookup_cons_of_ne hname]
  | cons p pairs ih =>
    obtain ⟨k, v⟩ := p
    unfold setPair
    by_cases hk : k = key
    · subst hk
      rw [if_pos rfl]
      by_cases hname : name = k
      · rw [if_pos hname, hname, List.lookup_cons_self]
      · rw [if_neg hname, lookup_cons_of_ne hname, lookup_cons_of_ne hname]
    · rw [if_neg hk]
      by_cases hname : name = k
      · subst hname
        rw [if_neg hk, List.lookup_cons_self, List.lookup_cons_self]
      · rw [lookup_cons_of_ne hname, lookup_cons_of_ne hname, ih]

theorem lookup_filter_of_ne {α : Type} {key name : String} (hname : name ≠ key)
    (pairs : List (String × α)) : (pairs.filter (·.1 ≠ key)).lookup name = pairs.lookup name := by
  induction pairs with
  | nil => rfl
  | cons p pairs ih =>
    obtain ⟨k, v⟩ := p
    by_cases hk : k = key
    · subst hk
      rw [List.filter_cons_of_neg (by simp), lookup_cons_of_ne hname, ih]
    · rw [List.filter_cons_of_pos (by simpa using hk), List.lookup_cons, List.lookup_cons, ih]

namespace Heap

variable {h h' : Heap} {q r scope : ScopeRef} {name other : String} {value : Value}

/-! ## Names of a scope -/

theorem scope_newScope_of_lt (parent : Option ScopeRef) (hq : q.index < h.scopes.size) :
    (h.newScope parent).2.scope q = h.scope q :=
  getD_push_of_lt hq

theorem scope_newScope (h : Heap) (parent : Option ScopeRef) :
    (h.newScope parent).2.scope (h.newScope parent).1 = ⟨[], [], parent⟩ :=
  getD_push_size h.scopes ⟨[], [], parent⟩ ⟨[], [], none⟩

theorem scope_modifyScope_of_ne (h : Heap) (f : Scope → Scope) (hqr : r ≠ q) :
    (h.modifyScope r f).scope q = h.scope q :=
  (h.scope_modifyScope_cases r f q).resolve_right fun ⟨heq, _⟩ => hqr heq

theorem size_modifyScope (h : Heap) (r : ScopeRef) (f : Scope → Scope) :
    (h.modifyScope r f).scopes.size = h.scopes.size :=
  Array.size_modify

theorem parent_define (h : Heap) (r : ScopeRef) (name : String) (value : Value) (q : ScopeRef) :
    ((h.define r name value).scope q).parent = (h.scope q).parent := by
  rcases h.scope_modifyScope_cases r (fun s => { s with vars := setPair name value s.vars }) q with
    hs | ⟨-, hs⟩
  · rw [define, hs]
  · rw [define, hs]

theorem ownValue?_define_of_ne (h : Heap) (r : ScopeRef) (value : Value) (q : ScopeRef)
    (hname : other ≠ name) : (h.define r name value).ownValue? q other = h.ownValue? q other := by
  rcases h.scope_modifyScope_cases r (fun s => { s with vars := setPair name value s.vars }) q with
    hs | ⟨-, hs⟩
  · simp only [ownValue?, define, hs]
  · simp only [ownValue?, define, hs, lookup_setPair, if_neg hname]

theorem ownValue?_define (hr : r.index < h.scopes.size) (name : String) (value : Value) :
    (h.define r name value).ownValue? r name = some value := by
  have hs : (h.define r name value).scope r =
      { h.scope r with vars := setPair name value (h.scope r).vars } :=
    (scope_modifyScope hr _ r).trans (if_pos rfl)
  simp only [ownValue?, hs, lookup_setPair, if_pos]

/-- A variable of a scope is what its name is there. -/
theorem lookup_of_ownValue? (hown : h.ownValue? scope name = some value) :
    h.lookup scope name = some value := by
  have hholder : h.holder? scope name = some scope := by
    simp only [holder?, holderWithin?, hown, Option.isSome_some, if_pos]
  rw [lookup, hholder, Option.bind_some, hown]

/-- A `let` changes nothing about where another name is found. -/
theorem holder?_define_of_ne (h : Heap) (r : ScopeRef) (value : Value) (scope : ScopeRef)
    (hname : other ≠ name) : (h.define r name value).holder? scope other = h.holder? scope other := by
  have hholder (bound : Nat) (s : ScopeRef) :
      (h.define r name value).holderWithin? other bound s = h.holderWithin? other bound s := by
    induction bound generalizing s with
    | zero => rfl
    | succ bound ih =>
      simp only [holderWithin?, ownValue?_define_of_ne h r value s hname, parent_define, ih]
  exact hholder (scope.index + 1) scope

/-- A `let` changes no other name, from wherever it is seen. -/
theorem lookup_define_of_ne (h : Heap) (r : ScopeRef) (value : Value) (scope : ScopeRef)
    (hname : other ≠ name) : (h.define r name value).lookup scope other = h.lookup scope other := by
  simp only [lookup, holder?_define_of_ne h r value scope hname,
    ownValue?_define_of_ne h r value _ hname]

end Heap

/-! ## Declarations -/

/-- The function that a statement declares under a name. -/
def declares? (name : String) : Stmt → Option Function
  | .fn _ function => if function.name = some name then some function else none
  | _ => none

/-- The last function that a block declares under a name. -/
def declaration? (name : String) : List Stmt → Option Function
  | [] => none
  | s :: stmts => (declaration? name stmts).or (declares? name s)

namespace Heap

variable {h h' : Heap} {q r scope : ScopeRef} {name : String} {function : Function} {path : Path}

theorem hoistAll_cons (s : Stmt) (stmts : List Stmt) (scope : ScopeRef) (path : Path) (h : Heap) :
    hoistAll (s :: stmts) scope path h = hoistAll stmts scope path (hoistAll [s] scope path h) := rfl

theorem scope_hoist (hr : r.index < h.scopes.size) (name : String) (function : Function)
    (path : Path) :
    (h.hoist r name function path).scope r =
      { h.scope r with fns := setPair name (function, path) (h.scope r).fns } :=
  (scope_modifyScope hr _ r).trans (if_pos rfl)

/-- One statement declares one function at most. -/
theorem scope_hoistAll_singleton (hr : r.index < h.scopes.size) (path : Path) (s : Stmt) :
    r.index < (hoistAll [s] r path h).scopes.size ∧
      ((hoistAll [s] r path h).scope r).vars = (h.scope r).vars ∧
      ∀ name, ((hoistAll [s] r path h).scope r).fns.lookup name =
        ((declares? name s).map (·, path)).or ((h.scope r).fns.lookup name) := by
  have hnone (hs : hoistAll [s] r path h = h) (hdeclares : ∀ name, declares? name s = none) :
      r.index < (hoistAll [s] r path h).scopes.size ∧
        ((hoistAll [s] r path h).scope r).vars = (h.scope r).vars ∧
        ∀ name, ((hoistAll [s] r path h).scope r).fns.lookup name =
          ((declares? name s).map (·, path)).or ((h.scope r).fns.lookup name) := by
    rw [hs]
    exact ⟨hr, rfl, fun name => by rw [hdeclares, Option.map_none, Option.none_or]⟩
  cases s with
  | fn pos function =>
    cases hname : function.name with
    | none =>
      refine hnone ?_ fun name => ?_
      · simp only [hoistAll, List.foldl_cons, List.foldl_nil, hname]
      · simp only [declares?, hname, reduceCtorEq, if_false]
    | some other =>
      have hs : hoistAll [.fn pos function] r path h = h.hoist r other function path := by
        simp only [hoistAll, List.foldl_cons, List.foldl_nil, hname]
      rw [hs, scope_hoist hr]
      refine ⟨hr.trans_le (h.size_modifyScope r _).ge, rfl, fun name => ?_⟩
      simp only [lookup_setPair, declares?, hname, Option.some.injEq, eq_comm (a := other)]
      split <;> rfl
  | declare | return_ | throw_ | if_ | assign | expr => exact hnone rfl fun _ => rfl

/-- What a block declares is declared in its scope, and its variables are as before. -/
theorem scope_hoistAll (hr : r.index < h.scopes.size) (path : Path) (stmts : List Stmt) :
    r.index < (hoistAll stmts r path h).scopes.size ∧
      ((hoistAll stmts r path h).scope r).vars = (h.scope r).vars ∧
      ∀ name, ((hoistAll stmts r path h).scope r).fns.lookup name =
        ((declaration? name stmts).map (·, path)).or ((h.scope r).fns.lookup name) := by
  induction stmts generalizing h with
  | nil => exact ⟨hr, rfl, fun name => rfl⟩
  | cons s stmts ih =>
    have hone := scope_hoistAll_singleton hr path s
    rw [hoistAll_cons]
    obtain ⟨hsize, hvars, hfns⟩ := ih hone.1
    refine ⟨hsize, hvars.trans hone.2.1, fun name => ?_⟩
    rw [hfns, hone.2.2, declaration?]
    cases declaration? name stmts <;> simp

/-! ## What a name is bound to -/

/-- The scope binds the name to the value. -/
structure Binds (h : Heap) (q : ScopeRef) (name : String) (value : Value) : Prop where
  made : q.index < h.scopes.size
  own : h.ownValue? q name = some value

/-- A block declares its last function of a name, which a variable of this name hides. -/
theorem binds_hoistAll {stmts : List Stmt} (hr : r.index < h.scopes.size) (path : Path)
    (hlast : declaration? name stmts = some function) :
    (hoistAll stmts r path h).Binds r name
      (((h.scope r).vars.lookup name).getD (.fn ⟨function, r, path⟩)) := by
  obtain ⟨hsize, hvars, hfns⟩ := scope_hoistAll hr path stmts
  refine ⟨hsize, ?_⟩
  simp only [ownValue?, hvars, hfns, hlast]
  cases (h.scope r).vars.lookup name <;> rfl

section

variable {value other : Value} {key : String} (hb : h.Binds q name value)

include hb

theorem Binds.of_scope (hsize : h.scopes.size ≤ h'.scopes.size) (hscope : h'.scope q = h.scope q) :
    h'.Binds q name value :=
  ⟨hb.made.trans_le hsize, by simpa only [ownValue?, hscope] using hb.own⟩

theorem Binds.modifyScope_of_ne (f : Scope → Scope) (hrq : r ≠ q) :
    (h.modifyScope r f).Binds q name value :=
  hb.of_scope (h.size_modifyScope r f).ge (h.scope_modifyScope_of_ne f hrq)

/-- Another name gets a value, or the name in another scope. -/
theorem Binds.define (hne : ¬ (r = q ∧ key = name)) (other : Value) :
    (h.define r key other).Binds q name value := by
  by_cases hrq : r = q
  · have hname : name ≠ key := fun heq => hne ⟨hrq, heq.symm⟩
    exact ⟨hb.made.trans_le (h.size_modifyScope r _).ge,
      (h.ownValue?_define_of_ne r other q hname).trans hb.own⟩
  · exact hb.modifyScope_of_ne _ hrq

theorem Binds.assign (hholder : h.holder? scope key = some r) (hne : ¬ (r = q ∧ key = name))
    (hassign : h.assign scope key other = some h') : h'.Binds q name value := by
  rw [assign_eq_map, hholder, Option.map_some] at hassign
  cases hassign
  by_cases hrq : r = q
  · subst hrq
    have hname : name ≠ key := fun heq => hne ⟨rfl, heq.symm⟩
    have hs := scope_modifyScope hb.made (Scope.reassign key other) r
    rw [if_pos rfl, Scope.reassign] at hs
    refine ⟨hb.made.trans_le (h.size_modifyScope r _).ge, ?_⟩
    rw [← hb.own]
    by_cases hvar : ((h.scope r).vars.lookup key).isSome = true
    · rw [if_pos hvar] at hs
      simp only [Heap.ownValue?, hs, lookup_setPair, if_neg hname]
    · rw [if_neg hvar] at hs
      simp only [Heap.ownValue?, hs, lookup_setPair, if_neg hname, lookup_filter_of_ne hname]
  · exact hb.modifyScope_of_ne _ hrq

end

end Heap

/-! ## Bindings stay -/

namespace Monitor

/-- A run ends before a name of a scope gets another value. -/
def stopping (q : ScopeRef) (name : String) (e : LoadError) : Monitor where
  stop? r other := if r = q ∧ other = name then some e else none
  answer? _ _ := none

/-- Until then the name has a given value, whatever the scope holds. -/
def answering (q : ScopeRef) (name : String) (e : LoadError) (value : Value) : Monitor where
  stop? r other := if r = q ∧ other = name then some e else none
  answer? r other := if r = q ∧ other = name then some value else none

theorem stopping_eq_none {q r : ScopeRef} {name other : String} {e : LoadError}
    (h : (stopping q name e).stop? r other = none) : ¬ (r = q ∧ other = name) := by
  intro heq
  simp only [stopping, if_pos heq] at h
  cases h

end Monitor

namespace Promise

variable {q : ScopeRef} {name : String} {value : Value} {e : LoadError} {ended : LoadError → Prop}

/-- The scope binds the name to the value. -/
def binding (q : ScopeRef) (name : String) (value : Value) (ended : LoadError → Prop) : Promise where
  kept r := r = q
  heap h := h.Binds q name value
  stack _ := True
  error _ := True
  ended := ended
  made := by
    rintro h _ hb rfl
    exact hb.made
  of_scopes hb hscopes := hb.of_scope (by rw [hscopes]) (by simp only [Heap.scope, hscopes])
  newScope parent hb := hb.of_scope (by simp [Heap.newScope]) (Heap.scope_newScope_of_lt parent hb.made)
  hoist _ _ _ hb hq := hb.modifyScope_of_ne _ hq
  define _ _ hb hq := hb.modifyScope_of_ne _ hq
  stack_congr _ _ := trivial
  call _ _ _ _ := trivial
  body _ _ := trivial
  fault _ _ _ _ := trivial
  refused := trivial

/-- Up to the stop a run is one without a monitor. -/
theorem allows_stopping : (binding q name value (· = e)).Allows .silent (.stopping q name e) where
  stop r other := by
    by_cases heq : r = q ∧ other = name
    · exact .inr ⟨e, if_pos heq, rfl⟩
    · exact .inl (if_neg heq).symm
  stopped _ := trivial
  define other hb hstop := hb.define (Monitor.stopping_eq_none hstop) other
  assign hb hholder hstop hassign := hb.assign hholder (Monitor.stopping_eq_none hstop) hassign
  ownValue _ _ _ := rfl

/-- Up to the stop the name has the value. -/
theorem allows_answering :
    (binding q name value ended).Allows (.answering q name e value) (.stopping q name e) where
  stop _ _ := .inl rfl
  stopped _ := trivial
  define other hb hstop := hb.define (Monitor.stopping_eq_none hstop) other
  assign hb hholder hstop hassign := hb.assign hholder (Monitor.stopping_eq_none hstop) hassign
  ownValue {h} r other hb := by
    by_cases heq : r = q ∧ other = name
    · obtain ⟨rfl, rfl⟩ := heq
      have hown : h.ownValue? r other = some value := Heap.Binds.own hb
      simp [Monitor.ownValue?, Monitor.answering, Monitor.stopping, hown]
    · simp only [Monitor.ownValue?, Monitor.answering, Monitor.stopping, if_neg heq]

end Promise

/-- Until a `let` or an assignment gives a name of a scope another value, which would end the run in
some way, a computation does under the monitor what it does without, and the name is read as the
value there: nothing changes if it is answered for. -/
structure ReadsAs {σ α : Type} (q : ScopeRef) (name : String) (value : Value) (actual : Run σ α)
    (x : Monitor → Run σ α) (m : Machine σ) : Prop where
  stopped : ∀ e, actual.run m = (x (.stopping q name e)).run m ∨
    (x (.stopping q name e)).outcome m = .error e
  answered : ∀ e, (x (.answering q name e value)).run m = (x (.stopping q name e)).run m

section

variable {σ α : Type} {q : ScopeRef} {name : String} {value : Value} {actual : Run σ α}
  {x : Monitor → Run σ α} {m : Machine σ}

theorem ReadsAs.of_same (hactual : actual = x .silent)
    (h : ∀ ended M M', (Promise.binding q name value ended).Allows M M' →
      (Promise.binding q name value ended).SameAt (x M) (x M') m) :
    ReadsAs q name value actual x m where
  stopped e := by
    subst hactual
    rcases (h (· = e) _ _ Promise.allows_stopping).run with hrun | ⟨_, rfl, he⟩
    · exact .inl hrun
    · exact .inr he
  answered e :=
    (h (fun _ => False) _ _ Promise.allows_answering).run.resolve_right fun ⟨_, hended, _⟩ => hended

/-- Computations that do the same. -/
theorem ReadsAs.congr {actual' : Run σ α} {x' : Monitor → Run σ α}
    (h : ReadsAs q name value actual x m) (hactual : actual'.run m = actual.run m)
    (hx : ∀ M, (x' M).run m = (x M).run m) : ReadsAs q name value actual' x' m where
  stopped e := by
    rw [hactual, Run.outcome, hx]
    exact h.stopped e
  answered e := by
    rw [hx, hx]
    exact h.answered e

/-- A computation that no monitor has to do with. -/
theorem ReadsAs.of_run (h : ∀ M, (x M).run m = actual.run m) : ReadsAs q name value actual x m where
  stopped _ := .inl (h _).symm
  answered _ := (h _).trans (h _).symm

end

end Hotload
