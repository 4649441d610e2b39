import Mathlib
import Hotload.Proofs.Evaluation.Horizon
import Hotload.Evaluation
import Hotload.CoreModules
import Hotload.FileLoader

/-!
# Where code belongs

A function value pairs a piece of code with a scope and the path of a module. A placement says which
code belongs to which scopes and paths; a heap keeps to it if all function values on it do and all
functions that are declared in its scopes. The operations on heaps keep to a placement that the values
they are given keep to.

* `Fragment`, `Stmt.fragments`: what can be seen of code that runs.
* `Placement`, `Value.Placed`, `Heap.Placed`: code where it belongs.
* `Heap.Shelters`: a later heap, whose scopes lie in each other as before.
* `Heap.Placed.lookup`, `Heap.Placed.native` and so on: one lemma for each operation.
-/

namespace Hotload

open Syntax (Pos Expr Stmt Function BinaryOp)

/-! ## Fragments of code -/

/-- What can be seen of code that runs: the positions it is at, and the functions it makes. -/
inductive Fragment where
  | position (pos : Pos)
  | function (function : Function)

namespace Syntax

mutual

/-- The fragments of an expression. -/
def Expr.fragments : Expr → List Fragment
  | .nil pos | .bool pos _ | .num pos _ | .str pos _ | .ident pos _ => [.position pos]
  | .list pos items => .position pos :: Expr.fragmentsList items
  | .object pos fields => .position pos :: Expr.fragmentsFields fields
  | .fn pos function => .position pos :: function.fragments
  | .call pos callee args => .position pos :: callee.fragments ++ Expr.fragmentsList args
  | .member pos object _ => .position pos :: object.fragments
  | .index pos object index => .position pos :: object.fragments ++ index.fragments
  | .unary pos _ operand => .position pos :: operand.fragments
  | .binary pos _ lhs rhs => .position pos :: lhs.fragments ++ rhs.fragments

/-- The fragments of expressions. -/
def Expr.fragmentsList : List Expr → List Fragment
  | [] => []
  | e :: es => e.fragments ++ Expr.fragmentsList es

/-- The fragments of fields. -/
def Expr.fragmentsFields : List (String × Expr) → List Fragment
  | [] => []
  | (_, value) :: fields => value.fragments ++ Expr.fragmentsFields fields

/-- The fragments of a function, itself among them. -/
def Function.fragments : Function → List Fragment
  | .mk pos name params body =>
    .function (.mk pos name params body) :: .position pos :: Stmt.fragmentsList body

/-- The fragments of a statement. -/
def Stmt.fragments : Stmt → List Fragment
  | .declare pos _ value => .position pos :: value.fragments
  | .fn pos function => .position pos :: function.fragments
  | .return_ pos none => [.position pos]
  | .return_ pos (some value) => .position pos :: value.fragments
  | .throw_ pos value => .position pos :: value.fragments
  | .if_ pos cond thenBody none =>
    .position pos :: cond.fragments ++ Stmt.fragmentsList thenBody
  | .if_ pos cond thenBody (some elseBody) =>
    .position pos :: cond.fragments ++ Stmt.fragmentsList thenBody ++ Stmt.fragmentsList elseBody
  | .assign pos target value => .position pos :: target.fragments ++ value.fragments
  | .expr pos value => .position pos :: value.fragments

/-- The fragments of statements. -/
def Stmt.fragmentsList : List Stmt → List Fragment
  | [] => []
  | s :: ss => s.fragments ++ Stmt.fragmentsList ss

end

/-- With every function all of its fragments are there. -/
def Saturated (xs : List Fragment) : Prop := ∀ f, .function f ∈ xs → f.fragments ⊆ xs

section

variable {xs ys : List Fragment}

theorem saturated_nil : Saturated [] := fun _ h => absurd h List.not_mem_nil

theorem Saturated.append (hx : Saturated xs) (hy : Saturated ys) : Saturated (xs ++ ys) := fun f h =>
  (List.mem_append.1 h).elim (fun h => List.subset_append_of_subset_left _ (hx f h))
    fun h => List.subset_append_of_subset_right _ (hy f h)

theorem Saturated.position (h : Saturated xs) (pos : Pos) : Saturated (.position pos :: xs) := fun f hf =>
  List.subset_cons_of_subset _ (h f ((List.mem_cons.1 hf).resolve_left nofun))

mutual

theorem Expr.saturated : (e : Expr) → Saturated e.fragments
  | .nil _ | .bool .. | .num .. | .str .. | .ident .. => saturated_nil.position _
  | .list _ items => (Expr.saturated_list items).position _
  | .object _ fields => (Expr.saturated_fields fields).position _
  | .fn _ function => function.saturated.position _
  | .call _ callee args => (callee.saturated.position _).append (Expr.saturated_list args)
  | .member _ object _ => object.saturated.position _
  | .index _ object index => (object.saturated.position _).append index.saturated
  | .unary _ _ operand => operand.saturated.position _
  | .binary _ _ lhs rhs => (lhs.saturated.position _).append rhs.saturated

theorem Expr.saturated_list : (es : List Expr) → Saturated (Expr.fragmentsList es)
  | [] => saturated_nil
  | e :: es => e.saturated.append (Expr.saturated_list es)

theorem Expr.saturated_fields : (fields : List (String × Expr)) → Saturated (Expr.fragmentsFields fields)
  | [] => saturated_nil
  | (_, value) :: fields => value.saturated.append (Expr.saturated_fields fields)

theorem Function.saturated : (function : Function) → Saturated function.fragments
  | .mk pos name params body => fun f h => by
    rcases List.mem_cons.1 h with h | h
    · cases h
      exact List.Subset.refl _
    · exact List.subset_cons_of_subset _ ((Stmt.saturated_list body).position pos f h)

theorem Stmt.saturated : (s : Stmt) → Saturated s.fragments
  | .declare _ _ value => value.saturated.position _
  | .fn _ function => function.saturated.position _
  | .return_ _ none => saturated_nil.position _
  | .return_ _ (some value) => value.saturated.position _
  | .throw_ _ value => value.saturated.position _
  | .if_ _ cond thenBody none => (cond.saturated.position _).append (Stmt.saturated_list thenBody)
  | .if_ _ cond thenBody (some elseBody) =>
    ((cond.saturated.position _).append (Stmt.saturated_list thenBody)).append (Stmt.saturated_list elseBody)
  | .assign _ target value => (target.saturated.position _).append value.saturated
  | .expr _ value => value.saturated.position _

theorem Stmt.saturated_list : (ss : List Stmt) → Saturated (Stmt.fragmentsList ss)
  | [] => saturated_nil
  | s :: ss => s.saturated.append (Stmt.saturated_list ss)

end

end

theorem Expr.position_mem (e : Expr) : .position e.pos ∈ e.fragments := by
  cases e <;> exact List.mem_cons_self

theorem Function.fragments_eq (f : Function) :
    f.fragments = .function f :: .position f.pos :: Stmt.fragmentsList f.body := by
  cases f
  rfl

end Syntax

/-! ## Placements -/

/-- Which code belongs to a scope and the path of a module. -/
abbrev Placement := ScopeRef → Path → Fragment → Prop

/-- A function value pairs its code with a scope and a path that it belongs to. -/
def Value.Placed (K : Placement) : Value → Prop
  | .fn f => K f.scope f.path (.function f.function)
  | .nil | .bool _ | .num _ | .str _ | .list _ | .object _ | .native .. | .require _ => True

theorem Value.Placed.mono {K K' : Placement} {v : Value} (hK : K ≤ K') (hv : v.Placed K) :
    v.Placed K' := by
  cases v with
  | fn f => exact hK _ _ _ hv
  | nil | bool | num | str | list | object | native | require => trivial

namespace Heap

/-- All function values that are held, and all functions that scopes declare, are where they
belong. -/
structure Placed (K : Placement) (h : Heap) : Prop where
  values : ∀ p, ∀ v ∈ h.contents p, v.Placed K
  declared : ∀ r, ∀ f ∈ (h.scope r).fns, K r f.2.2 (.function f.2.1)

/-- The second heap has all scopes of the first one, and they lie in each other as before. -/
def Shelters (h h' : Heap) : Prop :=
  ∀ r : ScopeRef, r.index < h.scopes.size →
    r.index < h'.scopes.size ∧ (h'.scope r).parent = (h.scope r).parent

variable {K K' : Placement} {h h' : Heap} {v : Value} {r : ScopeRef}

theorem Placed.mono (hh : h.Placed K) (hK : K ≤ K') : h.Placed K' :=
  ⟨fun p v hv => (hh.values p v hv).mono hK, fun r f hf => hK _ _ _ (hh.declared r f hf)⟩

theorem Shelters.refl (h : Heap) : h.Shelters h := fun _ hr => ⟨hr, rfl⟩

theorem Shelters.trans {h'' : Heap} (hh : h.Shelters h') (hh' : h'.Shelters h'') :
    h.Shelters h'' := fun r hr =>
  have ⟨hr', hp⟩ := hh r hr
  have ⟨hr'', hp'⟩ := hh' r hr'
  ⟨hr'', hp'.trans hp⟩

theorem Extends.shelters (he : h.Extends h') : h.Shelters h' := fun r hr =>
  have ⟨hr', hs⟩ := he.scopes r hr
  ⟨hr', congrArg Scope.parent hs⟩

theorem shelters_of_eq (hs : h'.scopes = h.scopes) : h.Shelters h' := fun r hr =>
  ⟨by rwa [hs], by simp only [scope, hs]⟩

/-! ### Values that are held -/

theorem getD_push_cases {α : Type} (xs : Array α) (x d : α) (n : Nat) :
    (xs.push x).getD n d = xs.getD n d ∨ n = xs.size ∧ (xs.push x).getD n d = x := by
  rcases lt_trichotomy n xs.size with hn | rfl | hn
  · exact .inl (getD_push_of_lt hn)
  · exact .inr ⟨rfl, getD_push_size xs x d⟩
  · refine .inl ?_
    rw [Array.getD_eq_getD_getElem?, Array.getElem?_push, if_neg (by omega),
      Array.getD_eq_getD_getElem?]

theorem getD_modify_cases {α : Type} (xs : Array α) (f : α → α) (m n : Nat) (d : α) :
    (xs.modify m f).getD n d = xs.getD n d ∨
      m = n ∧ (xs.modify m f).getD n d = f (xs.getD n d) := by
  by_cases hm : m < xs.size
  · rw [getD_modify hm]
    split
    next hmn => exact .inr ⟨hmn, rfl⟩
    next => exact .inl rfl
  · have hsame : xs.modify m f = xs := by
      apply Array.ext_getElem?
      intro i
      rw [Array.getElem?_modify]
      split
      next hmi => rw [← hmi, Array.getElem?_eq_none (not_lt.1 hm), Option.map_none]
      next => rfl
    exact .inl (by rw [hsame])

theorem scope_modifyScope_cases (h : Heap) (r : ScopeRef) (f : Scope → Scope) (q : ScopeRef) :
    (h.modifyScope r f).scope q = h.scope q ∨
      r = q ∧ (h.modifyScope r f).scope q = f (h.scope q) :=
  (getD_modify_cases h.scopes f r.index q.index _).imp_right fun ⟨hrq, hs⟩ =>
    ⟨by cases r; cases q; exact congrArg _ hrq, hs⟩

theorem shelters_modifyScope (h : Heap) (r : ScopeRef) {f : Scope → Scope}
    (hf : ∀ s, (f s).parent = s.parent) : h.Shelters (h.modifyScope r f) := fun q hq => by
  refine ⟨by simpa [modifyScope] using hq, ?_⟩
  rcases h.scope_modifyScope_cases r f q with hs | ⟨-, hs⟩
  · rw [hs]
  · rw [hs, hf]

theorem mem_fields_set {key : String} {p : String × Value} {fs : Fields}
    (h : p ∈ Fields.set key v fs) : p.2 = v ∨ p ∈ fs := by
  induction fs with
  | nil =>
    rw [List.mem_singleton.1 h]
    exact .inl rfl
  | cons q fs ih =>
    simp only [Fields.set] at h
    split at h
    · exact (List.mem_cons.1 h).imp (fun h => by rw [h]) (List.mem_cons_of_mem _)
    · split at h
      · exact (List.mem_cons.1 h).imp (fun h => by rw [h]) id
      · rcases List.mem_cons.1 h with rfl | h
        · exact .inr List.mem_cons_self
        · exact (ih h).imp_right (List.mem_cons_of_mem _)

/-! ### Operations -/

theorem Placed.items (hh : h.Placed K) (r : ListRef) : ∀ v ∈ (h.items r).toList, v.Placed K :=
  hh.values (.list r)

theorem Placed.field (hh : h.Placed K) {r : ObjectRef} {p : String × Value} (hp : p ∈ h.fields r) :
    p.2.Placed K :=
  hh.values (.object r) _ (List.mem_map_of_mem hp)

theorem Placed.var (hh : h.Placed K) {p : String × Value} (hp : p ∈ (h.scope r).vars) :
    p.2.Placed K :=
  hh.values (.scope r) _ (List.mem_map_of_mem hp)

/-- What is not in the first heap is where it belongs. -/
theorem Placed.of_contents (hh : h.Placed K)
    (hvalues : ∀ p, ∀ v ∈ h'.contents p, v ∈ h.contents p ∨ v.Placed K)
    (hdeclared : ∀ r, ∀ f ∈ (h'.scope r).fns,
      f ∈ (h.scope r).fns ∨ K r f.2.2 (.function f.2.1)) : h'.Placed K where
  values p v hv := (hvalues p v hv).elim (hh.values p v) id
  declared r f hf := (hdeclared r f hf).elim (hh.declared r f) id

theorem Placed.modifyScope (hh : h.Placed K) {f : Scope → Scope}
    (hvars : ∀ p ∈ (f (h.scope r)).vars, p ∈ (h.scope r).vars ∨ p.2.Placed K)
    (hfns : ∀ g ∈ (f (h.scope r)).fns,
      g ∈ (h.scope r).fns ∨ K r g.2.2 (.function g.2.1)) : (h.modifyScope r f).Placed K := by
  refine hh.of_contents (fun p v hv => ?_) fun q g hg => ?_
  · cases p with
    | list | object => exact .inl hv
    | scope q =>
      obtain ⟨p, hp, rfl⟩ := List.mem_map.1 hv
      rcases h.scope_modifyScope_cases r f q with hs | ⟨rfl, hs⟩
      · exact .inl (List.mem_map_of_mem (hs ▸ hp))
      · exact (hvars p (hs ▸ hp)).imp_left List.mem_map_of_mem
  · rcases h.scope_modifyScope_cases r f q with hs | ⟨rfl, hs⟩
    · exact .inl (hs ▸ hg)
    · exact hfns g (hs ▸ hg)

theorem Placed.define (hh : h.Placed K) (hv : v.Placed K) (r : ScopeRef) (name : String) :
    (h.define r name v).Placed K :=
  hh.modifyScope (fun _ hp => (mem_setPair hp).symm.imp_right fun hp => by rwa [hp])
    fun _ hg => .inl hg

theorem shelters_define (h : Heap) (r : ScopeRef) (name : String) (v : Value) :
    h.Shelters (h.define r name v) :=
  h.shelters_modifyScope r fun _ => rfl

theorem Placed.hoist (hh : h.Placed K) {function : Function} {path : Path}
    (hf : K r path (.function function)) (name : String) :
    (h.hoist r name function path).Placed K :=
  hh.modifyScope (fun _ hp => .inl hp) fun _ hg =>
    (mem_setPair hg).symm.imp_right fun hg => by rwa [hg]

theorem shelters_hoist (h : Heap) (r : ScopeRef) (name : String) (function : Function)
    (path : Path) : h.Shelters (h.hoist r name function path) :=
  h.shelters_modifyScope r fun _ => rfl

theorem Placed.clearScope (hh : h.Placed K) (r : ScopeRef) : (h.clearScope r).Placed K :=
  hh.modifyScope nofun nofun

theorem shelters_clearScope (h : Heap) (r : ScopeRef) : h.Shelters (h.clearScope r) :=
  h.shelters_modifyScope r fun _ => rfl

theorem Placed.assign (hh : h.Placed K) (hv : v.Placed K) {name : String}
    (hassign : h.assign r name v = some h') : h.Shelters h' ∧ h'.Placed K := by
  obtain ⟨holder, -, rfl⟩ := exists_of_assign hassign
  unfold Scope.reassign
  refine ⟨h.shelters_modifyScope holder fun s => by split <;> rfl, hh.modifyScope ?_ ?_⟩
  · intro p hp
    have hset : p ∈ setPair name v (h.scope holder).vars := by split at hp <;> exact hp
    exact (mem_setPair hset).symm.imp_right fun hp => by rwa [hp]
  · intro g hg
    split at hg
    · exact .inl hg
    · exact .inl (List.mem_of_mem_filter hg)

theorem Placed.setField (hh : h.Placed K) (hv : v.Placed K) (r : ObjectRef) (key : String) :
    (h.setField r key v).Placed K := by
  refine hh.of_contents (fun p w hw => ?_) fun q g hg => .inl hg
  cases p with
  | list | scope => exact .inl hw
  | object q =>
    obtain ⟨p, hp, rfl⟩ := List.mem_map.1 hw
    have hfields : (h.setField r key v).fields q = h.fields q ∨
        r.index = q.index ∧ (h.setField r key v).fields q = Fields.set key v (h.fields q) :=
      getD_modify_cases h.objects (Fields.set key v) r.index q.index []
    rcases hfields with hs | ⟨-, hs⟩
    · exact .inl (List.mem_map_of_mem (hs ▸ hp))
    · exact (mem_fields_set (hs ▸ hp)).symm.imp List.mem_map_of_mem fun hp => by rwa [hp]

theorem Placed.setItem (hh : h.Placed K) (hv : v.Placed K) {r : ListRef} {n : Nat}
    (hset : h.setItem? r n v = some h') : h.Shelters h' ∧ h'.Placed K := by
  unfold setItem? at hset
  split at hset
  · cases hset
    refine ⟨shelters_of_eq rfl, hh.of_contents (fun p w hw => ?_) fun q g hg => .inl hg⟩
    cases p with
    | object | scope => exact .inl hw
    | list q =>
      let set : Heap := { h with lists := h.lists.modify r.index (·.setIfInBounds n v) }
      have hitems : set.items q = h.items q ∨
          r.index = q.index ∧ set.items q = (h.items q).setIfInBounds n v :=
        getD_modify_cases h.lists (·.setIfInBounds n v) r.index q.index #[]
      rcases hitems with hs | ⟨-, hs⟩
      · exact .inl (show w ∈ (h.items q).toList from hs ▸ hw)
      · have hw : w ∈ ((h.items q).setIfInBounds n v).toList := hs ▸ hw
        rw [Array.toList_setIfInBounds] at hw
        exact (List.mem_or_eq_of_mem_set hw).imp_right fun hw => by rwa [hw]
  · cases hset

theorem Placed.newList (hh : h.Placed K) {vs : List Value} (hvs : ∀ v ∈ vs, v.Placed K) :
    (h.newList vs.toArray).2.Placed K := by
  refine hh.of_contents (fun p w hw => ?_) fun q g hg => .inl hg
  cases p with
  | object | scope => exact .inl hw
  | list q =>
    have hitems : (h.newList vs.toArray).2.items q = h.items q ∨
        q.index = h.lists.size ∧ (h.newList vs.toArray).2.items q = vs.toArray :=
      getD_push_cases h.lists vs.toArray #[] q.index
    rcases hitems with hs | ⟨-, hs⟩
    · exact .inl (show w ∈ (h.items q).toList from hs ▸ hw)
    · exact .inr (hvs w (show w ∈ vs.toArray.toList from hs ▸ hw))

theorem Placed.newObject (hh : h.Placed K) {fs : Fields} (hfs : ∀ p ∈ fs, p.2.Placed K) :
    (h.newObject fs).2.Placed K := by
  refine hh.of_contents (fun p w hw => ?_) fun q g hg => .inl hg
  cases p with
  | list | scope => exact .inl hw
  | object q =>
    obtain ⟨p, hp, rfl⟩ := List.mem_map.1 hw
    have hfields : (h.newObject fs).2.fields q = h.fields q ∨
        q.index = h.objects.size ∧ (h.newObject fs).2.fields q = fs :=
      getD_push_cases h.objects fs [] q.index
    rcases hfields with hs | ⟨-, hs⟩
    · exact .inl (List.mem_map_of_mem (hs ▸ hp))
    · exact .inr (hfs p (hs ▸ hp))

theorem Placed.newScope (hh : h.Placed K) (parent : Option ScopeRef) :
    (h.newScope parent).2.Placed K := by
  have hscope : ∀ q : ScopeRef, (h.newScope parent).2.scope q = h.scope q ∨
      q.index = h.scopes.size ∧ (h.newScope parent).2.scope q = ⟨[], [], parent⟩ := fun q =>
    getD_push_cases h.scopes ⟨[], [], parent⟩ ⟨[], [], none⟩ q.index
  refine hh.of_contents (fun p w hw => ?_) fun q g hg => ?_
  · cases p with
    | list | object => exact .inl hw
    | scope q =>
      obtain ⟨p, hp, rfl⟩ := List.mem_map.1 hw
      rcases hscope q with hs | ⟨-, hs⟩
      · exact .inl (List.mem_map_of_mem (hs ▸ hp))
      · rw [hs] at hp
        cases hp
  · rcases hscope q with hs | ⟨-, hs⟩
    · exact .inl (hs ▸ hg)
    · rw [hs] at hg
      cases hg

theorem Placed.freshIdentity (hh : h.Placed K) : h.freshIdentity.2.Placed K :=
  ⟨hh.values, hh.declared⟩

theorem mem_of_lookup {α : Type} {key : String} {a : α} {pairs : List (String × α)}
    (h : pairs.lookup key = some a) : (key, a) ∈ pairs := by
  obtain ⟨before, after, rfl, -⟩ := List.lookup_eq_some_iff.1 h
  simp

theorem Placed.lookup (hh : h.Placed K) {name : String} (hv : h.lookup r name = some v) :
    v.Placed K := by
  obtain ⟨holder, -, hv⟩ := Option.bind_eq_some_iff.1 hv
  simp only [ownValue?] at hv
  split at hv
  next w hw =>
    cases hv
    exact hh.var (mem_of_lookup hw)
  next =>
    obtain ⟨⟨function, path⟩, hf, rfl⟩ := Option.map_eq_some_iff.1 hv
    exact hh.declared holder _ (mem_of_lookup hf)

theorem Placed.field_getD (hh : h.Placed K) (hv : v.Placed K) (r : ObjectRef) (key : String) :
    ((h.field? r key).getD v).Placed K := by
  cases hfield : h.field? r key with
  | none => exact hv
  | some w => exact hh.field (mem_of_lookup hfield)

theorem Placed.getD {vs : List Value} (hvs : ∀ v ∈ vs, v.Placed K) (n : Nat) :
    (vs.getD n .nil).Placed K := by
  rw [List.getD_eq_getElem?_getD]
  cases hn : vs[n]? with
  | none => trivial
  | some v => exact hvs v (List.mem_of_getElem? hn)

/-- What an operation makes of a heap: a value and a later heap, where all is where it belongs. -/
structure Yields (K : Placement) (h : Heap) (result : Value × Heap) : Prop where
  shelters : h.Shelters result.2
  heap : result.2.Placed K
  value : result.1.Placed K

theorem Placed.yields (hh : h.Placed K) (hv : v.Placed K) : h.Yields K (v, h) :=
  ⟨.refl h, hh, hv⟩

theorem Placed.property (hh : h.Placed K) {name : String} {result : Value × Heap}
    (hresult : h.property? v name = some result) : h.Yields K result := by
  cases v with
  | nil | bool | num => cases hresult
  | fn | native =>
    cases hresult
    exact hh.yields trivial
  | object r =>
    cases hresult
    exact hh.yields (hh.field_getD (v := .nil) trivial r name)
  | list | str =>
    cases hresult
    exact hh.yields (by split <;> trivial)
  | require r =>
    simp only [property?] at hresult
    split at hresult
    · cases hresult
      exact ⟨(extends_freshIdentity h).shelters, hh.freshIdentity, trivial⟩
    · cases hresult
      exact hh.yields trivial

/-- Operators give no functions. -/
theorem placed_applyBinary {op : BinaryOp} {left right : Value}
    (h : applyBinary h op left right = some v) : v.Placed K := by
  unfold applyBinary at h
  split at h <;> first | (cases h; trivial) | cases h

/-! ### Native functions -/

/-- If a native function gives a result, all of it is where it belongs. -/
def Allows (K : Placement) (h : Heap) (o : Except ArgumentError (Value × Heap)) : Prop :=
  ∀ result, o = .ok result → h.Yields K result

theorem Allows.error (e : ArgumentError) : h.Allows K (.error e) := nofun

theorem Placed.allows (hh : h.Placed K) (hv : v.Placed K) : h.Allows K (.ok (v, h)) := by
  rintro _ ⟨⟩
  exact hh.yields hv

theorem Allows.bind {α : Type} (x : Except ArgumentError α)
    {f : α → Except ArgumentError (Value × Heap)} (hf : ∀ a, h.Allows K (f a)) :
    h.Allows K (x >>= f) := by
  cases x with
  | ok a => exact hf a
  | error e => exact .error e

theorem Placed.native_join (hh : h.Placed K) (vs : List Value) :
    h.Allows K (Native.join.apply vs h) := by
  have htext : ∀ items sep, h.Allows K (.ok (Native.joinText h items sep, h)) :=
    fun _ _ => hh.allows trivial
  refine .bind (Native.listArg h vs) fun items => ?_
  generalize vs[1]? = separator
  match separator with
  | none | some .nil => exact htext items _
  | some (.bool _) | some (.num _) | some (.str _) | some (.list _) | some (.object _)
  | some (.fn _) | some (.native ..) | some (.require _) =>
    exact .bind (Native.stringArg vs 1) fun sep => htext items sep

theorem Placed.native_importDefault (hh : h.Placed K) {vs : List Value}
    (hvs : ∀ v ∈ vs, v.Placed K) : h.Allows K (Native.importDefault.apply vs h) := by
  cases vs with
  | nil => exact hh.allows trivial
  | cons v vs =>
    have hv := hvs v List.mem_cons_self
    cases v with
    | object r => exact hh.allows (hh.field_getD hv r "default")
    | nil | bool | num | str | list | fn | native | require => exact hh.allows hv

theorem Placed.native_split (hh : h.Placed K) (vs : List Value) :
    h.Allows K (Native.split.apply vs h) := by
  refine .bind _ fun text => .bind _ fun sep => ?_
  rintro _ ⟨⟩
  refine ⟨(extends_newList h _).shelters, hh.newList fun v hv => ?_, trivial⟩
  obtain ⟨part, -, rfl⟩ := List.mem_map.1 hv
  trivial

theorem Placed.native (hh : h.Placed K) (f : Native) {vs : List Value}
    (hvs : ∀ v ∈ vs, v.Placed K) : h.Allows K (f.apply vs h) := by
  cases f with
  | join => exact hh.native_join vs
  | importDefault => exact hh.native_importDefault hvs
  | split => exact hh.native_split vs
  | concat => exact hh.allows trivial
  | repeat_ =>
    refine .bind _ fun text => .bind _ fun count => ?_
    split
    · split
      · exact .bind _ fun text => hh.allows trivial
      · exact .error _
    · exact .error _
  | includes => exact .bind _ fun text => .bind _ fun part => hh.allows trivial
  | pow => exact .bind _ fun base => .bind _ fun exponent => hh.allows trivial
  | extname =>
    refine .bind _ fun text => ?_
    split <;> exact hh.allows trivial
  | min | max | pathJoin | upper | lower | trim | basename | dirname | floor | ceil | round | abs
  | sqrt => exact .bind _ fun x => hh.allows trivial

end Heap

/-! ## Data -/

section

open Heap

variable {K : Placement} {h : Heap}

theorem Heap.Placed.objectOf (hh : h.Placed K) {pairs : List (String × Value)}
    (hpairs : ∀ p ∈ pairs, p.2.Placed K) : (h.objectOf pairs).2.Placed K := by
  have hfold : ∀ fs : Fields, (∀ p ∈ fs, p.2.Placed K) →
      ∀ p ∈ pairs.foldl (fun fields p => Fields.set p.1 p.2 fields) fs, p.2.Placed K := by
    induction pairs with
    | nil => exact fun _ hfs => hfs
    | cons q pairs ih =>
      refine fun fs hfs => ih (fun p hp => hpairs p (List.mem_cons_of_mem _ hp))
        (Fields.set q.1 q.2 fs) fun p hp => ?_
      rcases mem_fields_set hp with hp | hp
      · rw [hp]
        exact hpairs q List.mem_cons_self
      · exact hfs p hp
  exact hh.newObject (hfold [] fun _ h => absurd h List.not_mem_nil)

mutual

/-- The value of a JSON text holds no function. -/
theorem Heap.Placed.valueOfJson {h : Heap} (hh : h.Placed K) : (json : Json) →
    h.Yields K (Hotload.valueOfJson json h)
  | .null | .bool _ | .number _ | .string _ => hh.yields trivial
  | .array items => by
    obtain ⟨hs, hp, hv⟩ := hh.valuesOfJson items
    exact ⟨hs.trans (extends_newList _ _).shelters, hp.newList hv, trivial⟩
  | .object members => by
    obtain ⟨hs, hp, hv⟩ := hh.pairsOfJson members
    exact ⟨hs.trans (extends_newObject _ _).shelters, hp.objectOf hv, trivial⟩

theorem Heap.Placed.valuesOfJson {h : Heap} (hh : h.Placed K) : (items : List Json) →
    h.Shelters (Hotload.valuesOfJson items h).2 ∧ (Hotload.valuesOfJson items h).2.Placed K ∧
      ∀ v ∈ (Hotload.valuesOfJson items h).1, v.Placed K
  | [] => ⟨.refl h, hh, nofun⟩
  | item :: items => by
    obtain ⟨hs, hp, hv⟩ := hh.valueOfJson item
    obtain ⟨hs', hp', hv'⟩ := hp.valuesOfJson items
    exact ⟨hs.trans hs', hp', List.forall_mem_cons.2 ⟨hv, hv'⟩⟩

theorem Heap.Placed.pairsOfJson {h : Heap} (hh : h.Placed K) : (members : List (String × Json)) →
    h.Shelters (Hotload.pairsOfJson members h).2 ∧ (Hotload.pairsOfJson members h).2.Placed K ∧
      ∀ p ∈ (Hotload.pairsOfJson members h).1, p.2.Placed K
  | [] => ⟨.refl h, hh, nofun⟩
  | (_, item) :: members => by
    obtain ⟨hs, hp, hv⟩ := hh.valueOfJson item
    obtain ⟨hs', hp', hv'⟩ := hp.pairsOfJson members
    exact ⟨hs.trans hs', hp', List.forall_mem_cons.2 ⟨hv, hv'⟩⟩

end

theorem Heap.Placed.nativeValues (hh : h.Placed K) (fs : List Native) :
    h.Shelters (Hotload.nativeValues h fs).2 ∧ (Hotload.nativeValues h fs).2.Placed K ∧
      ∀ p ∈ (Hotload.nativeValues h fs).1, p.2.Placed K := by
  induction fs generalizing h with
  | nil => exact ⟨.refl h, hh, nofun⟩
  | cons f fs ih =>
    obtain ⟨hs, hp, hv⟩ := ih hh.freshIdentity
    exact ⟨(extends_freshIdentity h).shelters.trans hs, hp, List.forall_mem_cons.2 ⟨trivial, hv⟩⟩

/-- A core module holds no script function. -/
theorem Heap.Placed.loadCoreModule (hh : h.Placed K) {name : String} {result : Value × Heap}
    (hresult : Hotload.loadCoreModule h name = some result) : h.Yields K result := by
  obtain ⟨functions, -, hresult⟩ := Option.bind_eq_some_iff.1 hresult
  obtain ⟨hs, hp, hv⟩ := hh.nativeValues functions
  cases hresult
  refine ⟨hs.trans (extends_newObject _ _).shelters, hp.objectOf fun p hpair => ?_, trivial⟩
  rcases List.mem_append.1 hpair with hpair | hpair
  · exact hv p hpair
  · unfold coreConstants at hpair
    split at hpair
    · rw [List.mem_singleton.1 hpair]
      trivial
    · cases hpair

end

end Hotload
