import Mathlib
import Hotload.Proofs.Syntax.Annotations
import Hotload.Proofs.Syntax.Variables

/-!
# Variables that hold modules

An import by names needs a variable for its module. These variables are numbered, so they differ from
each other and from the names that lowering itself takes for granted. Nothing keeps them apart from the
variables of the program, though.

* `temporaries`: the variables that the imports of a program need.
* `nodup_temporaries`: they differ from each other.
* `Separate`: a program that has none of these variables.
* `Separate.lowered`: its other elements are lowered to statements that have none either.
* `exists_of_erase_import`: the statements of an import, wherever they stand.
-/

namespace Hotload.Syntax

/-- The variables that hold the modules of the imports by names, in order. -/
def temporaries (items : List Item) : List String :=
  (List.range (items.countP Item.takesTemp)).map importTemp

theorem importTemp_injective : Function.Injective importTemp := fun _ _ h =>
  Nat.repr_inj.1 ((String.append_right_inj "__import").1 h)

theorem nodup_temporaries (items : List Item) : (temporaries items).Nodup :=
  List.nodup_range.map importTemp_injective

/-- The names that lowering takes for granted. -/
def givenNames : List String := ["require", "exports", "__importDefault"]

/-- A number is no `Default`. -/
theorem importTemp_not_given (n : Nat) : importTemp n ∉ givenNames := by
  have hdefault : importTemp n ≠ "__importDefault" := fun h => by
    have hrepr : n.repr = "Default" :=
      (String.append_right_inj "__import").1 (h.trans (by decide : _ = "__import" ++ "Default"))
    have hdigits : Nat.toDigits 10 n = "Default".toList := by
      rw [← hrepr]
      exact String.toList_ofList.symm
    have hdigit : 'D'.isDigit = true :=
      Nat.isDigit_of_mem_toDigits (b := 10) (n := n) (by decide) (by decide) (by
        rw [hdigits]
        decide)
    exact absurd hdigit (by decide)
  have hhead : (importTemp n).toList.head? = some '_' := by
    simp [importTemp]
  intro h
  rcases List.mem_cons.1 h with hrequire | h
  · rw [hrequire] at hhead
    exact absurd hhead (by decide)
  rcases List.mem_cons.1 h with hexports | h
  · rw [hexports] at hhead
    exact absurd hhead (by decide)
  · exact hdefault (List.mem_singleton.1 h)

/-- A variable with the name of one of these variables, or a name that is taken for granted. -/
def Accounted (vs : List Variable) (v : Variable) : Prop :=
  (∃ w ∈ vs, w.name = v.name) ∨ v.name ∈ givenNames

theorem accounted_of_mem {vs : List Variable} {v : Variable} (h : v ∈ vs) : Accounted vs v :=
  .inl ⟨v, h, rfl⟩

theorem accounted_given {vs : List Variable} {name : String} (h : name ∈ givenNames) :
    Accounted vs (.own name) :=
  .inr h

theorem accounted_requireCall {vs : List Variable} {pos : Pos} {source : String} {v : Variable}
    (hv : v ∈ (requireCall pos source).variables) : Accounted vs v := by
  have hrequire : v = .own "require" := by
    simpa [requireCall, Expr.variables, Expr.variablesList] using hv
  rw [hrequire]
  exact accounted_given (by simp [givenNames])

theorem accounted_exportAssignment {vs : List Variable} {pos : Pos} {exported : String} {value : Expr}
    {v : Variable} (hvalue : ∀ w ∈ value.variables, Accounted vs w)
    (hv : v ∈ (exportAssignment pos exported value).variables) : Accounted vs v := by
  have hcases : v = .own "exports" ∨ v ∈ value.variables := by
    simpa [exportAssignment, Stmt.variables, Expr.variables] using hv
  rcases hcases with rfl | hv
  · exact accounted_given (by simp [givenNames])
  · exact hvalue v hv

/-- An element that needs no such variable is lowered to statements over its own variables and the
names that are taken for granted. -/
theorem accounted_lower {item : Item} (htemp : item.takesTemp = false) (temps : Nat) {s : Stmt}
    (hs : s ∈ item.lower temps) {v : Variable} (hv : v ∈ s.variables) :
    Accounted item.variables v := by
  cases item with
  | stmt s' =>
    rw [List.mem_singleton.1 hs] at hv
    exact accounted_of_mem hv
  | import_ pos clause source =>
    cases clause with
    | sideEffect =>
      rw [List.mem_singleton.1 hs] at hv
      exact accounted_requireCall hv
    | default_ name =>
      rw [List.mem_singleton.1 hs] at hv
      rcases List.mem_cons.1 hv with rfl | hv
      · exact accounted_of_mem List.mem_cons_self
      rcases List.mem_append.1 hv with hv | hv
      · rw [List.mem_singleton.1 hv]
        exact accounted_given (by simp [givenNames])
      · rw [Expr.variablesList, Expr.variablesList, List.append_nil] at hv
        exact accounted_requireCall hv
    | namespace_ name =>
      rw [List.mem_singleton.1 hs] at hv
      rcases List.mem_cons.1 hv with rfl | hv
      · exact accounted_of_mem List.mem_cons_self
      · exact accounted_requireCall hv
    | named names => cases htemp
  | export_ pos form =>
    have hlocal {name : String} (hname : .own name ∈ (Item.export_ pos form).variables) :
        ∀ w ∈ (Expr.ident pos name).variables, Accounted (Item.export_ pos form).variables w :=
      fun w hw => by
        rw [List.mem_singleton.1 hw]
        exact accounted_of_mem hname
    cases form with
    | default_ value =>
      rw [List.mem_singleton.1 hs] at hv
      exact accounted_exportAssignment (fun w hw => accounted_of_mem hw) hv
    | fn function isDefault =>
      simp only [Item.lower, lowerExport] at hs
      cases hname : function.name with
      | none =>
        rw [hname] at hs
        rw [List.mem_singleton.1 hs] at hv
        have hown : ∀ w ∈ (Expr.fn pos function).variables,
            Accounted (Item.export_ pos (.fn function isDefault)).variables w :=
          fun w hw => accounted_of_mem hw
        exact accounted_exportAssignment hown hv
      | some name =>
        rw [hname] at hs
        rcases List.mem_cons.1 hs with rfl | hs
        · exact accounted_of_mem hv
        · rw [List.mem_singleton.1 hs] at hv
          refine accounted_exportAssignment (hlocal ?_) hv
          cases function
          cases hname
          simp [Item.variables, ExportForm.variables, Function.variables]
    | declare name value =>
      rcases List.mem_cons.1 hs with rfl | hs
      · exact accounted_of_mem hv
      · rw [List.mem_singleton.1 hs] at hv
        exact accounted_exportAssignment (hlocal List.mem_cons_self) hv
    | names names =>
      obtain ⟨n, hn, rfl⟩ := List.mem_map.1 hs
      exact accounted_exportAssignment (hlocal (List.mem_map.2 ⟨n, hn, rfl⟩)) hv

/-- No variable of the program is one that holds a module. -/
def Separate (items : List Item) : Prop :=
  ∀ item ∈ items, ∀ v ∈ item.variables, v.name ∉ temporaries items

instance (items : List Item) : Decidable (Separate items) :=
  inferInstanceAs (Decidable (∀ item ∈ items, ∀ v ∈ item.variables, v.name ∉ temporaries items))

theorem importTemp_of_mem {items : List Item} {name : String} (h : name ∈ temporaries items) :
    ∃ n, name = importTemp n := by
  obtain ⟨n, -, rfl⟩ := List.mem_map.1 h
  exact ⟨n, rfl⟩

theorem Separate.lowered {items : List Item} (h : Separate items) {item : Item} (hitem : item ∈ items)
    (htemp : item.takesTemp = false) (temps : Nat) {s : Stmt} (hs : s ∈ item.lower temps)
    {v : Variable} (hv : v ∈ s.variables) : v.name ∉ temporaries items := by
  rcases accounted_lower htemp temps hs hv with ⟨w, hw, hname⟩ | hgiven
  · rw [← hname]
    exact h item hitem w hw
  · intro hmem
    obtain ⟨n, hn⟩ := importTemp_of_mem hmem
    exact importTemp_not_given n (hn ▸ hgiven)

/-! ## Statements of imports -/

theorem exists_of_erase_declare {s : Stmt} {name : String} {value : Expr}
    (h : s.erase = .declare .start name value) :
    ∃ pos value', s = .declare pos name value' ∧ value'.erase = value := by
  cases s with
  | declare pos name' value' =>
    rw [Stmt.erase] at h
    cases h
    exact ⟨pos, value', rfl, rfl⟩
  | if_ pos cond thenBody elseBody => cases elseBody <;> cases h
  | return_ pos value => cases value <;> cases h
  | fn | throw_ | assign | expr => cases h

theorem exists_of_erase_call {e callee : Expr} {args : List Expr}
    (h : e.erase = .call .start callee args) : ∃ pos callee' args', e = .call pos callee' args' := by
  cases e with
  | call pos callee' args' => exact ⟨pos, callee', args', rfl⟩
  | nil | bool | num | str | ident | list | object | fn | member | index | unary | binary => cases h

theorem exists_of_erase_ident {e : Expr} {name : String} (h : e.erase = .ident .start name) :
    ∃ pos, e = .ident pos name := by
  cases e with
  | ident pos name' =>
    cases h
    exact ⟨pos, rfl⟩
  | nil | bool | num | str | list | object | fn | call | member | index | unary | binary => cases h

theorem exists_of_erase_member {e object : Expr} {name : String}
    (h : e.erase = .member .start object name) :
    ∃ pos object', e = .member pos object' name ∧ object'.erase = object := by
  cases e with
  | member pos object' name' =>
    rw [Expr.erase] at h
    cases h
    exact ⟨pos, object', rfl, rfl⟩
  | nil | bool | num | str | ident | list | object | fn | call | index | unary | binary => cases h

/-- A local variable gets a property of the module that a variable holds. -/
def Binding (temp : String) (imported name : String) (s : Stmt) : Prop :=
  ∃ pos at_ p, s = .declare pos name (.member at_ (.ident p temp) imported)

/-- Wherever its statements stand, an import by names first declares the variable for its module, by
a call, and then the local variables in order. -/
theorem exists_of_erase_import {stmts : List Stmt} {pos : Pos} {temp source : String}
    {names : List (String × String)}
    (h : Stmt.eraseList stmts = Stmt.eraseList (lowerImport pos temp source (.named names))) :
    ∃ pos p callee args bindings,
      stmts = .declare pos temp (.call p callee args) :: bindings ∧
        List.Forall₂ (fun n => Binding temp n.1 n.2) names bindings := by
  rw [Stmt.eraseList_eq_map, Stmt.eraseList_eq_map, lowerImport, List.map_cons] at h
  obtain ⟨first, bindings, rfl, hfirst, hbindings⟩ := List.map_eq_cons_iff.1 h
  obtain ⟨pos', request, rfl, hrequest⟩ := exists_of_erase_declare hfirst
  obtain ⟨p, callee, args, rfl⟩ := exists_of_erase_call hrequest
  refine ⟨pos', p, callee, args, bindings, rfl, ?_⟩
  clear h
  induction names generalizing bindings with
  | nil =>
    rw [List.map_eq_nil_iff.1 hbindings]
    exact .nil
  | cons n names ih =>
    obtain ⟨s, rest, rfl, hs, hrest⟩ := List.map_eq_cons_iff.1 hbindings
    obtain ⟨pos, value, rfl, hvalue⟩ := exists_of_erase_declare hs
    obtain ⟨at_, object, rfl, hobject⟩ := exists_of_erase_member hvalue
    obtain ⟨p, rfl⟩ := exists_of_erase_ident hobject
    exact .cons ⟨pos, at_, p, rfl⟩ (ih rest hrest)

end Hotload.Syntax
