import Mathlib
import Hotload.Proofs.Syntax.Derivation
import Hotload.Proofs.Syntax.Mentions

/-!
# Names in a program

Which texts stand for variables in a tree, and which of them are names: texts that are read as one
identifier. A variable is a name wherever the grammar asks for an identifier. A key without a value
and a name that is imported under itself become variables as well, and for these the grammar takes
keywords, and any text that a string literal has. A variable that is written out, such as the value in
`a: a` or the local name in `a as a`, is no such copy.

* `Expr.variables`, `Stmt.variables`, `Item.variables`: the variables of a tree.
* `isCopy`: a variable that is no name and stands where its key or its exported name does.
* `ReadsBack`: a text that is read as one identifier.
* `variables_read_back`: all variables but those copies are read back.
-/

namespace Hotload.Syntax

/-! ## The variables of a tree -/

/-- A variable of a tree. -/
structure Variable where
  name : String
  /-- The variable is the key of its field or the exported name of its import, and no name. -/
  copied : Bool
deriving DecidableEq

instance (name : String) : Decidable (IsName name) := inferInstanceAs (Decidable (_ ∧ _))

/-- A variable that is spelt like its key or its exported name is a copy of it if that is no name: a
name may have been written out. -/
def isCopy (name : String) : Bool := !decide (IsName name)

/-- A variable that the grammar asks for. -/
def Variable.own (name : String) : Variable := ⟨name, false⟩

mutual

/-- The variables of an expression. -/
def Expr.variables : Expr → List Variable
  | .nil _ | .bool _ _ | .num _ _ | .str _ _ => []
  | .ident _ name => [.own name]
  | .list _ items => Expr.variablesList items
  | .object _ fields => Expr.variablesFields fields
  | .fn _ function => function.variables
  | .call _ callee args => callee.variables ++ Expr.variablesList args
  | .member _ object _ => object.variables
  | .index _ object index => object.variables ++ index.variables
  | .unary _ _ operand => operand.variables
  | .binary _ _ lhs rhs => lhs.variables ++ rhs.variables

/-- The variables of expressions. -/
def Expr.variablesList : List Expr → List Variable
  | [] => []
  | e :: es => e.variables ++ Expr.variablesList es

/-- The variables of the values of fields. -/
def Expr.variablesFields : List (String × Expr) → List Variable
  | [] => []
  | (key, value) :: fields =>
    (if isShorthand key value && isCopy key then [⟨key, true⟩] else value.variables) ++
      Expr.variablesFields fields

/-- The variables of a function: its name, its parameters and those of its body. -/
def Function.variables : Function → List Variable
  | .mk _ name params body => name.toList.map .own ++ params.map .own ++ Stmt.variablesList body

/-- The variables of a statement. -/
def Stmt.variables : Stmt → List Variable
  | .declare _ name value => .own name :: value.variables
  | .fn _ function => function.variables
  | .return_ _ none => []
  | .return_ _ (some value) => value.variables
  | .throw_ _ value => value.variables
  | .if_ _ cond thenBody none => cond.variables ++ Stmt.variablesList thenBody
  | .if_ _ cond thenBody (some elseBody) =>
    cond.variables ++ Stmt.variablesList thenBody ++ Stmt.variablesList elseBody
  | .assign _ target value => target.variables ++ value.variables
  | .expr _ value => value.variables

/-- The variables of statements. -/
def Stmt.variablesList : List Stmt → List Variable
  | [] => []
  | s :: ss => s.variables ++ Stmt.variablesList ss

end

/-- The local names of an import. -/
def ImportClause.variables : ImportClause → List Variable
  | .sideEffect => []
  | .default_ name | .namespace_ name => [.own name]
  | .named names => names.map fun n => ⟨n.2, n.2 == n.1 && isCopy n.1⟩

/-- The variables of an export: the local names, and those of what is exported. -/
def ExportForm.variables : ExportForm → List Variable
  | .default_ value => value.variables
  | .fn function _ => function.variables
  | .declare name value => .own name :: value.variables
  | .names pairs => pairs.map fun n => .own n.1

/-- The variables of an element of a program. -/
def Item.variables : Item → List Variable
  | .stmt s => s.variables
  | .import_ _ clause _ => clause.variables
  | .export_ _ form => form.variables

theorem Expr.variablesList_eq (es : List Expr) :
    Expr.variablesList es = es.flatMap Expr.variables := by
  induction es with
  | nil => rfl
  | cons e es ih => exact congrArg (e.variables ++ ·) ih

/-- The variables of the value of a field. -/
def fieldVariables (field : String × Expr) : List Variable :=
  if isShorthand field.1 field.2 && isCopy field.1 then [⟨field.1, true⟩] else field.2.variables

theorem Expr.variablesFields_eq (fields : List (String × Expr)) :
    Expr.variablesFields fields = fields.flatMap fieldVariables := by
  induction fields with
  | nil => rfl
  | cons field fields ih => exact congrArg (fieldVariables field ++ ·) ih

theorem Stmt.variablesList_eq (ss : List Stmt) :
    Stmt.variablesList ss = ss.flatMap Stmt.variables := by
  induction ss with
  | nil => rfl
  | cons s ss ih => exact congrArg (s.variables ++ ·) ih

/-! ## Texts that are read as one identifier -/

/-- The only token of the text is an identifier, and it is the whole text. -/
def ReadsBack (name : String) : Prop :=
  ∃ q, tokenize name.toList = .ok [⟨.ident name, .start⟩, ⟨.eof, q⟩]

/-- The texts that are read as one identifier are the names. -/
theorem readsBack_iff {name : String} : ReadsBack name ↔ IsName name := by
  constructor
  · rintro ⟨q, h⟩
    exact lexemes_lexical h ⟨.ident name, .start⟩ List.mem_cons_self
  · intro h
    have hend : EndsWord [] := fun c hc => by cases hc
    have hword := leads_word h.1 hend .start
    rw [List.append_nil, String.ofList_toList, Token.ofWord, h.2, lexemes_nil] at hword
    exact ⟨_, hword⟩

/-! ## Derived trees -/

/-- The variables that the grammar asks for are names. -/
def Named (vs : List Variable) : Prop := ∀ v ∈ vs, v.copied = false → IsName v.name

theorem named_nil : Named [] := fun _ hv => absurd hv List.not_mem_nil

theorem named_own {name : String} (h : IsName name) : Named [.own name] := by
  intro v hv _
  rw [List.mem_singleton.mp hv]
  exact h

theorem named_copy (name : String) : Named [⟨name, true⟩] := by
  intro v hv hcopied
  rw [List.mem_singleton.mp hv] at hcopied
  cases hcopied

theorem isCopy_iff {name : String} : isCopy name = true ↔ ¬ IsName name := by simp [isCopy]

/-- The key of a value that is spelt like it. -/
theorem isName_of_shorthand {key : String} {value : Expr} (h : isShorthand key value = true)
    (hvalue : Named value.variables) : IsName key := by
  cases value with
  | ident pos name =>
    obtain rfl : name = key := beq_iff_eq.mp h
    exact hvalue (.own name) List.mem_cons_self rfl
  | _ => cases h

theorem named_append {vs ws : List Variable} (hv : Named vs) (hw : Named ws) : Named (vs ++ ws) :=
  List.forall_mem_append.mpr ⟨hv, hw⟩

theorem named_map {names : List String} (h : ∀ n ∈ names, IsName n) :
    Named (names.map .own) := by
  intro v hv _
  obtain ⟨name, hname, rfl⟩ := List.mem_map.mp hv
  exact h name hname

theorem named_flatMap {α : Type} {f : α → List Variable} {xs : List α}
    (h : ∀ x ∈ xs, Named (f x)) : Named (xs.flatMap f) := by
  intro v hv
  obtain ⟨x, hx, hv⟩ := List.mem_flatMap.mp hv
  exact h x hx v hv

namespace Derived

/-- In the trees of the level the variables that the grammar asks for are names. -/
structure HasNames (level : Derived) : Prop where
  block : ∀ body, level.block body → Named (Stmt.variablesList body)
  conditional : ∀ s, level.conditional s → Named s.variables
  operand : ∀ e, level.operand e → Named e.variables

variable {level : Derived}

theorem HasNames.expression (h : level.HasNames) {e : Expr} (he : level.Expression e) :
    Named e.variables :=
  he.all h.operand fun _ _ _ _ hlhs hrhs => named_append hlhs hrhs

theorem HasNames.expressions (h : level.HasNames) {es : List Expr}
    (hes : ∀ e ∈ es, level.Expression e) : Named (Expr.variablesList es) := by
  rw [Expr.variablesList_eq]
  exact named_flatMap fun e he => h.expression (hes e he)

theorem HasNames.function (h : level.HasNames) {f : Function} (hf : level.IsFunction f) :
    Named f.variables := by
  cases f with
  | mk pos name params body =>
    refine named_append (named_append (named_map fun n hn => ?_) (named_map hf.params))
      (h.block body hf.body)
    exact hf.name n (Option.mem_toList.mp hn)

theorem HasNames.field (h : level.HasNames) {field : String × Expr} (hf : level.Field field) :
    Named (fieldVariables field) := by
  rw [fieldVariables]
  cases hf with
  | @value key e he =>
    have hvalue := h.expression he
    -- A value that is written out is no copy of its key.
    split
    · rename_i hcopy
      rw [Bool.and_eq_true] at hcopy
      exact absurd (isName_of_shorthand hcopy.1 hvalue) (isCopy_iff.mp hcopy.2)
    · exact hvalue
  | alone pos key =>
    have hshort : isShorthand key (.ident pos key) = true := beq_self_eq_true key
    rw [hshort, Bool.true_and]
    split
    · exact named_copy key
    · rename_i hcopy
      exact named_own (by_contra fun hname => hcopy (isCopy_iff.mpr hname))

theorem HasNames.primary (h : level.HasNames) {e : Expr} (he : level.Primary e) :
    Named e.variables := by
  cases he with
  | nil | bool | num | str => exact named_nil
  | ident _ hname => exact named_own hname
  | fn _ hf => exact h.function hf
  | list _ hitems => exact h.expressions hitems
  | object _ hfields =>
    change Named (Expr.variablesFields _)
    rw [Expr.variablesFields_eq]
    exact named_flatMap fun field hfield => h.field (hfields field hfield)
  | group he => exact h.expression he

theorem HasNames.accesses (h : level.HasNames) {e : Expr} (he : level.Accesses e) :
    Named e.variables := by
  induction he with
  | primary he => exact h.primary he
  | call _ _ hargs ih => exact named_append ih (h.expressions hargs)
  | member _ _ _ ih => exact ih
  | index _ _ hindex ih => exact named_append ih (h.expression hindex)

theorem HasNames.statement (h : level.HasNames) {s : Stmt} (hs : level.Statement s) :
    Named s.variables := by
  cases hs with
  | declare _ hname hvalue => exact named_append (named_own hname) (h.expression hvalue)
  | fn _ hf => exact h.function hf
  | returnNothing => exact named_nil
  | return_ _ hvalue | throw_ _ hvalue | expr _ hvalue => exact h.expression hvalue
  | conditional hs => exact h.conditional s hs
  | assign _ htarget hvalue => exact named_append (h.expression htarget) (h.expression hvalue)

/-- The trees of the next level have names if those of this level do. -/
theorem HasNames.outer (h : level.HasNames) : level.outer.HasNames where
  block body hbody := by
    rw [Stmt.variablesList_eq]
    exact named_flatMap fun s hs => h.statement (hbody s hs)
  conditional s hs := by
    cases hs with
    | noElse _ hcond hthen => exact named_append (h.expression hcond) (h.block _ hthen)
    | elseBlock _ hcond hthen helse =>
      exact named_append (named_append (h.expression hcond) (h.block _ hthen)) (h.block _ helse)
    | elseIf _ hcond hthen hnested =>
      exact named_append (named_append (h.expression hcond) (h.block _ hthen))
        (named_append (h.conditional _ hnested) named_nil)
  operand e he := by
    cases he with
    | unary pos op he =>
      have hoperand := h.operand _ he
      exact hoperand
    | accesses he => exact h.accesses he

theorem hasNames_ofDepth (depth : Nat) : (ofDepth depth).HasNames := by
  induction depth with
  | zero => exact ⟨fun _ h => h.elim, fun _ h => h.elim, fun _ h => h.elim⟩
  | succ depth ih => exact ih.outer

theorem named_clause {clause : ImportClause} (h : IsClause clause) : Named clause.variables := by
  cases clause with
  | sideEffect => exact named_nil
  | default_ name | namespace_ name => exact named_own h
  | named names =>
    intro v hv hcopied
    obtain ⟨n, hn, rfl⟩ := List.mem_map.mp hv
    rcases h n hn with heq | hname
    · simp only [heq, beq_self_eq_true, Bool.true_and] at hcopied ⊢
      exact by_contra fun hname => absurd (isCopy_iff.mpr hname) (by simp [hcopied])
    · exact hname

theorem HasNames.form (h : level.HasNames) {form : ExportForm} (hform : level.IsForm form) :
    Named form.variables := by
  cases hform with
  | default_ hvalue => exact h.expression hvalue
  | fn _ hf => exact h.function hf
  | declare hname hvalue => exact named_append (named_own hname) (h.expression hvalue)
  | names hpairs =>
    intro v hv _
    obtain ⟨n, hn, rfl⟩ := List.mem_map.mp hv
    exact hpairs n hn

theorem HasNames.item (h : level.HasNames) {item : Item} (hitem : level.IsItem item) :
    Named item.variables := by
  cases hitem with
  | stmt hs => exact h.statement hs
  | import_ _ _ hclause => exact named_clause hclause
  | export_ _ hform => exact h.form hform

end Derived

/-! ## Programs -/

/-- In every program of either dialect each variable is read back as one identifier, unless it is the key
of a field without a value or a name that is imported under itself, and this is a keyword or a text that
is no word. -/
theorem variables_read_back (source : List Char) :
    (∀ ss, parseCore source = .ok ss →
      ∀ s ∈ ss, ∀ v ∈ s.variables, v.copied = false → ReadsBack v.name) ∧
    (∀ items, parseSurface source = .ok items →
      ∀ item ∈ items, ∀ v ∈ item.variables, v.copied = false → ReadsBack v.name) := by
  have hnames := Derived.hasNames_ofDepth maxNesting
  constructor
  · intro ss h s hs v hv hcopied
    exact readsBack_iff.mpr (hnames.statement (derived_of_parseCore h s hs) v hv hcopied)
  · intro items h item hitem v hv hcopied
    exact readsBack_iff.mpr (hnames.item (derived_of_parseSurface h item hitem) v hv hcopied)

/-- Some element of the surface program has this variable. -/
def hasVariable (v : Variable) (source : String) : Bool :=
  (parseSurface source.toList).toOption.any fun items => items.any fun item => v ∈ item.variables

theorem exists_variable (v : Variable) (source : String) (h : hasVariable v source = true) :
    ∃ items, parseSurface source.toList = .ok items ∧ ∃ item ∈ items, v ∈ item.variables := by
  unfold hasVariable at h
  cases hsource : parseSurface source.toList with
  | error e => simp [hsource, Except.toOption] at h
  | ok items =>
    simp only [hsource, Except.toOption, Option.any_some, List.any_eq_true,
      decide_eq_true_eq] at h
    exact ⟨items, rfl, h⟩

theorem variables_read_back_parameter : ∃ items,
    parseSurface "fn f(x) \x7b return \x7b x, \"y z\" \x7d; \x7d".toList = .ok items ∧
      ∃ item ∈ items, .own "x" ∈ item.variables ∧ ReadsBack "x" := by
  obtain ⟨items, hsource, item, hitem, hv⟩ := exists_variable (.own "x")
    "fn f(x) \x7b return \x7b x, \"y z\" \x7d; \x7d" (by decide +kernel)
  exact ⟨items, hsource, item, hitem, hv,
    (variables_read_back _).2 items hsource item hitem _ hv rfl⟩

/-- A keyword that is copied becomes a variable, and so does a text that is no word. -/
theorem keywords_and_texts_are_copied :
    (∃ items, parseSurface "let o = \x7b default \x7d;".toList = .ok items ∧
      ∃ item ∈ items, ∃ v ∈ item.variables, v.name = "default" ∧ ¬ ReadsBack v.name) ∧
    (∃ items, parseSurface "let o = \x7b \"a b\" \x7d;".toList = .ok items ∧
      ∃ item ∈ items, ∃ v ∈ item.variables, v.name = "a b" ∧ ¬ ReadsBack v.name) := by
  have hkeyword : ¬ IsName "default" := fun h => absurd h.2 (by decide)
  have htext : ¬ IsName "a b" := fun h => absurd h.1 (by decide)
  obtain ⟨items, hsource, item, hitem, hv⟩ :=
    exists_variable ⟨"default", true⟩ "let o = \x7b default \x7d;" (by decide +kernel)
  obtain ⟨items', hsource', item', hitem', hv'⟩ :=
    exists_variable ⟨"a b", true⟩ "let o = \x7b \"a b\" \x7d;" (by decide +kernel)
  exact ⟨⟨items, hsource, item, hitem, _, hv, rfl, fun h => hkeyword (readsBack_iff.mp h)⟩,
    ⟨items', hsource', item', hitem', _, hv', rfl, fun h => htext (readsBack_iff.mp h)⟩⟩

end Hotload.Syntax
