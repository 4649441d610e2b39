import Mathlib
import Hotload.Proofs.Syntax.Precedence

/-!
# Derivations

Which trees the grammar gives, level by level. A level of nesting has the trees of its blocks, its
`if` statements and its operands; what stands between two levels is derived from the inner one. So
a tree comes with the number of levels that it needs, and with the names that it may have.

* `Derived`: the trees of a level.
* `Derived.outer`, `Derived.ofDepth`: the trees one level further out, and with some levels left.
* `derives_ofDepth`: the readers with some levels left give the trees with these levels.
* `derived_of_parseCore`, `derived_of_parseSurface`: what the trees of programs are.
-/

namespace Hotload.Syntax

/-! ## The trees of a level -/

/-- The trees of the constructs that count as a level of nesting. -/
structure Derived where
  block : List Stmt → Prop
  conditional : Stmt → Prop
  operand : Expr → Prop

namespace Derived

variable (inner : Derived)

/-- Operands with operators between them. -/
def Expression (e : Expr) : Prop := Chained inner.operand 0 e

/-- A function: its body is a block. -/
structure IsFunction (f : Function) : Prop where
  name : ∀ n, f.name = some n → IsName n
  params : ∀ p ∈ f.params, IsName p
  body : inner.block f.body

/-- A field of an object literal. One without a value has the variable of its key, whatever text the
key is. -/
inductive Field : String × Expr → Prop where
  | value {key : String} {e : Expr} (h : inner.Expression e) : Field (key, e)
  | alone (pos : Pos) (key : String) : Field (key, .ident pos key)

/-- What stands in front of calls and accesses. Parentheses leave nothing in the tree. -/
inductive Primary : Expr → Prop where
  | nil (pos : Pos) : Primary (.nil pos)
  | bool (pos : Pos) (value : Bool) : Primary (.bool pos value)
  | num (pos : Pos) (value : Float) : Primary (.num pos value)
  | str (pos : Pos) (value : String) : Primary (.str pos value)
  | ident (pos : Pos) {name : String} (h : IsName name) : Primary (.ident pos name)
  | fn (pos : Pos) {f : Function} (h : inner.IsFunction f) : Primary (.fn pos f)
  | list (pos : Pos) {items : List Expr} (h : ∀ e ∈ items, inner.Expression e) :
    Primary (.list pos items)
  | object (pos : Pos) {fields : List (String × Expr)} (h : ∀ field ∈ fields, inner.Field field) :
    Primary (.object pos fields)
  | group {e : Expr} (h : inner.Expression e) : Primary e

/-- Calls and accesses behind a primary expression. -/
inductive Accesses : Expr → Prop where
  | primary {e : Expr} (h : inner.Primary e) : Accesses e
  | call (pos : Pos) {callee : Expr} {args : List Expr} (hcallee : Accesses callee)
    (hargs : ∀ e ∈ args, inner.Expression e) : Accesses (.call pos callee args)
  | member (pos : Pos) {object : Expr} (name : String) (hobject : Accesses object) :
    Accesses (.member pos object name)
  | index (pos : Pos) {object index : Expr} (hobject : Accesses object)
    (hindex : inner.Expression index) : Accesses (.index pos object index)

/-- An operand of the next level further out. -/
inductive Operand : Expr → Prop where
  | unary (pos : Pos) (op : UnaryOp) {e : Expr} (h : inner.operand e) : Operand (.unary pos op e)
  | accesses {e : Expr} (h : inner.Accesses e) : Operand e

/-- A statement of a block of the next level further out. -/
inductive Statement : Stmt → Prop where
  | declare (pos : Pos) {name : String} {value : Expr} (hname : IsName name)
    (hvalue : inner.Expression value) : Statement (.declare pos name value)
  | fn (pos : Pos) {f : Function} (h : inner.IsFunction f) : Statement (.fn pos f)
  | returnNothing (pos : Pos) : Statement (.return_ pos none)
  | return_ (pos : Pos) {value : Expr} (h : inner.Expression value) :
    Statement (.return_ pos (some value))
  | throw_ (pos : Pos) {value : Expr} (h : inner.Expression value) : Statement (.throw_ pos value)
  | conditional {s : Stmt} (h : inner.conditional s) : Statement s
  | assign (pos : Pos) {target value : Expr} (htarget : inner.Expression target)
    (hvalue : inner.Expression value) : Statement (.assign pos target value)
  | expr (pos : Pos) {value : Expr} (h : inner.Expression value) : Statement (.expr pos value)

/-- An `if` statement of the next level further out. -/
inductive Conditional : Stmt → Prop where
  | noElse (pos : Pos) {cond : Expr} {thenBody : List Stmt} (hcond : inner.Expression cond)
    (hthen : inner.block thenBody) : Conditional (.if_ pos cond thenBody none)
  | elseBlock (pos : Pos) {cond : Expr} {thenBody elseBody : List Stmt}
    (hcond : inner.Expression cond) (hthen : inner.block thenBody) (helse : inner.block elseBody) :
    Conditional (.if_ pos cond thenBody (some elseBody))
  | elseIf (pos : Pos) {cond : Expr} {thenBody : List Stmt} {nested : Stmt}
    (hcond : inner.Expression cond) (hthen : inner.block thenBody)
    (hnested : inner.conditional nested) :
    Conditional (.if_ pos cond thenBody (some [nested]))

/-- The trees of the next level further out. -/
def outer : Derived where
  block body := ∀ s ∈ body, inner.Statement s
  conditional := inner.Conditional
  operand := inner.Operand

/-- The trees of a level when some levels are left. -/
def ofDepth : Nat → Derived
  | 0 => ⟨fun _ => False, fun _ => False, fun _ => False⟩
  | depth + 1 => (ofDepth depth).outer

/-- The local names of an import: of those in braces a name without another may be a keyword. -/
def IsClause : ImportClause → Prop
  | .sideEffect => True
  | .default_ name | .namespace_ name => IsName name
  | .named names => ∀ n ∈ names, n.2 = n.1 ∨ IsName n.2

/-- What an export declaration exports. -/
inductive IsForm : ExportForm → Prop where
  | default_ {value : Expr} (h : inner.Expression value) : IsForm (.default_ value)
  | fn {f : Function} (isDefault : Bool) (h : inner.IsFunction f) : IsForm (.fn f isDefault)
  | declare {name : String} {value : Expr} (hname : IsName name)
    (hvalue : inner.Expression value) : IsForm (.declare name value)
  | names {pairs : List (String × String)} (h : ∀ n ∈ pairs, IsName n.1) : IsForm (.names pairs)

/-- An element of a program. -/
inductive IsItem : Item → Prop where
  | stmt {s : Stmt} (h : inner.Statement s) : IsItem (.stmt s)
  | import_ (pos : Pos) {clause : ImportClause} (source : String) (h : IsClause clause) :
    IsItem (.import_ pos clause source)
  | export_ (pos : Pos) {form : ExportForm} (h : inner.IsForm form) : IsItem (.export_ pos form)

end Derived

/-! ## What the readers give -/

open Reader

variable {α : Type} {P : α → Prop} {c : Cursor}

theorem TakesAt.pass {f : Unit → Reader α}
    (h : TakesAt c.advance 0 (fun a => c.Lexical → P a) (f ())) :
    TakesAt c 0 P (Reader.advance >>= f) := by
  intro a c' hr
  have htook := Cursor.took_advance_zero c
  obtain ⟨ht, hp⟩ := h a c' hr
  exact ⟨htook.trans ht, fun hc => hp (htook.lexical hc) hc⟩

namespace Nested

/-- The readers give the trees of a level. -/
structure Derives (inner : Nested) (level : Derived) : Prop where
  builds : inner.Builds
  block : ∀ c, TakesAt c 0 level.block inner.block
  conditional : ∀ c, TakesAt c 0 level.conditional inner.conditional
  operand : ∀ c, TakesAt c 0 level.operand inner.operand

variable {inner : Nested} {level : Derived}

theorem Derives.expression (h : inner.Derives level) (c : Cursor) :
    TakesAt c 0 level.Expression inner.expression := by
  have hpick (c : Cursor) :
      TakesAt c 0 (Pick.All fun r => level.operand r.2) (chainPick inner) := by
    refine .token ?_
    split
    · exact .pure fun _ => trivial
    · exact .pass ((h.operand _).bind fun rhs c' => .pure fun _ hrhs _ => hrhs)
  rw [expression_eq h.builds.shrinks]
  refine (h.operand c).bind fun first c' => ?_
  refine (takesAt_collect (advances_chainPick h.builds.shrinks) hpick c').bind fun rest c'' => ?_
  exact .pure fun _ hrest hfirst => chained_assemble hfirst hrest

theorem Derives.arguments (h : inner.Derives level) (close : Mark) (c : Cursor) :
    TakesAt c 0 (fun args => ∀ e ∈ args, level.Expression e) (inner.arguments close) := by
  refine (takesAt_commaList h.expression c).bind fun items c' => ?_
  refine (TakesAt.expect ?_).mono (Nat.zero_le 1)
  exact .pure fun _ _ hitems => hitems

theorem Derives.function (h : inner.Derives level) (c : Cursor) :
    TakesAt c 0 level.IsFunction inner.function := by
  have htail (pos : Pos) (name : Option String) (c : Cursor) :
      TakesAt c 0 (fun f : Function => (∀ n, name = some n → IsName n) → level.IsFunction f) (do
        expect .lparen
        let params ← commaList .rparen parameter
        expect .rparen
        skipAnnotation
        let body ← inner.block
        return .mk pos name params body) := by
    refine (TakesAt.expect ?_).mono (Nat.zero_le 1)
    refine (takesAt_commaList takesAt_parameter _).bind fun params c' => ?_
    refine (TakesAt.expect ?_).mono (Nat.zero_le 1)
    refine (takesAt_skipped _).bind fun _ c'' => ?_
    refine (h.block _).bind fun body c₃ => ?_
    exact .pure fun _ hbody _ _ hparams _ hname => ⟨hname, hparams, hbody⟩
  refine .here ((TakesAt.expectKeyword (.token ?_)).mono (Nat.zero_le 1))
  split
  · rename_i name ht
    refine .pass ((htail _ (some name) _).imp fun f _ hf hc _ => hf ?_)
    rintro n ⟨⟩
    have := hc.token
    rwa [ht] at this
  · exact (htail _ none _).imp fun f _ hf _ => hf fun n hn => by cases hn

theorem Derives.field (h : inner.Derives level) (c : Cursor) :
    TakesAt c 0 level.Field inner.field := by
  have htail (pos : Pos) (key : String) (c : Cursor) : TakesAt c 0 level.Field (do
      if ← eat .colon then
        return (key, ← inner.expression)
      else
        return (key, .ident pos key)) := by
    refine .eat (fun _ => ?_) (fun _ => .pure fun _ => .alone pos key)
    exact (h.expression _).bind fun value c' => .pure fun _ hvalue _ => .value hvalue
  refine .here (.token ?_)
  split
  · exact .pass ((htail _ _ _).imp fun _ _ hf _ => hf)
  · refine ((takesAt_propertyName c).mono (Nat.zero_le 1)).bind fun key c' => ?_
    exact (htail _ _ _).imp fun _ _ hf _ => hf

theorem Derives.primary (h : inner.Derives level) (c : Cursor) :
    TakesAt c 0 level.Primary inner.primary := by
  refine .here (.token ?_)
  split
  · exact .pass (.pure fun _ _ => .num _ _)
  · exact .pass (.pure fun _ _ => .str _ _)
  · rename_i name ht
    refine .pass (.pure fun _ hc => .ident _ ?_)
    have := hc.token
    rwa [ht] at this
  · exact .pass (.pure fun _ _ => .bool _ true)
  · exact .pass (.pure fun _ _ => .bool _ false)
  · exact .pass (.pure fun _ _ => .nil _)
  · exact (h.function c).bind fun f c' => .pure fun _ hf => .fn _ hf
  · refine .pass ((h.expression _).bind fun e c' => ?_)
    refine (TakesAt.expect ?_).mono (Nat.zero_le 1)
    exact .pure fun _ _ he _ => .group he
  · exact .pass ((h.arguments .rbracket _).bind fun items c' => .pure fun _ hitems _ =>
      .list _ hitems)
  · refine .pass ((takesAt_commaList h.field _).bind fun fields c' => ?_)
    refine (TakesAt.expect ?_).mono (Nat.zero_le 1)
    exact .pure fun _ _ hfields _ => .object _ hfields
  · exact .unexpected _

theorem Derives.accessRound (h : inner.Derives level) (e : Expr) (c : Cursor) :
    TakesAt c 0 (fun r => level.Accesses e → level.Accesses r.state) (accessRound inner e) := by
  refine .here (.token ?_)
  split
  · exact .pass ((h.arguments .rparen _).bind fun args c' => .pure fun _ hargs _ he =>
      .call _ he hargs)
  · refine .pass (((takesAt_propertyName _).mono (Nat.zero_le 1)).bind fun name c' => ?_)
    exact .pure fun _ _ _ he => .member _ name he
  · refine .pass ((h.expression _).bind fun index c' => ?_)
    refine (TakesAt.expect ?_).mono (Nat.zero_le 1)
    exact .pure fun _ _ hindex _ he => .index _ he hindex
  · exact .pure fun _ he => he

theorem Derives.accesses (h : inner.Derives level) (c : Cursor) :
    TakesAt c 0 level.Accesses inner.accesses := by
  rw [accesses_eq]
  refine (h.primary c).bind fun e c' => ?_
  exact (takesAt_loop (advances_accessRound h.builds) h.accessRound e c').imp
    fun e' _ he' he => he' (.primary he)

theorem Derives.operandBody (h : inner.Derives level) (c : Cursor) :
    TakesAt c 0 level.Operand inner.operandBody := by
  refine .here (.token ?_)
  split
  · exact .pass ((h.operand _).bind fun e c' => .pure fun _ he _ => .unary _ .not he)
  · exact .pass ((h.operand _).bind fun e c' => .pure fun _ he _ => .unary _ .neg he)
  · exact (h.accesses c).imp fun e _ he => .accesses he

/-! ## Statements -/

theorem Derives.declaration (h : inner.Derives level) (c : Cursor) :
    TakesAt c 0 (fun r : String × Expr => IsName r.1 ∧ level.Expression r.2)
      inner.declaration := by
  refine ((takesAt_ident _ c).mono (Nat.zero_le 1)).bind fun name c₁ => ?_
  refine (takesAt_skipped c₁).bind fun _ c₂ => ?_
  refine (TakesAt.expect ?_).mono (Nat.zero_le 1)
  refine (h.expression _).bind fun value c₃ => ?_
  refine (takesAt_endStatement c₃).bind fun _ c₄ => ?_
  exact .pure fun _ _ hvalue _ _ hname => ⟨hname, hvalue⟩

theorem Derives.expressionStatement (h : inner.Derives level) (pos : Pos) (c : Cursor) :
    TakesAt c 0 level.Statement (inner.expressionStatement pos) := by
  refine (h.expression c).bind fun e c₁ => .eat (fun _ => ?_) (fun _ => ?_)
  · have hassign : TakesAt c₁.advance 0
        (fun s : Stmt => c₁.Lexical → level.Expression e → level.Statement s) (do
          let value ← inner.expression
          endStatement
          return .assign pos e value) := by
      refine (h.expression _).bind fun value c₂ => ?_
      refine (takesAt_endStatement c₂).bind fun _ c₃ => ?_
      exact .pure fun _ _ hvalue _ he => .assign pos he hvalue
    rw [if_pos rfl]
    split
    · exact hassign
    · exact hassign
    · exact hassign
    · exact .fail _ _
  · exact (takesAt_endStatement c₁).bind fun _ c₂ => .pure fun _ _ he => .expr pos he

theorem Derives.statement (h : inner.Derives level) (c : Cursor) :
    TakesAt c 0 level.Statement inner.statement := by
  refine .here (.token ?_)
  split
  · refine .pass ((h.declaration _).bind fun r c' => ?_)
    exact .pure fun _ hr _ => .declare _ hr.1 hr.2
  · refine .get ?_
    split
    · exact (h.function c).bind fun f c' => .pure fun _ hf => .fn _ hf
    · exact h.expressionStatement _ c
  · refine .pass (.check ?_)
    split
    · exact (takesAt_endStatement _).bind fun _ c' => .pure fun _ _ _ => .returnNothing _
    · refine .check ?_
      split
      · exact .pure fun _ _ => .returnNothing _
      · refine (h.expression _).bind fun value c' => .check ?_
        split
        · exact .pure fun _ hvalue _ => .return_ _ hvalue
        · refine (takesAt_endStatement c').bind fun _ c'' => ?_
          exact .pure fun _ _ hvalue _ => .return_ _ hvalue
  · refine .pass ((h.expression _).bind fun value c' => ?_)
    refine (takesAt_endStatement c').bind fun _ c'' => ?_
    exact .pure fun _ _ hvalue _ => .throw_ _ hvalue
  · exact (h.conditional c).imp fun s _ hs => .conditional hs
  · exact h.expressionStatement _ c

theorem Derives.blockBody (h : inner.Derives level) (dialect : Dialect) (c : Cursor) :
    TakesAt c 0 level.outer.block (inner.blockBody dialect) := by
  have hpick (c : Cursor) : TakesAt c 0 (Pick.All level.Statement) (blockPick dialect inner) := by
    refine .check ?_
    split
    · exact .pure fun _ => trivial
    · refine .token ?_
      split
      · exact .unexpected _
      · exact .pass (.pure fun _ _ => trivial)
      · exact .here (.fail _ _)
      · exact .here (.fail _ _)
      · exact (h.statement c).bind fun s c' => .pure fun _ hs => hs
  rw [blockBody_eq]
  refine (TakesAt.expect ?_).mono (Nat.zero_le 1)
  refine (takesAt_collect (advances_of_cases (blockPick_cases h.builds dialect)) hpick _).bind
    fun body c' => ?_
  exact .pass (.pure fun _ _ hbody _ => hbody)

theorem Derives.conditionalBody (h : inner.Derives level) (c : Cursor) :
    TakesAt c 0 level.Conditional inner.conditionalBody := by
  refine .here ((TakesAt.expectKeyword ?_).mono (Nat.zero_le 1))
  refine (TakesAt.expect ?_).mono (Nat.zero_le 1)
  refine (h.expression _).bind fun cond c₁ => ?_
  refine (TakesAt.expect ?_).mono (Nat.zero_le 1)
  refine (h.block _).bind fun thenBody c₂ => .checkKeyword ?_
  split
  · refine .pass (.checkKeyword ?_)
    split
    · refine (h.conditional _).bind fun nested c₃ => ?_
      exact .pure fun _ hnested _ hthen _ hcond _ _ => .elseIf _ hcond hthen hnested
    · refine (h.block _).bind fun elseBody c₃ => ?_
      exact .pure fun _ helse _ hthen _ hcond _ _ => .elseBlock _ hcond hthen helse
  · exact .pure fun _ hthen _ hcond _ _ => .noElse _ hcond hthen

/-- The readers with some levels left give the trees with these levels. -/
theorem derives_ofDepth (dialect : Dialect) (depth : Nat) :
    (ofDepth dialect depth).Derives (Derived.ofDepth depth) := by
  have hbuilds := builds_ofDepth dialect depth
  induction depth with
  | zero => exact ⟨hbuilds, fun _ => .here (.fail _ _), fun _ => .here (.fail _ _),
      fun _ => .here (.fail _ _)⟩
  | succ depth ih =>
    have ih := ih (builds_ofDepth dialect depth)
    exact ⟨hbuilds, ih.blockBody dialect, ih.conditionalBody, ih.operandBody⟩

/-! ## Programs -/

theorem derives_importedNames (c : Cursor) :
    TakesAt c 0 (fun names => ∀ n ∈ names, n.2 = n.1 ∨ IsName n.2) importedNames := by
  refine takesAt_nameList (fun c => ?_) c
  refine ((takesAt_propertyName c).mono (Nat.zero_le 1)).bind fun name c' => .checkKeyword ?_
  split
  · refine .pass (((takesAt_ident _ _).mono (Nat.zero_le 1)).bind fun alias_ c'' => ?_)
    exact .pure fun _ halias _ _ => .inr halias
  · exact .pure fun _ _ => .inl rfl

theorem derives_importClause (c : Cursor) : TakesAt c 0 Derived.IsClause importClause := by
  refine .token ?_
  split
  · rename_i name ht
    refine .pass (.pure fun _ hc => ?_)
    have := hc.token
    rwa [ht] at this
  · refine .pass ((TakesAt.expectKeyword ?_).mono (Nat.zero_le 1))
    refine ((takesAt_ident _ _).mono (Nat.zero_le 1)).bind fun name c' => ?_
    exact .pure fun _ hname _ _ => hname
  · exact (derives_importedNames c).bind fun names c' => .pure fun _ hnames => hnames
  · exact .unexpected _

theorem derives_importDeclaration (c : Cursor) : TakesAt c 0 level.IsItem importDeclaration := by
  refine .here ((TakesAt.expectKeyword (.token ?_)).mono (Nat.zero_le 1))
  split
  · refine .pass ((takesAt_endStatement _).bind fun _ c' => ?_)
    exact .pure fun _ _ _ _ => .import_ _ _ trivial
  · refine (derives_importClause _).bind fun clause c₁ => ?_
    refine (TakesAt.expectKeyword ?_).mono (Nat.zero_le 1)
    refine ((takesAt_string _ _).mono (Nat.zero_le 1)).bind fun source c₂ => ?_
    refine (takesAt_endStatement c₂).bind fun _ c₃ => ?_
    exact .pure fun _ _ _ _ hclause _ => .import_ _ source hclause

theorem Derives.exportForm (h : inner.Derives level) (c : Cursor) :
    TakesAt c 0 level.IsForm inner.exportForm := by
  refine .token ?_
  split
  · refine .pass (.checkKeyword (.get ?_))
    split
    · exact (h.function _).bind fun f c' => .pure fun _ hf _ => .fn true hf
    · refine (h.expression _).bind fun value c' => ?_
      refine (takesAt_endStatement c').bind fun _ c'' => ?_
      exact .pure fun _ _ hvalue _ => .default_ hvalue
  · refine .get ?_
    split
    · exact (h.function c).bind fun f c' => .pure fun _ hf => .fn false hf
    · exact .here (.fail _ _)
  · refine .pass ((h.declaration _).bind fun r c' => ?_)
    exact .pure fun _ hr _ => .declare hr.1 hr.2
  · have hnames := (takesAt_exportedNames c).imp
      (Q := fun names => ∀ n ∈ names, IsName n.1) fun names _ hnames n hn => (hnames n hn).1
    refine hnames.bind fun names c' => ?_
    exact (takesAt_endStatement c').bind fun _ c'' => .pure fun _ _ hnames => .names hnames
  · exact .unexpected _

theorem Derives.surfaceElement (h : inner.Derives level) (c : Cursor) :
    TakesAt c 0 level.IsItem inner.surfaceElement := by
  refine .token ?_
  split
  · exact derives_importDeclaration c
  · refine .here ((TakesAt.expectKeyword ?_).mono (Nat.zero_le 1))
    exact (h.exportForm _).bind fun form c' => .pure fun _ hform _ => .export_ _ hform
  · exact (h.statement c).bind fun s c' => .pure fun _ hs => .stmt hs

theorem Derives.coreElement (h : inner.Derives level) (c : Cursor) :
    TakesAt c 0 level.Statement inner.coreElement := by
  refine .token ?_
  split
  · exact .here (.fail _ _)
  · exact .here (.fail _ _)
  · exact h.statement c

/-- What holds of every element holds of the elements of a program. -/
theorem takesAt_elements_imp {element : Reader α} {Q : α → Prop}
    (h : ∀ c, TakesAt c 1 Q element) (hp : ∀ c, TakesAt c 0 P element) (c : Cursor) :
    TakesAt c 0 (fun xs => ∀ x ∈ xs, P x) (elements element) := by
  have hboth (c : Cursor) : TakesAt c 1 P element := fun a c' hr =>
    ⟨(h c a c' hr).1, (hp c a c' hr).2⟩
  exact takesAt_elements hboth c

end Nested

/-- A core program has statements that are derived with all levels left. -/
theorem derived_of_parseCore {source : List Char} {ss : List Stmt} (h : parseCore source = .ok ss) :
    ∀ s ∈ ss, (Derived.ofDepth maxNesting).Statement s := by
  obtain ⟨ls, c', hls, hr⟩ := run_eq_ok_iff.mp h
  have hderives := Nested.derives_ofDepth .core maxNesting
  exact (Nested.takesAt_elements_imp (Nested.takesAt_coreElement hderives.builds)
    hderives.coreElement _ ss c' hr).2 (lexemes_lexical hls)

/-- A surface program has elements that are derived with all levels left. -/
theorem derived_of_parseSurface {source : List Char} {items : List Item}
    (h : parseSurface source = .ok items) :
    ∀ item ∈ items, (Derived.ofDepth maxNesting).IsItem item := by
  obtain ⟨ls, c', hls, hr⟩ := run_eq_ok_iff.mp h
  have hderives := Nested.derives_ofDepth .surface maxNesting
  exact (Nested.takesAt_elements_imp (Nested.takesAt_surfaceElement hderives.builds)
    hderives.surfaceElement _ items c' hr).2 (lexemes_lexical hls)

end Hotload.Syntax
