import Mathlib
import Hotload.Proofs.Syntax.Spelling

/-!
# Trees up to positions

When two trees are the same program, and what becomes of a tree that is printed and read again.

* `Expr.erase`, `Stmt.erase`: a tree without its positions.
* `Alike ρ`: two trees that differ in positions only, which `ρ` relates node by node.
* `Expr.reread`, `Stmt.reread`: what a printed tree is read back as.
* `Expr.Every`, `Stmt.Every`: a property of all names, numbers and keys of a tree.
* `Expr.levels`, `Stmt.levels`: how deep a printed tree nests.
-/

namespace Hotload.Syntax

/-! ## Positions -/

mutual

/-- The expression without positions. -/
def Expr.erase : Expr → Expr
  | .nil _ => .nil .start
  | .bool _ value => .bool .start value
  | .num _ value => .num .start value
  | .str _ value => .str .start value
  | .ident _ name => .ident .start name
  | .list _ items => .list .start (Expr.eraseList items)
  | .object _ fields => .object .start (Expr.eraseFields fields)
  | .fn _ function => .fn .start function.erase
  | .call _ callee args => .call .start callee.erase (Expr.eraseList args)
  | .member _ object name => .member .start object.erase name
  | .index _ object index => .index .start object.erase index.erase
  | .unary _ op operand => .unary .start op operand.erase
  | .binary _ op lhs rhs => .binary .start op lhs.erase rhs.erase

/-- The expressions without positions. -/
def Expr.eraseList : List Expr → List Expr
  | [] => []
  | e :: es => e.erase :: Expr.eraseList es

/-- The fields without positions. -/
def Expr.eraseFields : List (String × Expr) → List (String × Expr)
  | [] => []
  | (key, value) :: fields => (key, value.erase) :: Expr.eraseFields fields

/-- The function without positions. -/
def Function.erase : Function → Function
  | .mk _ name params body => .mk .start name params (Stmt.eraseList body)

/-- The statement without positions. -/
def Stmt.erase : Stmt → Stmt
  | .declare _ name value => .declare .start name value.erase
  | .fn _ function => .fn .start function.erase
  | .return_ _ none => .return_ .start none
  | .return_ _ (some value) => .return_ .start (some value.erase)
  | .throw_ _ value => .throw_ .start value.erase
  | .if_ _ cond thenBody none => .if_ .start cond.erase (Stmt.eraseList thenBody) none
  | .if_ _ cond thenBody (some elseBody) =>
    .if_ .start cond.erase (Stmt.eraseList thenBody) (some (Stmt.eraseList elseBody))
  | .assign _ target value => .assign .start target.erase value.erase
  | .expr _ value => .expr .start value.erase

/-- The statements without positions. -/
def Stmt.eraseList : List Stmt → List Stmt
  | [] => []
  | s :: ss => s.erase :: Stmt.eraseList ss

end

theorem eraseList_eq_map (es : List Expr) : Expr.eraseList es = es.map Expr.erase := by
  induction es with
  | nil => rfl
  | cons e es ih => rw [Expr.eraseList, ih, List.map_cons]

theorem Stmt.eraseList_eq_map (ss : List Stmt) : Stmt.eraseList ss = ss.map Stmt.erase := by
  induction ss with
  | nil => rfl
  | cons s ss ih => rw [Stmt.eraseList, ih, List.map_cons]

theorem pos_erase (e : Expr) : e.erase.pos = .start := by
  cases e <;> rfl

mutual

/-- The positions of the nodes of an expression that errors are reported at. -/
def Expr.positions : Expr → List Pos
  | .nil pos | .bool pos _ | .num pos _ | .str pos _ | .ident pos _ => [pos]
  | .list pos items => pos :: Expr.positionsList items
  | .object pos fields => pos :: Expr.positionsFields fields
  | .fn pos function => pos :: function.positions
  | .call pos callee args => pos :: callee.positions ++ Expr.positionsList args
  | .member pos object _ => pos :: object.positions
  | .index pos object index => pos :: object.positions ++ index.positions
  | .unary pos _ operand => pos :: operand.positions
  | .binary pos _ lhs rhs => pos :: lhs.positions ++ rhs.positions

/-- The positions of the nodes of expressions. -/
def Expr.positionsList : List Expr → List Pos
  | [] => []
  | e :: es => e.positions ++ Expr.positionsList es

/-- The positions of the nodes of fields. -/
def Expr.positionsFields : List (String × Expr) → List Pos
  | [] => []
  | (_, value) :: fields => value.positions ++ Expr.positionsFields fields

/-- The positions of a function and the nodes of its body. -/
def Function.positions : Function → List Pos
  | .mk pos _ _ body => pos :: Stmt.positionsList body

/-- The positions of the nodes of a statement. A statement that begins with an expression or a
function has no position of its own. -/
def Stmt.positions : Stmt → List Pos
  | .declare pos _ value => pos :: value.positions
  | .fn _ function => function.positions
  | .return_ pos none => [pos]
  | .return_ pos (some value) => pos :: value.positions
  | .throw_ pos value => pos :: value.positions
  | .if_ pos cond thenBody none => pos :: cond.positions ++ Stmt.positionsList thenBody
  | .if_ pos cond thenBody (some elseBody) =>
    pos :: cond.positions ++ Stmt.positionsList thenBody ++ Stmt.positionsList elseBody
  | .assign _ target value => target.positions ++ value.positions
  | .expr _ value => value.positions

/-- The positions of the nodes of statements. -/
def Stmt.positionsList : List Stmt → List Pos
  | [] => []
  | s :: ss => s.positions ++ Stmt.positionsList ss

end

theorem Expr.positions_head (e : Expr) : ∃ ps, e.positions = e.pos :: ps := by
  cases e <;> exact ⟨_, rfl⟩

/-- The expression is a function with a name, which as a statement reads as a declaration. -/
def Expr.isNamedFn : Expr → Bool
  | .fn _ function => function.name.isSome
  | _ => false

/-! ## Nesting -/

mutual

/-- How deep the printed expression nests. -/
def Expr.levels : Expr → Nat
  | .nil _ | .bool _ _ | .num _ _ | .str _ _ | .ident _ _ => 0
  | .list _ items => Expr.levelsList items
  | .object _ fields => Expr.levelsFields fields
  | .fn _ function => function.levels
  | .call _ callee args =>
    max (callee.levels + callee.needsParens.toNat) (Expr.levelsList args)
  | .member _ object _ => object.levels + object.needsParens.toNat
  | .index _ object index =>
    max (object.levels + object.needsParens.toNat) (index.levels + 1)
  | .unary _ _ operand => operand.levels + operand.needsParens.toNat + 1
  | .binary _ _ lhs rhs => max lhs.levels rhs.levels + 1

/-- How deep expressions nest that stand in brackets. -/
def Expr.levelsList : List Expr → Nat
  | [] => 0
  | e :: es => max (e.levels + 1) (Expr.levelsList es)

/-- How deep fields nest. -/
def Expr.levelsFields : List (String × Expr) → Nat
  | [] => 0
  | (_, value) :: fields => max (value.levels + 1) (Expr.levelsFields fields)

/-- How deep the printed function nests. -/
def Function.levels : Function → Nat
  | .mk _ _ _ body => Stmt.levelsList body + 1

/-- How deep the printed statement nests. -/
def Stmt.levels : Stmt → Nat
  | .declare _ _ value => value.levels + 1
  | .fn _ function => function.levels
  | .return_ _ none => 0
  | .return_ _ (some value) => value.levels + 1
  | .throw_ _ value => value.levels + 1
  | .if_ _ cond thenBody none => max (cond.levels + 1) (Stmt.levelsList thenBody + 1) + 1
  | .if_ _ cond thenBody (some elseBody) =>
    max (cond.levels + 1) (max (Stmt.levelsList thenBody + 1) (Stmt.levelsList elseBody + 1)) + 1
  | .assign _ target value => max target.levels value.levels + 1
  | .expr _ value => value.levels + (!value.isNamedFn).toNat

/-- How deep the printed statements nest. -/
def Stmt.levelsList : List Stmt → Nat
  | [] => 0
  | s :: ss => max s.levels (Stmt.levelsList ss)

end

/-! ## Reading again -/

/-- The key that a printed key is read as: a keyword counts by its first spelling. -/
def rereadKey (key : String) : String :=
  if isIdentifier key.toList then
    match Keyword.ofWord? key with
    | some k => k.spelling
    | none => key
  else key

/-- The expression that a printed variable is read as. -/
def rereadVariable (pos : Pos) (name : String) : Expr :=
  match Keyword.ofWord? name with
  | some .true_ => .bool pos true
  | some .false_ => .bool pos false
  | some .nil => .nil pos
  | _ => .ident pos name

/-- The expression that a printed number is read as. -/
def rereadNumber (pos : Pos) (value : Float) : Expr :=
  if Number.isFinite value then .num pos value else .ident pos "inf"

/-- The statement that a printed expression is read as. -/
def rereadStatement (pos : Pos) : Expr → Stmt
  | .fn p function => if function.name.isSome then .fn pos function else .expr pos (.fn p function)
  | e => .expr pos e

mutual

/-- The expression that a printed expression is read as. -/
def Expr.reread : Expr → Expr
  | .nil pos => .nil pos
  | .bool pos value => .bool pos value
  | .num pos value => rereadNumber pos value
  | .str pos value => .str pos value
  | .ident pos name => rereadVariable pos name
  | .list pos items => .list pos (Expr.rereadList items)
  | .object pos fields => .object pos (Expr.rereadFields fields)
  | .fn pos function => .fn pos function.reread
  | .call pos callee args => .call pos callee.reread (Expr.rereadList args)
  | .member pos object name => .member pos object.reread name
  | .index pos object index => .index pos object.reread index.reread
  | .unary pos op operand => .unary pos op operand.reread
  | .binary pos op lhs rhs => .binary pos op lhs.reread rhs.reread

/-- The expressions that printed expressions are read as. -/
def Expr.rereadList : List Expr → List Expr
  | [] => []
  | e :: es => e.reread :: Expr.rereadList es

/-- The fields that printed fields are read as. -/
def Expr.rereadFields : List (String × Expr) → List (String × Expr)
  | [] => []
  | (key, value) :: fields => (rereadKey key, value.reread) :: Expr.rereadFields fields

/-- The function that a printed function is read as. -/
def Function.reread : Function → Function
  | .mk pos name params body => .mk pos name params (Stmt.rereadList body)

/-- The statement that a printed statement is read as. -/
def Stmt.reread : Stmt → Stmt
  | .declare pos name value => .declare pos name value.reread
  | .fn pos function => .fn pos function.reread
  | .return_ pos none => .return_ pos none
  | .return_ pos (some value) => .return_ pos (some value.reread)
  | .throw_ pos value => .throw_ pos value.reread
  | .if_ pos cond thenBody none => .if_ pos cond.reread (Stmt.rereadList thenBody) none
  | .if_ pos cond thenBody (some elseBody) =>
    .if_ pos cond.reread (Stmt.rereadList thenBody) (some (Stmt.rereadList elseBody))
  | .assign pos target value => .assign pos target.reread value.reread
  | .expr pos value => rereadStatement pos value.reread

/-- The statements that printed statements are read as. -/
def Stmt.rereadList : List Stmt → List Stmt
  | [] => []
  | s :: ss => s.reread :: Stmt.rereadList ss

end

/-! ## Properties of all nodes -/

/-- What numbers, variables, keys, names of declared variables and expressions that stand as
statements have to be. -/
structure Allowed where
  number : Float → Prop
  variable_ : String → Prop
  key : String → Prop
  declared : String → Prop
  statement : Expr → Prop

mutual

/-- All nodes of the expression are allowed. -/
def Expr.Every (q : Allowed) : Expr → Prop
  | .nil _ | .bool _ _ | .str _ _ => True
  | .num _ value => q.number value
  | .ident _ name => q.variable_ name
  | .list _ items => Expr.EveryList q items
  | .object _ fields => Expr.EveryFields q fields
  | .fn _ function => function.Every q
  | .call _ callee args => callee.Every q ∧ Expr.EveryList q args
  | .member _ object _ => object.Every q
  | .index _ object index => object.Every q ∧ index.Every q
  | .unary _ _ operand => operand.Every q
  | .binary _ _ lhs rhs => lhs.Every q ∧ rhs.Every q

/-- All nodes of the expressions are allowed. -/
def Expr.EveryList (q : Allowed) : List Expr → Prop
  | [] => True
  | e :: es => e.Every q ∧ Expr.EveryList q es

/-- All nodes of the fields are allowed. -/
def Expr.EveryFields (q : Allowed) : List (String × Expr) → Prop
  | [] => True
  | (key, value) :: fields => q.key key ∧ value.Every q ∧ Expr.EveryFields q fields

/-- All nodes of the function are allowed. -/
def Function.Every (q : Allowed) : Function → Prop
  | .mk _ _ _ body => Stmt.EveryList q body

/-- All nodes of the statement are allowed. -/
def Stmt.Every (q : Allowed) : Stmt → Prop
  | .declare _ name value => q.declared name ∧ value.Every q
  | .fn _ function => function.Every q
  | .return_ _ none => True
  | .return_ _ (some value) => value.Every q
  | .throw_ _ value => value.Every q
  | .if_ _ cond thenBody none => cond.Every q ∧ Stmt.EveryList q thenBody
  | .if_ _ cond thenBody (some elseBody) =>
    cond.Every q ∧ Stmt.EveryList q thenBody ∧ Stmt.EveryList q elseBody
  | .assign _ target value => target.Every q ∧ value.Every q
  | .expr _ value => q.statement value ∧ value.Every q

/-- All nodes of the statements are allowed. -/
def Stmt.EveryList (q : Allowed) : List Stmt → Prop
  | [] => True
  | s :: ss => s.Every q ∧ Stmt.EveryList q ss

end

theorem Stmt.everyList_iff {q : Allowed} {ss : List Stmt} :
    Stmt.EveryList q ss ↔ ∀ s ∈ ss, s.Every q := by
  induction ss with
  | nil => simp [Stmt.EveryList]
  | cons s ss ih => simp [Stmt.EveryList, ih]

/-- A variable that is a word. -/
def IsWord (name : String) : Prop := isIdentifier name.toList = true

/-- A word that stands for a value: no keyword but the names of values. -/
def IsValueWord (name : String) : Prop :=
  ∀ k, Keyword.ofWord? name = some k → k = .true_ ∨ k = .false_ ∨ k = .nil

/-- All variables are words. -/
def worded : Allowed := ⟨fun _ => True, IsWord, fun _ => True, fun _ => True, fun _ => True⟩

/-- No keyword stands for a variable, names of values in object literals aside. -/
def sayable : Allowed := ⟨fun _ => True, IsValueWord, fun _ => True, IsName, fun _ => True⟩

/-- Nothing changes when it is printed and read again. -/
def faithful : Allowed :=
  ⟨fun x => Number.isFinite x = true, IsName, fun key => rereadKey key = key, fun _ => True,
    fun e => e.isNamedFn = false⟩

/-- Whatever the one allows the other allows. -/
structure Allowed.Le (q r : Allowed) : Prop where
  number : ∀ x, q.number x → r.number x
  variable_ : ∀ name, q.variable_ name → r.variable_ name
  key : ∀ key, q.key key → r.key key
  declared : ∀ name, q.declared name → r.declared name
  statement : ∀ e, q.statement e → r.statement e

theorem worded_of_faithful : faithful.Le worded :=
  ⟨fun _ _ => trivial, fun _ h => h.1, fun _ _ => trivial, fun _ _ => trivial, fun _ _ => trivial⟩

mutual

theorem Expr.Every.mono {q r : Allowed} (hle : q.Le r) : ∀ {e : Expr}, e.Every q → e.Every r
  | .nil _, _ | .bool _ _, _ | .str _ _, _ => trivial
  | .num _ _, h => hle.number _ h
  | .ident _ _, h => hle.variable_ _ h
  | .list _ _, h => Expr.EveryList.mono hle h
  | .object _ _, h => Expr.EveryFields.mono hle h
  | .fn _ _, h => Function.Every.mono hle h
  | .call _ _ _, h => ⟨Expr.Every.mono hle h.1, Expr.EveryList.mono hle h.2⟩
  | .member _ object _, h => Expr.Every.mono (e := object) hle h
  | .index _ _ _, h => ⟨Expr.Every.mono hle h.1, Expr.Every.mono hle h.2⟩
  | .unary _ _ operand, h => Expr.Every.mono (e := operand) hle h
  | .binary _ _ _ _, h => ⟨Expr.Every.mono hle h.1, Expr.Every.mono hle h.2⟩

theorem Expr.EveryList.mono {q r : Allowed} (hle : q.Le r) : ∀ {es : List Expr},
    Expr.EveryList q es → Expr.EveryList r es
  | [], _ => trivial
  | _ :: _, h => ⟨Expr.Every.mono hle h.1, Expr.EveryList.mono hle h.2⟩

theorem Expr.EveryFields.mono {q r : Allowed} (hle : q.Le r) : ∀ {fields : List (String × Expr)},
    Expr.EveryFields q fields → Expr.EveryFields r fields
  | [], _ => trivial
  | (_, _) :: _, h => ⟨hle.key _ h.1, Expr.Every.mono hle h.2.1, Expr.EveryFields.mono hle h.2.2⟩

theorem Function.Every.mono {q r : Allowed} (hle : q.Le r) : ∀ {f : Function},
    f.Every q → f.Every r
  | .mk _ _ _ _, h => Stmt.EveryList.mono hle h

theorem Stmt.Every.mono {q r : Allowed} (hle : q.Le r) : ∀ {s : Stmt}, s.Every q → s.Every r
  | .declare _ _ _, h => ⟨hle.declared _ h.1, Expr.Every.mono hle h.2⟩
  | .fn _ _, h => Function.Every.mono hle h
  | .return_ _ none, _ => trivial
  | .return_ _ (some value), h => Expr.Every.mono (e := value) hle h
  | .throw_ _ value, h => Expr.Every.mono (e := value) hle h
  | .if_ _ _ _ none, h => ⟨Expr.Every.mono hle h.1, Stmt.EveryList.mono hle h.2⟩
  | .if_ _ _ _ (some _), h =>
    ⟨Expr.Every.mono hle h.1, Stmt.EveryList.mono hle h.2.1, Stmt.EveryList.mono hle h.2.2⟩
  | .assign _ _ _, h => ⟨Expr.Every.mono hle h.1, Expr.Every.mono hle h.2⟩
  | .expr _ _, h => ⟨hle.statement _ h.1, Expr.Every.mono hle h.2⟩

theorem Stmt.EveryList.mono {q r : Allowed} (hle : q.Le r) : ∀ {ss : List Stmt},
    Stmt.EveryList q ss → Stmt.EveryList r ss
  | [], _ => trivial
  | _ :: _, h => ⟨Stmt.Every.mono hle h.1, Stmt.EveryList.mono hle h.2⟩

end

/-! ## Trees that read back as they are -/

theorem rereadVariable_eq {name : String} (h : IsName name) (pos : Pos) :
    rereadVariable pos name = .ident pos name := by
  rw [rereadVariable, h.2]

theorem rereadStatement_eq {e : Expr} (h : e.isNamedFn = false) (pos : Pos) :
    rereadStatement pos e = .expr pos e := by
  cases e <;> simp_all [rereadStatement, Expr.isNamedFn]

theorem isNamedFn_reread (e : Expr) : e.reread.isNamedFn = e.isNamedFn := by
  cases e with
  | num pos value =>
    simp only [Expr.reread, rereadNumber]
    split <;> rfl
  | ident pos name =>
    simp only [Expr.reread, rereadVariable]
    split <;> rfl
  | fn pos function =>
    obtain ⟨_, _, _, _⟩ := function
    rfl
  | _ => rfl

mutual

theorem Expr.reread_eq : ∀ {e : Expr}, e.Every faithful → e.reread = e
  | .nil _, _ | .bool _ _, _ | .str _ _, _ => rfl
  | .num _ _, h => by
    have hfinite : Number.isFinite _ = true := h
    rw [Expr.reread, rereadNumber, if_pos hfinite]
  | .ident pos _, h => rereadVariable_eq h pos
  | .list _ _, h => by rw [Expr.reread, Expr.rereadList_eq h]
  | .object _ _, h => by rw [Expr.reread, Expr.rereadFields_eq h]
  | .fn _ _, h => by rw [Expr.reread, Function.reread_eq h]
  | .call _ _ _, h => by rw [Expr.reread, Expr.reread_eq h.1, Expr.rereadList_eq h.2]
  | .member _ object _, h => by rw [Expr.reread, Expr.reread_eq (e := object) h]
  | .index _ _ _, h => by rw [Expr.reread, Expr.reread_eq h.1, Expr.reread_eq h.2]
  | .unary _ _ operand, h => by rw [Expr.reread, Expr.reread_eq (e := operand) h]
  | .binary _ _ _ _, h => by rw [Expr.reread, Expr.reread_eq h.1, Expr.reread_eq h.2]

theorem Expr.rereadList_eq : ∀ {es : List Expr}, Expr.EveryList faithful es →
    Expr.rereadList es = es
  | [], _ => rfl
  | _ :: _, h => by rw [Expr.rereadList, Expr.reread_eq h.1, Expr.rereadList_eq h.2]

theorem Expr.rereadFields_eq : ∀ {fields : List (String × Expr)},
    Expr.EveryFields faithful fields → Expr.rereadFields fields = fields
  | [], _ => rfl
  | (_, _) :: _, h => by
    have hkey : rereadKey _ = _ := h.1
    rw [Expr.rereadFields, hkey, Expr.reread_eq h.2.1, Expr.rereadFields_eq h.2.2]

theorem Function.reread_eq : ∀ {f : Function}, f.Every faithful → f.reread = f
  | .mk _ _ _ _, h => by rw [Function.reread, Stmt.rereadList_eq h]

theorem Stmt.reread_eq : ∀ {s : Stmt}, s.Every faithful → s.reread = s
  | .declare _ _ _, h => by rw [Stmt.reread, Expr.reread_eq h.2]
  | .fn _ _, h => by rw [Stmt.reread, Function.reread_eq h]
  | .return_ _ none, _ => rfl
  | .return_ _ (some value), h => by rw [Stmt.reread, Expr.reread_eq (e := value) h]
  | .throw_ _ value, h => by rw [Stmt.reread, Expr.reread_eq (e := value) h]
  | .if_ _ _ _ none, h => by rw [Stmt.reread, Expr.reread_eq h.1, Stmt.rereadList_eq h.2]
  | .if_ _ _ _ (some _), h => by
    rw [Stmt.reread, Expr.reread_eq h.1, Stmt.rereadList_eq h.2.1, Stmt.rereadList_eq h.2.2]
  | .assign _ _ _, h => by rw [Stmt.reread, Expr.reread_eq h.1, Expr.reread_eq h.2]
  | .expr pos _, h => by
    rw [Stmt.reread, Expr.reread_eq h.2, rereadStatement_eq h.1]

theorem Stmt.rereadList_eq : ∀ {ss : List Stmt}, Stmt.EveryList faithful ss →
    Stmt.rereadList ss = ss
  | [], _ => rfl
  | _ :: _, h => by rw [Stmt.rereadList, Stmt.reread_eq h.1, Stmt.rereadList_eq h.2]

end

theorem isName_of_reread {pos : Pos} {name : String} (hw : IsWord name) (hs : IsValueWord name)
    (h : (rereadVariable pos name).erase = (Expr.ident pos name).erase) : IsName name := by
  refine ⟨hw, ?_⟩
  cases hk : Keyword.ofWord? name with
  | none => rfl
  | some k =>
    rw [rereadVariable, hk] at h
    rcases hs k hk with rfl | rfl | rfl <;> cases h

theorem isNamedFn_of_reread {pos : Pos} {e : Expr}
    (h : (rereadStatement pos e.reread).erase = (Stmt.expr pos e).erase) :
    e.isNamedFn = false ∧ e.reread.erase = e.erase := by
  have hnot : e.isNamedFn = false := by
    rw [← isNamedFn_reread, Bool.eq_false_iff]
    intro hn
    cases he : e.reread <;> simp [he, Expr.isNamedFn] at hn
    rw [he, rereadStatement, if_pos hn] at h
    cases h
  refine ⟨hnot, ?_⟩
  rw [rereadStatement_eq (by rw [isNamedFn_reread, hnot])] at h
  exact (Stmt.expr.inj h).2

mutual

theorem Expr.faithful_of_reread : ∀ {e : Expr}, e.Every worded → e.Every sayable →
    e.reread.erase = e.erase → e.Every faithful
  | .nil _, _, _, _ | .bool _ _, _, _, _ | .str _ _, _, _, _ => trivial
  | .num _ value, _, _, h => by
    simp only [Expr.reread, rereadNumber] at h
    split at h
    · assumption
    · cases h
  | .ident _ _, hw, hs, h => isName_of_reread hw hs h
  | .list _ _, hw, hs, h => Expr.faithful_of_rereadList hw hs (Expr.list.inj h).2
  | .object _ _, hw, hs, h => Expr.faithful_of_rereadFields hw hs (Expr.object.inj h).2
  | .fn _ _, hw, hs, h => Function.faithful_of_reread hw hs (Expr.fn.inj h).2
  | .call _ _ _, hw, hs, h =>
    ⟨Expr.faithful_of_reread hw.1 hs.1 (Expr.call.inj h).2.1,
      Expr.faithful_of_rereadList hw.2 hs.2 (Expr.call.inj h).2.2⟩
  | .member _ object _, hw, hs, h =>
    Expr.faithful_of_reread (e := object) hw hs (Expr.member.inj h).2.1
  | .index _ _ _, hw, hs, h =>
    ⟨Expr.faithful_of_reread hw.1 hs.1 (Expr.index.inj h).2.1,
      Expr.faithful_of_reread hw.2 hs.2 (Expr.index.inj h).2.2⟩
  | .unary _ _ operand, hw, hs, h =>
    Expr.faithful_of_reread (e := operand) hw hs (Expr.unary.inj h).2.2
  | .binary _ _ _ _, hw, hs, h =>
    ⟨Expr.faithful_of_reread hw.1 hs.1 (Expr.binary.inj h).2.2.1,
      Expr.faithful_of_reread hw.2 hs.2 (Expr.binary.inj h).2.2.2⟩

theorem Expr.faithful_of_rereadList : ∀ {es : List Expr}, Expr.EveryList worded es →
    Expr.EveryList sayable es → Expr.eraseList (Expr.rereadList es) = Expr.eraseList es →
    Expr.EveryList faithful es
  | [], _, _, _ => trivial
  | _ :: _, hw, hs, h =>
    ⟨Expr.faithful_of_reread hw.1 hs.1 (List.cons.inj h).1,
      Expr.faithful_of_rereadList hw.2 hs.2 (List.cons.inj h).2⟩

theorem Expr.faithful_of_rereadFields : ∀ {fields : List (String × Expr)},
    Expr.EveryFields worded fields → Expr.EveryFields sayable fields →
    Expr.eraseFields (Expr.rereadFields fields) = Expr.eraseFields fields →
    Expr.EveryFields faithful fields
  | [], _, _, _ => trivial
  | (_, _) :: _, hw, hs, h =>
    have hfield := Prod.mk.inj (List.cons.inj h).1
    ⟨hfield.1, Expr.faithful_of_reread hw.2.1 hs.2.1 hfield.2,
      Expr.faithful_of_rereadFields hw.2.2 hs.2.2 (List.cons.inj h).2⟩

theorem Function.faithful_of_reread : ∀ {f : Function}, f.Every worded → f.Every sayable →
    f.reread.erase = f.erase → f.Every faithful
  | .mk _ _ _ _, hw, hs, h => Stmt.faithful_of_rereadList hw hs (Function.mk.inj h).2.2.2

theorem Stmt.faithful_of_reread : ∀ {s : Stmt}, s.Every worded → s.Every sayable →
    s.reread.erase = s.erase → s.Every faithful
  | .declare _ _ _, hw, hs, h =>
    ⟨trivial, Expr.faithful_of_reread hw.2 hs.2 (Stmt.declare.inj h).2.2⟩
  | .fn _ _, hw, hs, h => Function.faithful_of_reread hw hs (Stmt.fn.inj h).2
  | .return_ _ none, _, _, _ => trivial
  | .return_ _ (some value), hw, hs, h =>
    Expr.faithful_of_reread (e := value) hw hs (Option.some.inj (Stmt.return_.inj h).2)
  | .throw_ _ value, hw, hs, h =>
    Expr.faithful_of_reread (e := value) hw hs (Stmt.throw_.inj h).2
  | .if_ _ _ _ none, hw, hs, h =>
    ⟨Expr.faithful_of_reread hw.1 hs.1 (Stmt.if_.inj h).2.1,
      Stmt.faithful_of_rereadList hw.2 hs.2 (Stmt.if_.inj h).2.2.1⟩
  | .if_ _ _ _ (some _), hw, hs, h =>
    ⟨Expr.faithful_of_reread hw.1 hs.1 (Stmt.if_.inj h).2.1,
      Stmt.faithful_of_rereadList hw.2.1 hs.2.1 (Stmt.if_.inj h).2.2.1,
      Stmt.faithful_of_rereadList hw.2.2 hs.2.2 (Option.some.inj (Stmt.if_.inj h).2.2.2)⟩
  | .assign _ _ _, hw, hs, h =>
    ⟨Expr.faithful_of_reread hw.1 hs.1 (Stmt.assign.inj h).2.1,
      Expr.faithful_of_reread hw.2 hs.2 (Stmt.assign.inj h).2.2⟩
  | .expr _ _, hw, hs, h =>
    ⟨(isNamedFn_of_reread h).1, Expr.faithful_of_reread hw.2 hs.2 (isNamedFn_of_reread h).2⟩

theorem Stmt.faithful_of_rereadList : ∀ {ss : List Stmt}, Stmt.EveryList worded ss →
    Stmt.EveryList sayable ss → Stmt.eraseList (Stmt.rereadList ss) = Stmt.eraseList ss →
    Stmt.EveryList faithful ss
  | [], _, _, _ => trivial
  | _ :: _, hw, hs, h =>
    ⟨Stmt.faithful_of_reread hw.1 hs.1 (List.cons.inj h).1,
      Stmt.faithful_of_rereadList hw.2 hs.2 (List.cons.inj h).2⟩

end

end Hotload.Syntax
