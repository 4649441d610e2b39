import Hotload.Syntax.Cursor
import Hotload.Syntax.Lexer
import Hotload.Syntax.Tree

/-!
# From tokens to trees

One grammar serves both dialects: the surface dialect has module declarations at its top level, the
core dialect refuses them. Blocks, `if` statements and operands nest at most `maxNesting` deep. So
the grammar is written once for a nesting level in terms of the readers one level deeper, and
`Nested.ofDepth` ties it together by recursion on the levels that are left.

* `parseCore`: the tree of a core program.
* `parseSurface`: the tree of a surface program.
-/

namespace Hotload.Syntax

open Reader

/-- The two dialects of the script language. -/
inductive Dialect where
  | core | surface
deriving DecidableEq, Repr

/-- Why a module declaration may not stand inside a block. -/
def Dialect.refusal : Dialect → Keyword → Fault
  | .core, k => .uncompiled k
  | .surface, k => .notAtTopLevel k

/-- The readers of the constructs that count as a level of nesting. -/
structure Nested where
  /-- Statements in braces. -/
  block : Reader (List Stmt)
  /-- An `if` statement with its branches. -/
  conditional : Reader Stmt
  /-- An operand with its operators in front and its calls and accesses behind. -/
  operand : Reader Expr

namespace Nested

variable (inner : Nested)

/-- Operands with operators of at least a level between them. The operand on the right of an operator
has only operators of greater levels, so this many of them are left. -/
def binary : Nat → Nat → Reader Expr
  | 0, _ => inner.operand
  | levels + 1, least => do
    let first ← inner.operand
    loop (fun lhs => do
      match binaryOp? (← token) with
      | none => return .done lhs
      | some op =>
        if op.level < least then return .done lhs
        else
          advance
          let rhs ← binary levels (op.level + 1)
          return .again (.binary lhs.pos op lhs rhs)) first
where
  /-- The operator that a token spells. -/
  binaryOp? : Token → Option BinaryOp
    | .mark .orOr => some .or
    | .mark .andAnd => some .and
    | .mark .eq => some .eq
    | .mark .notEq => some .notEq
    | .mark .lt => some .lt
    | .mark .ltEq => some .ltEq
    | .mark .gt => some .gt
    | .mark .gtEq => some .gtEq
    | .mark .plus => some .add
    | .mark .minus => some .sub
    | .mark .star => some .mul
    | .mark .slash => some .div
    | .mark .percent => some .rem
    | _ => none

/-- Operands with operators between them. -/
def expression : Reader Expr := inner.binary BinaryOp.levels 0

/-- A function with or without a name. Annotations of its parameters and of its result are passed
over. -/
def function : Reader Function := do
  let pos ← here
  expectKeyword .fn
  let name ← match ← token with
    | .ident name => do
      advance
      pure (some name)
    | _ => pure none
  expect .lparen
  let params ← commaList .rparen (do
    let param ← ident .parameterName
    skipAnnotation
    return param)
  expect .rparen
  skipAnnotation
  let body ← inner.block
  return .mk pos name params body

/-- A field of an object literal; a key alone stands for the variable of that name. -/
def field : Reader (String × Expr) := do
  let pos ← here
  let key ← match ← token with
    | .str key => do
      advance
      pure key
    | _ => propertyName
  if ← eat .colon then
    return (key, ← inner.expression)
  else
    return (key, .ident pos key)

/-- Expressions with commas between them up to a closing mark, which is passed. -/
def arguments (close : Mark) : Reader (List Expr) := do
  let items ← commaList close inner.expression
  expect close
  return items

/-- A literal, a variable, a function or an expression in parentheses. -/
def primary : Reader Expr := do
  let pos ← here
  match ← token with
  | .num value =>
    advance
    return .num pos value
  | .str value =>
    advance
    return .str pos value
  | .ident name =>
    advance
    return .ident pos name
  | .keyword .true_ =>
    advance
    return .bool pos true
  | .keyword .false_ =>
    advance
    return .bool pos false
  | .keyword .nil =>
    advance
    return .nil pos
  | .keyword .fn => return .fn pos (← inner.function)
  | .mark .lparen =>
    advance
    let e ← inner.expression
    expect .rparen
    return e
  | .mark .lbracket =>
    advance
    return .list pos (← inner.arguments .rbracket)
  | .mark .lbrace =>
    advance
    let fields ← commaList .rbrace inner.field
    expect .rbrace
    return .object pos fields
  | _ => unexpected .expression

/-- A primary expression and the calls and accesses behind it. -/
def accesses : Reader Expr := do
  loop (fun e => do
    let pos ← here
    match ← token with
    | .mark .lparen =>
      advance
      return .again (.call pos e (← inner.arguments .rparen))
    | .mark .dot =>
      advance
      return .again (.member pos e (← propertyName))
    | .mark .lbracket =>
      advance
      let index ← inner.expression
      expect .rbracket
      return .again (.index pos e index)
    | _ => return .done e) (← inner.primary)

/-- An operand: an operator in front of an operand one level deeper, or an access chain. -/
def operandBody : Reader Expr := do
  let pos ← here
  match ← token with
  | .mark .bang =>
    advance
    return .unary pos .not (← inner.operand)
  | .mark .minus =>
    advance
    return .unary pos .neg (← inner.operand)
  | _ => inner.accesses

/-- A variable declaration behind its keyword. -/
def declaration : Reader (String × Expr) := do
  let name ← ident .variableName
  skipAnnotation
  expect .assign
  let value ← inner.expression
  endStatement
  return (name, value)

/-- An expression as a statement, or an assignment to it. -/
def expressionStatement (pos : Pos) : Reader Stmt := do
  let e ← inner.expression
  if ← eat .assign then
    match e with
    | .ident .. | .member .. | .index .. =>
      let value ← inner.expression
      endStatement
      return .assign pos e value
    | _ => fail .invalidTarget e.pos
  else
    endStatement
    return .expr pos e

/-- A statement that is no module declaration. -/
def statement : Reader Stmt := do
  let pos ← here
  match ← token with
  | .keyword .let_ =>
    advance
    let (name, value) ← inner.declaration
    return .declare pos name value
  | .keyword .fn =>
    if (← get).second.isIdent then
      return .fn pos (← inner.function)
    else
      inner.expressionStatement pos
  | .keyword .return_ =>
    advance
    if ← check .semi then
      endStatement
      return .return_ pos none
    else if ← check .rbrace then
      return .return_ pos none
    else
      let value ← inner.expression
      if ← check .rbrace then pure () else endStatement
      return .return_ pos (some value)
  | .keyword .throw_ =>
    advance
    let value ← inner.expression
    endStatement
    return .throw_ pos value
  | .keyword .if_ => inner.conditional
  | _ => inner.expressionStatement pos

/-- Statements in braces; module declarations are refused. -/
def blockBody (dialect : Dialect) : Reader (List Stmt) := do
  expect .lbrace
  let found ← loop (fun found => do
    if ← check .rbrace then return .done found
    match ← token with
    | .eof => unexpected (.mark .rbrace)
    | .mark .semi =>
      advance
      return .again found
    | .keyword .import_ => fail (dialect.refusal .import_) (← here)
    | .keyword .export_ => fail (dialect.refusal .export_) (← here)
    | _ => return .again ((← inner.statement) :: found)) []
  advance
  return found.reverse

/-- An `if` statement; behind `else` comes a block or another `if`. -/
def conditionalBody : Reader Stmt := do
  let pos ← here
  expectKeyword .if_
  expect .lparen
  let cond ← inner.expression
  expect .rparen
  let thenBody ← inner.block
  if ← checkKeyword .else_ then
    advance
    if ← checkKeyword .if_ then
      let nested ← inner.conditional
      return .if_ pos cond thenBody (some [nested])
    else
      let elseBody ← inner.block
      return .if_ pos cond thenBody (some elseBody)
  else
    return .if_ pos cond thenBody none

/-- The readers when no level is left. -/
def exhausted : Nested where
  block := do fail .tooDeep (← here)
  conditional := do fail .tooDeep (← here)
  operand := do fail .tooDeep (← here)

/-- The readers with some levels of nesting left. -/
def ofDepth (dialect : Dialect) : Nat → Nested
  | 0 => exhausted
  | depth + 1 =>
    let inner := ofDepth dialect depth
    ⟨inner.blockBody dialect, inner.conditionalBody, inner.operandBody⟩

/-- A name and another one for it behind `as`, or else the name itself. -/
def paired (first second : Reader String) : Reader (String × String) := do
  let name ← first
  if ← checkKeyword .as_ then
    advance
    return (name, ← second)
  else
    return (name, name)

/-- An imported name, which may be a keyword, and the local one. -/
def importedName : Reader (String × String) := paired propertyName (ident .importedName)

/-- A local name and the exported one, which may be a keyword. -/
def exportedName : Reader (String × String) := paired (ident .exportedName) propertyName

/-- Pairs of names in braces. -/
def nameList (pair : Reader (String × String)) : Reader (List (String × String)) := do
  expect .lbrace
  let names ← commaList .rbrace pair
  expect .rbrace
  return names

/-- The pairs of names in braces of an import. -/
def importedNames : Reader (List (String × String)) := nameList importedName

/-- The pairs of names in braces of an export. -/
def exportedNames : Reader (List (String × String)) := nameList exportedName

/-- The clause of an import between its keyword and `from`. -/
def importClause : Reader ImportClause := do
  match ← token with
  | .ident name =>
    advance
    return .default_ name
  | .mark .star =>
    advance
    expectKeyword .as_
    return .namespace_ (← ident .namespaceName)
  | .mark .lbrace => return .named (← importedNames)
  | _ => unexpected .importClause

/-- An import declaration. -/
def importDeclaration : Reader Item := do
  let pos ← here
  expectKeyword .import_
  match ← token with
  | .str source =>
    advance
    endStatement
    return .import_ pos .sideEffect source
  | _ =>
    let clause ← importClause
    expectKeyword .from_
    let source ← string .moduleSpecifier
    endStatement
    return .import_ pos clause source

/-- What an export declaration exports. -/
def exportForm : Reader ExportForm := do
  match ← token with
  | .keyword .default_ =>
    advance
    if (← checkKeyword .fn) && (← get).second.isIdent then
      return .fn (← inner.function) true
    else
      let value ← inner.expression
      endStatement
      return .default_ value
  | .keyword .fn =>
    if (← get).second.isIdent then
      return .fn (← inner.function) false
    else
      fail .unnamedExport (← here)
  | .keyword .let_ =>
    advance
    let (name, value) ← inner.declaration
    return .declare name value
  | .mark .lbrace =>
    let names ← exportedNames
    endStatement
    return .names names
  | _ => unexpected .exportForm

/-- An export declaration. -/
def exportDeclaration : Reader Item := do
  let pos ← here
  expectKeyword .export_
  return .export_ pos (← inner.exportForm)

/-- Elements up to the end of the text, semicolons between them aside. -/
def elements {α : Type} (element : Reader α) : Reader (List α) := do
  let found ← loop (fun found => do
    match ← token with
    | .eof => return .done found
    | .mark .semi =>
      advance
      return .again found
    | _ => return .again ((← element) :: found)) []
  return found.reverse

/-- A statement at the top level of a core program. -/
def coreElement : Reader Stmt := do
  match ← token with
  | .keyword .import_ => fail (Dialect.core.refusal .import_) (← here)
  | .keyword .export_ => fail (Dialect.core.refusal .export_) (← here)
  | _ => inner.statement

/-- A statement or a module declaration at the top level of a surface program. -/
def surfaceElement : Reader Item := do
  match ← token with
  | .keyword .import_ => importDeclaration
  | .keyword .export_ => inner.exportDeclaration
  | _ => return .stmt (← inner.statement)

end Nested

/-- Reads all tokens of a text. -/
def Reader.run {α : Type} (reader : Reader α) (source : List Char) : Except SyntaxError α := do
  let tokens ← tokenize source
  let (result, _) ← StateT.run reader ⟨none, tokens⟩
  return result

/-- The tree of a core program. -/
def parseCore (source : List Char) : Except SyntaxError (List Stmt) :=
  (Nested.elements (Nested.ofDepth .core maxNesting).coreElement).run source

/-- The tree of a surface program. -/
def parseSurface (source : List Char) : Except SyntaxError (List Item) :=
  (Nested.elements (Nested.ofDepth .surface maxNesting).surfaceElement).run source

end Hotload.Syntax
