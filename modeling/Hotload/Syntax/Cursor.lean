import Hotload.Syntax.Error

/-!
# Reading tokens

A reader goes over the tokens of a program from left to right, one or two tokens ahead, and stops
at the first fault.

* `Reader`: a computation over the tokens still to come.
* `eat`, `expect`: the two ways to ask for a token.
* `loop`: repetition, bounded by the tokens still to come.
* `commaList`: items with commas between them.
-/

namespace Hotload.Syntax

/-- The tokens still to come, the end of the text among them, and the token before them. -/
structure Cursor where
  previous : Option Token
  rest : List Lexeme

/-- A computation that reads tokens. -/
abbrev Reader := StateT Cursor (Except SyntaxError)

namespace Cursor

/-- The next token. -/
def token (c : Cursor) : Token :=
  match c.rest with
  | [] => .eof
  | lexeme :: _ => lexeme.token

/-- The token after the next one. -/
def second (c : Cursor) : Token :=
  match c.rest with
  | _ :: lexeme :: _ => lexeme.token
  | _ => c.token

/-- The position of the next token. -/
def pos (c : Cursor) : Pos :=
  match c.rest with
  | [] => .start
  | lexeme :: _ => lexeme.pos

/-- The cursor past the next token; the end of the text is never passed. -/
def advance (c : Cursor) : Cursor :=
  match c.rest with
  | [] => c
  | lexeme :: rest => if lexeme.token.isEof then c else ⟨some lexeme.token, rest⟩

end Cursor

namespace Reader

/-- The next token. -/
def token : Reader Token := return (← get).token

/-- The position of the next token. -/
def here : Reader Pos := return (← get).pos

/-- Passes the next token. -/
def advance : Reader Unit := modify Cursor.advance

/-- Stops with a fault at a position. -/
def fail {α : Type} (fault : Fault) (pos : Pos) : Reader α := throw ⟨fault, pos⟩

/-- Stops at the next token, which is not what was asked for. -/
def unexpected {α : Type} (expected : Expected) : Reader α := do
  fail (.unexpected expected (← token)) (← here)

/-- The next token is this mark. -/
def check (m : Mark) : Reader Bool := return (← token).isMark m

/-- The next token is this keyword. -/
def checkKeyword (k : Keyword) : Reader Bool := return (← token).isKeyword k

/-- Passes the mark if it comes next. -/
def eat (m : Mark) : Reader Bool := do
  if ← check m then
    advance
    return true
  else
    return false

/-- Passes the mark, which has to come next. -/
def expect (m : Mark) : Reader Unit := do
  if ← check m then advance else unexpected (.mark m)

/-- Passes the keyword, which has to come next. -/
def expectKeyword (k : Keyword) : Reader Unit := do
  if ← checkKeyword k then advance else unexpected (.keyword k)

/-- An identifier, which has to come next. -/
def ident (expected : Expected) : Reader String := do
  match ← token with
  | .ident name =>
    advance
    return name
  | _ => unexpected expected

/-- A string literal, which has to come next. -/
def string (expected : Expected) : Reader String := do
  match ← token with
  | .str value =>
    advance
    return value
  | _ => unexpected expected

/-- The name of a property, which may be a keyword: it counts by its first spelling. -/
def propertyName : Reader String := do
  match ← token with
  | .ident name =>
    advance
    return name
  | .keyword k =>
    advance
    return k.spelling
  | _ => unexpected .propertyName

/-- The outcome of one round of a loop. -/
inductive Round (σ : Type) where
  | again (state : σ)
  | done (state : σ)

/-- At most one round for each of some tokens, and one more. -/
def rounds {σ : Type} (round : σ → Reader (Round σ)) : List Lexeme → σ → Reader σ
  | [], state => do
    match ← round state with
    | .again state | .done state => return state
  | _ :: ahead, state => do
    match ← round state with
    | .again state => rounds round ahead state
    | .done state => return state

/-- Rounds until one says that it was the last. A round that goes on has passed a token, so the
tokens still to come bound their number. -/
def loop {σ : Type} (round : σ → Reader (Round σ)) (state : σ) : Reader σ := do
  rounds round (← get).rest state

/-- Items with commas between them, up to a closing mark, which is left. A comma may follow the
last item. -/
def commaList {α : Type} (close : Mark) (item : Reader α) : Reader (List α) := do
  let found ← loop (fun found => do
    if ← check close then return .done found
    let x ← item
    if ← eat .comma then return .again (x :: found) else return .done (x :: found)) []
  return found.reverse

/-- Statements end with a semicolon, which may be omitted right after a closing brace. -/
def endStatement : Reader Unit := do
  if ← eat .semi then return
  match (← get).previous with
  | some (.mark .rbrace) => return
  | _ => unexpected (.mark .semi)

/-- Passes the type annotation that a colon begins: a name and any number of bracket pairs. -/
def skipAnnotation : Reader Unit := do
  if ← eat .colon then
    match ← token with
    | .ident _ | .keyword .nil => advance
    | _ => unexpected .typeName
    loop (fun _ => do
      if (← check .lbracket) && (← get).second.isMark .rbracket then
        advance
        advance
        return .again ()
      else
        return .done ()) ()

end Reader

end Hotload.Syntax
