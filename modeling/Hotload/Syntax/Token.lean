import Hotload.Number.Shortest
import Hotload.Text.Letter
import Hotload.Syntax.Pos

/-!
# Tokens

The words and marks of the script language, and how error messages name them.

* `Keyword.ofWord?`: the keyword that a word spells; some keywords have several spellings.
* `Token.describe`: the name of a token in an error message.
* `isIdentifier`: the shape of an identifier, which keywords have as well.
-/

namespace Hotload.Syntax

open Hotload.Text (isAlphabetic isAlphanumeric)

/-- The reserved words, each of which may have several spellings. -/
inductive Keyword where
  | let_ | fn | return_ | throw_ | if_ | else_ | import_ | export_ | from_ | as_ | default_
  | true_ | false_ | nil
deriving DecidableEq, Repr

namespace Keyword

/-- The first spelling of a keyword, under which error messages show it. -/
def spelling : Keyword → String
  | let_ => "let"
  | fn => "fn"
  | return_ => "return"
  | throw_ => "throw"
  | if_ => "if"
  | else_ => "else"
  | import_ => "import"
  | export_ => "export"
  | from_ => "from"
  | as_ => "as"
  | default_ => "default"
  | true_ => "true"
  | false_ => "false"
  | nil => "nil"

/-- The keyword that a word spells. -/
def ofWord? : String → Option Keyword
  | "let" | "const" | "var" => some let_
  | "fn" | "function" => some fn
  | "return" => some return_
  | "throw" => some throw_
  | "if" => some if_
  | "else" => some else_
  | "import" => some import_
  | "export" => some export_
  | "from" => some from_
  | "as" => some as_
  | "default" => some default_
  | "true" => some true_
  | "false" => some false_
  | "nil" | "null" | "undefined" => some nil
  | _ => none

end Keyword

/-- The punctuation and the operators. -/
inductive Mark where
  | lparen | rparen | lbrace | rbrace | lbracket | rbracket | comma | semi | colon | dot
  | assign | eq | notEq | lt | ltEq | gt | gtEq | plus | minus | star | slash | percent
  | bang | andAnd | orOr
deriving DecidableEq, Repr

/-- The spelling of a mark; equality and inequality may also be written with a third sign. -/
def Mark.spelling : Mark → String
  | lparen => "("
  | rparen => ")"
  | lbrace => "\x7b"
  | rbrace => "\x7d"
  | lbracket => "["
  | rbracket => "]"
  | comma => ","
  | semi => ";"
  | colon => ":"
  | dot => "."
  | assign => "="
  | eq => "=="
  | notEq => "!="
  | lt => "<"
  | ltEq => "<="
  | gt => ">"
  | gtEq => ">="
  | plus => "+"
  | minus => "-"
  | star => "*"
  | slash => "/"
  | percent => "%"
  | bang => "!"
  | andAnd => "&&"
  | orOr => "||"

/-- A token of a program text. -/
inductive Token where
  | ident (name : String)
  | str (value : String)
  | num (value : Float)
  | keyword (k : Keyword)
  | mark (m : Mark)
  /-- The end of the text. -/
  | eof

namespace Token

/-- How error messages name a token. -/
def describe : Token → String
  | ident name => "identifier `" ++ name ++ "`"
  | str _ => "string literal"
  | num x => "number `" ++ Number.text x ++ "`"
  | keyword k => "`" ++ k.spelling ++ "`"
  | mark m => "`" ++ m.spelling ++ "`"
  | eof => "end of input"

/-- The token is this keyword. -/
def isKeyword (k : Keyword) : Token → Bool
  | keyword k' => k = k'
  | _ => false

/-- The token is this mark. -/
def isMark (m : Mark) : Token → Bool
  | mark m' => m = m'
  | _ => false

/-- The token is an identifier. -/
def isIdent : Token → Bool
  | ident _ => true
  | _ => false

/-- The token is the end of the text. -/
def isEof : Token → Bool
  | eof => true
  | _ => false

/-- The token that a word spells: a keyword or else an identifier. -/
def ofWord (word : String) : Token :=
  match Keyword.ofWord? word with
  | some k => keyword k
  | none => ident word

end Token

/-- A token and the position of its first character. -/
structure Lexeme where
  token : Token
  pos : Pos

/-- The character may begin an identifier. -/
def isWordStart (c : Char) : Bool := isAlphabetic c || c = '_' || c = '$'

/-- The character may continue an identifier. -/
def isWordPart (c : Char) : Bool := isAlphanumeric c || c = '_' || c = '$'

/-- The characters have the shape of an identifier. -/
def isIdentifier : List Char → Bool
  | [] => false
  | c :: cs => isWordStart c && cs.all isWordPart

end Hotload.Syntax
