import Hotload.Toml.Basic
import Hotload.Toml.Scalar

/-!
# Reading TOML

A file is a sequence of lines: blank ones, headers of tables, and keys with values. A value may go
on over several lines.

* `Toml.value?`: one value.
* `Toml.parse?`: the members of the table that a file denotes.
-/

namespace Hotload.Toml

/-- The most containers around a value, and the most names in a key. -/
def maxNesting : Nat := 79

/-! ## Keys -/

/-- A character of a name without quotes. -/
def isBare (c : Char) : Bool := c.isAlphanum || c = '-' || c = '_'

/-- A name, bare or in quotes. -/
def name? (cs : List Char) : Option (String × List Char) :=
  match cs.takeWhile isBare with
  | [] => quoted? cs
  | bare => some (String.ofList bare, cs.dropWhile isBare)

/-- A key of at most so many names with dots between them. -/
def key? : Nat → List Char → Option (List String × List Char)
  | 0, _ => none
  | left + 1, cs => do
    let (name, cs) ← name? (skipSpaces cs)
    match skipSpaces cs with
    | '.' :: cs =>
      let (names, cs) ← key? left cs
      return (name :: names, cs)
    | cs => return ([name], cs)

/-- A key and a value with an equals sign between them. -/
def pairOf? (value : List Char → Option (Toml × List Char)) (cs : List Char) :
    Option ((List String × Toml) × List Char) := do
  let (key, cs) ← key? maxNesting cs
  let (item, cs) ← value (skipSpaces (← mark? '=' cs))
  return ((key, item), cs)

/-! ## Values -/

/-- The text behind blanks, line breaks and comments; the count bounds the number of lines. -/
def skipLines : Nat → List Char → List Char
  | 0, cs => cs
  | bound + 1, cs =>
    match skipSpaces cs with
    | [] => []
    | rest =>
      match lineEnd? rest with
      | some rest => skipLines bound rest
      | none => rest

/-- The items of an array behind its opening bracket or a comma; the count bounds their number. -/
def items? (value : List Char → Option (Toml × List Char)) :
    Nat → List Char → Option (List Toml × List Char)
  | 0, _ => none
  | bound + 1, cs =>
    match skipLines bound cs with
    | ']' :: cs => some ([], cs)
    | cs => do
      let (item, cs) ← value cs
      match skipLines bound cs with
      | ',' :: cs =>
        let (items, cs) ← items? value bound cs
        return (item :: items, cs)
      | ']' :: cs => return ([item], cs)
      | _ => none

/-- The pairs of a table in braces behind its opening brace or a comma; the count bounds their
number. -/
def pairs? (value : List Char → Option (Toml × List Char)) :
    Nat → List Char → Option (List (List String × Toml) × List Char)
  | 0, _ => none
  | bound + 1, cs => do
    let (pair, cs) ← pairOf? value cs
    match skipSpaces cs with
    | ',' :: cs =>
      let (pairs, cs) ← pairs? value bound cs
      return (pair :: pairs, cs)
    | '}' :: cs => return ([pair], cs)
    | _ => none

/-- The table of keys and values. -/
def ofPairs? (pairs : List (List String × Toml)) : Option Toml := do
  let members ← pairs.foldlM (fun members (key, value) => addValue key value .stated members) []
  return .table (ofMembers members)

/-- A number or a moment. -/
def number? (cs : List Char) : Option (Toml × List Char) :=
  match moment? cs with
  | some rest => some (.moment, rest)
  | none =>
    match float? cs with
    | some (x, rest) => some (.float x, rest)
    | none => (integer? cs).map fun (n, rest) => (.integer n, rest)

/-- A value inside containers, of which so many more may follow. -/
def value? : Nat → List Char → Option (Toml × List Char)
  | levels, cs =>
    match cs with
    | 't' :: 'r' :: 'u' :: 'e' :: cs => some (.boolean true, cs)
    | 'f' :: 'a' :: 'l' :: 's' :: 'e' :: cs => some (.boolean false, cs)
    | '[' :: cs =>
      match levels with
      | 0 => none
      | levels + 1 => do
        let (items, cs) ← items? (value? levels) (cs.length + 1) cs
        return (.array items, cs)
    | '{' :: cs =>
      match levels with
      | 0 => none
      | levels + 1 =>
        match skipSpaces cs with
        | '}' :: cs => some (.table [], cs)
        | cs => do
          let (pairs, cs) ← pairs? (value? levels) (cs.length + 1) cs
          return (← ofPairs? pairs, cs)
    | cs =>
      match string? cs with
      | some (text, cs) => some (.string text, cs)
      | none => number? cs

/-! ## Files -/

/-- What has been read so far: the entries, and the header above the next line. -/
structure Document where
  members : List (String × Entry)
  header : List String

/-- Adds a value under the current header. -/
def Document.add (doc : Document) (key : List String) (value : Toml) : Option Document := do
  let members ← alter false (addValue key value) doc.header .stated doc.members
  return { doc with members }

/-- Opens the table of a header. -/
def Document.enter (doc : Document) (header : List String) : Option Document := do
  return ⟨← openTable header doc.members, header⟩

/-- Opens an element of the array of tables of a header. -/
def Document.enterElement (doc : Document) (header : List String) : Option Document := do
  return ⟨← openElement header doc.members, header⟩

/-- Takes one line, or the lines of one value, into a document. -/
def Document.line? (doc : Document) (cs : List Char) : Option (Document × List Char) :=
  match cs with
  | '[' :: '[' :: cs => do
    let (header, cs) ← key? maxNesting cs
    return (← doc.enterElement header, ← lineEnd? (← mark? ']' (← mark? ']' cs)))
  | '[' :: cs => do
    let (header, cs) ← key? maxNesting cs
    return (← doc.enter header, ← lineEnd? (← mark? ']' cs))
  | cs =>
    match lineEnd? cs with
    | some rest => some (doc, rest)
    | none => do
      let ((key, value), cs) ← pairOf? (value? maxNesting) cs
      return (← doc.add key value, ← lineEnd? cs)

/-- Takes the lines of a text into a document; the count bounds their number. -/
def Document.lines? : Nat → Document → List Char → Option Document
  | 0, _, _ => none
  | bound + 1, doc, cs =>
    match skipSpaces cs with
    | [] => some doc
    | cs => do
      let (doc, rest) ← doc.line? cs
      lines? bound doc rest

/-- The members of the table that a text denotes. A byte order mark in front counts for
nothing. -/
def parse? (text : List Char) : Option (List (String × Toml)) := do
  let text := match text with
    | '\ufeff' :: cs => cs
    | cs => cs
  let doc ← Document.lines? (text.length + 1) ⟨[], []⟩ text
  return ofMembers doc.members

end Hotload.Toml
