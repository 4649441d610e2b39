import Hotload.Syntax.Tree

/-!
# Module declarations as core statements

The core dialect has no module declarations. This module says what they stand for: an import
declares variables from the value of a `require` call, an export assigns to the `exports` object.

* `lower`: the core program that a surface program stands for.
-/

namespace Hotload.Syntax

/-- The variable that holds the module of the `n`-th import by names. -/
def importTemp (n : Nat) : String := "__import" ++ toString n

/-- `require("source")` -/
def requireCall (pos : Pos) (source : String) : Expr :=
  .call pos (.ident pos "require") [.str pos source]

/-- `exports.exported = value;` -/
def exportAssignment (pos : Pos) (exported : String) (value : Expr) : Stmt :=
  .assign pos (.member pos (.ident pos "exports") exported) value

/-- The statements of an import declaration. -/
def lowerImport (pos : Pos) (temp : String) (source : String) : ImportClause → List Stmt
  | .sideEffect => [.expr pos (requireCall pos source)]
  | .default_ name =>
    [.declare pos name (.call pos (.ident pos "__importDefault") [requireCall pos source])]
  | .namespace_ name => [.declare pos name (requireCall pos source)]
  | .named names =>
    .declare pos temp (requireCall pos source) ::
      names.map fun (imported, name) =>
        .declare pos name (.member pos (.ident pos temp) imported)

/-- The statements of an export declaration. -/
def lowerExport (pos : Pos) : ExportForm → List Stmt
  | .default_ value => [exportAssignment pos "default" value]
  | .fn function isDefault =>
    match function.name with
    | some name =>
      [.fn pos function,
        exportAssignment pos (if isDefault then "default" else name) (.ident pos name)]
    | none => [exportAssignment pos "default" (.fn pos function)]
  | .declare name value => [.declare pos name value, exportAssignment pos name (.ident pos name)]
  | .names names =>
    names.map fun (name, exported) => exportAssignment pos exported (.ident pos name)

/-- The import needs a variable for its module. -/
def Item.takesTemp : Item → Bool
  | .import_ _ (.named _) _ => true
  | _ => false

/-- The statements of an item, when `temps` variables for modules are in use. -/
def Item.lower (temps : Nat) : Item → List Stmt
  | .stmt s => [s]
  | .import_ pos clause source => lowerImport pos (importTemp temps) source clause
  | .export_ pos form => lowerExport pos form

/-- The statements of items, when `temps` variables for modules are in use. -/
def lowerFrom : Nat → List Item → List Stmt
  | _, [] => []
  | temps, item :: items =>
    item.lower temps ++ lowerFrom (if item.takesTemp then temps + 1 else temps) items

/-- The core program that a surface program stands for. -/
def lower (items : List Item) : List Stmt := lowerFrom 0 items

end Hotload.Syntax
