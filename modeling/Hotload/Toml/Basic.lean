/-!
# TOML values

* `Toml`: the values that a configuration file holds.
* `Toml.Entry`: what stands under a key while a file is read, where tables are still open.
-/

namespace Hotload

/-- A value of a configuration file. A date, a time, or both are only known to be one. -/
inductive Toml where
  | boolean (value : Bool)
  | integer (value : Int)
  | float (value : Float)
  | string (value : String)
  | moment
  | array (items : List Toml)
  | table (members : List (String × Toml))

namespace Toml

/-- How a table came to be, which decides what may still be added to it. -/
inductive Origin where
  /-- By a header or braces of its own. -/
  | stated
  /-- As a step of the header of another table. -/
  | passed
  /-- As a step of a dotted key. -/
  | dotted
deriving DecidableEq

/-- What stands under a key while a file is read. -/
inductive Entry where
  | value (value : Toml)
  | table (origin : Origin) (members : List (String × Entry))
  /-- The elements that headers in double brackets have opened. -/
  | tables (elements : List (List (String × Entry)))

mutual

/-- The value of an entry. -/
def Entry.toToml : Entry → Toml
  | .value value => value
  | .table _ members => .table (ofMembers members)
  | .tables elements => .array (ofElements elements)

/-- The values of a table's entries. -/
def ofMembers : List (String × Entry) → List (String × Toml)
  | [] => []
  | (key, entry) :: members => (key, entry.toToml) :: ofMembers members

/-- The tables of an array of tables. -/
def ofElements : List (List (String × Entry)) → List Toml
  | [] => []
  | members :: elements => .table (ofMembers members) :: ofElements elements

end

/-- The members with another entry under an existing key. -/
def replaceEntry (key : String) (entry : Entry) (members : List (String × Entry)) :
    List (String × Entry) :=
  members.map fun member => if member.1 = key then (key, entry) else member

/-- Changes the table that a path of keys leads to, and makes the tables that are missing on the
way. The path ends in the last element of an array of tables, and a dotted key leads into no table
that is stated elsewhere. -/
def alter (dotted : Bool) (change : Origin → List (String × Entry) → Option (List (String × Entry))) :
    List String → Origin → List (String × Entry) → Option (List (String × Entry))
  | [], origin, members => change origin members
  | key :: keys, _, members =>
    match members.lookup key with
    | none => do
      let origin := if dotted then .dotted else .passed
      return members ++ [(key, .table origin (← alter dotted change keys origin []))]
    | some (.value _) => none
    | some (.table origin inner) =>
      if dotted && origin = .stated then none
      else do return replaceEntry key (.table origin (← alter dotted change keys origin inner)) members
    | some (.tables elements) => do
      let last ← alter dotted change keys .stated (← elements.getLast?)
      return replaceEntry key (.tables (elements.dropLast ++ [last])) members

/-- Adds a value under a dotted key. Only dotted keys lead to a table that dotted keys have made. -/
def addValue (key : List String) (value : Toml) (origin : Origin) (members : List (String × Entry)) :
    Option (List (String × Entry)) := do
  let last ← key.getLast?
  let path := key.dropLast
  alter true (fun origin members =>
    if (origin = .dotted) = (path = []) then none
    else if (members.lookup last).isSome then none
    else some (members ++ [(last, .value value)])) path origin members

/-- Opens the table of a header. A table that has only been passed so far is opened then. -/
def openTable (key : List String) (members : List (String × Entry)) :
    Option (List (String × Entry)) := do
  let last ← key.getLast?
  alter false (fun _ members =>
    match members.lookup last with
    | none => some (members ++ [(last, .table .stated [])])
    | some (.table .passed inner) => some (replaceEntry last (.table .stated inner) members)
    | some _ => none) key.dropLast .stated members

/-- Opens another element of an array of tables. -/
def openElement (key : List String) (members : List (String × Entry)) :
    Option (List (String × Entry)) := do
  let last ← key.getLast?
  alter false (fun _ members =>
    match members.lookup last with
    | none => some (members ++ [(last, .tables [[]])])
    | some (.tables elements) => some (replaceEntry last (.tables (elements ++ [[]])) members)
    | some _ => none) key.dropLast .stated members

end Toml

end Hotload
