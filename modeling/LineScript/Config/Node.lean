/-!
# Configuration trees

A configuration document is a tree of tables.  Tables come about in four ways, and which of them
may be added to later depends on the way: a table under its own header is complete, an inline
table is closed, a table that only a longer header passes through may still get its own header,
and a table of dotted keys may get more dotted keys.  The functions of this file add to a tree and
refuse what breaks these rules.
-/

namespace LineScript.Config

/-- How a table came about. -/
inductive Origin where
  /-- It has a header of its own. -/
  | header
  /-- A longer header passes through it. -/
  | implied
  /-- A dotted key passes through it. -/
  | dotted
  /-- It is written between braces. -/
  | inline
  deriving DecidableEq, Repr, Inhabited

/-- A value of a document. -/
inductive Node where
  | text (value : String)
  | flag (value : Bool)
  /-- A number, which no setting of this program asks for. -/
  | number
  /-- A date, a time or both, in canonical form. -/
  | moment (value : String)
  | array (items : List Node)
  | table (origin : Origin) (entries : List (String × Node))
  /-- Tables under headers in double brackets, the latest first. -/
  | tables (items : List (List (String × Node)))
  deriving Repr, Inhabited

/-- The entries of a table, each key once. -/
abbrev Entries := List (String × Node)

/-- Changes the entry of a key, or adds one behind the others. -/
def alter (key : String) (change : Option Node → Option Node) : Entries → Option Entries
  | [] => (change none).map fun node => [(key, node)]
  | (other, node) :: rest =>
      if other = key then (change (some node)).map fun node => (other, node) :: rest
      else (alter key change rest).map ((other, node) :: ·)

/-- Changes the table that a header's path leads to.  It leads through the latest of several
tables of one name, and not through inline tables. -/
def within (change : Entries → Option Entries) : (path : List String) → Entries → Option Entries
  | [], entries => change entries
  | key :: path, entries => entries |> alter key fun
      | none => (within change path []).map (.table .implied)
      | some (.table .inline _) => none
      | some (.table origin inner) => (within change path inner).map (.table origin)
      | some (.tables (latest :: older)) =>
          (within change path latest).map fun latest => .tables (latest :: older)
      | some _ => none

/-- Adds the table of a header at the end of its path. -/
def openTable (parents : List String) (key : String) : Entries → Option Entries :=
  within (alter key fun
    | none => some (.table .header [])
    | some (.table .implied entries) => some (.table .header entries)
    | some _ => none) parents

/-- Adds one more table under a header in double brackets. -/
def addTable (parents : List String) (key : String) : Entries → Option Entries :=
  within (alter key fun
    | none => some (.tables [[]])
    | some (.tables items) => some (.tables ([] :: items))
    | some _ => none) parents

/-- Adds a value under a dotted key: `parents` are its parts before the last. -/
def insertDotted (key : String) (value : Node) : (parents : List String) → Entries → Option Entries
  | [], entries => entries |> alter key fun
      | none => some value
      | some _ => none
  | [parent], entries => entries |> alter parent fun
      | none => some (.table .dotted [(key, value)])
      | some (.table .dotted inner) => (insertDotted key value [] inner).map (.table .dotted)
      | some _ => none
  | parent :: next :: parents, entries => entries |> alter parent fun
      | none => (insertDotted key value (next :: parents) []).map (.table .dotted)
      | some (.table .dotted inner) =>
          (insertDotted key value (next :: parents) inner).map (.table .dotted)
      | some (.table .implied inner) =>
          (insertDotted key value (next :: parents) inner).map (.table .implied)
      | some (.tables (latest :: older)) =>
          (insertDotted key value (next :: parents) latest).map fun latest =>
            .tables (latest :: older)
      | some _ => none

end LineScript.Config
