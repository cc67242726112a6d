import RepoInspector.Toml.Value

namespace RepoInspector
namespace Toml

/-!
# Tables

A document gives its tables in pieces: by headers, by keys with several parts,
and between braces.  How a table came about decides what may still be added to
it.  A header may complete a table that only longer headers mention so far, but
never a table that has its own header or that a key with several parts began.
Such a key in turn may not reach into a table with a header or braces.
-/

/-- How a table came about. -/
inductive Origin
  /-- It has its own header. -/
  | header
  /-- The headers of tables inside it mention it. -/
  | mention
  /-- A key with several parts mentions it. -/
  | dotted
deriving DecidableEq, Repr

/-- What stands under a name while the document is not complete. -/
inductive Node
  /-- A value that is complete. -/
  | leaf (value : Value)
  | table (origin : Origin) (entries : List (String × Node))
  /-- Tables under one repeated header, the latest first. -/
  | tables (latest : List (String × Node)) (earlier : List (List (String × Node)))

abbrev Entries := List (String × Node)

namespace Entries

/-- What stands under a name. -/
def find? (name : String) : Entries -> Option Node
  | [] => none
  | entry :: entries => if entry.1 = name then some entry.2 else find? name entries

/-- Put a node under a name, in place of what stands there. -/
def set (name : String) (node : Node) : Entries -> Entries
  | [] => [(name, node)]
  | entry :: entries =>
      if entry.1 = name then (name, node) :: entries else entry :: set name node entries

/-- Change the table at the end of a path of headers.  Tables on the way are
mentioned, and of repeated ones the latest is meant. -/
def within (change : Entries -> Option Entries) : List String -> Entries -> Option Entries
  | [], entries => change entries
  | name :: path, entries => do
      let node ←
        match entries.find? name with
        | none => (within change path []).map (Node.table .mention)
        | some (.leaf _) => none
        | some (.table origin inner) => (within change path inner).map (Node.table origin)
        | some (.tables latest earlier) =>
            (within change path latest).map fun latest => Node.tables latest earlier
      some (set name node entries)

/-- Begin a table under a name. -/
def beginTable (name : String) (entries : Entries) : Option Entries :=
  match entries.find? name with
  | none => some (set name (.table .header []) entries)
  | some (.table .mention inner) => some (set name (.table .header inner) entries)
  | some _ => none

/-- Begin one more table under a repeated header. -/
def beginNext (name : String) (entries : Entries) : Option Entries :=
  match entries.find? name with
  | none => some (set name (.tables [] []) entries)
  | some (.tables latest earlier) => some (set name (.tables [] (latest :: earlier)) entries)
  | some _ => none

/-- Put a value under a name that is free. -/
def put (name : String) (value : Value) (entries : Entries) : Option Entries :=
  match entries.find? name with
  | none => some (set name (.leaf value) entries)
  | some _ => none

/-- Put a value under a key.  All parts but the last name tables that such
keys began, or that this one begins; on the way there it may also pass tables
that are only mentioned, and the latest of repeated ones. -/
def assign (name : String) (value : Value) : List String -> Entries -> Option Entries
  | [], entries => entries.put name value
  | part :: path, entries => do
      let node ←
        match entries.find? part with
        | none => (assign name value path []).map (Node.table .dotted)
        | some (.leaf _) | some (.table .header _) => none
        | some (.table .mention inner) =>
            if path.isEmpty then none
            else (assign name value path inner).map (Node.table .mention)
        | some (.table .dotted inner) =>
            (assign name value path inner).map (Node.table .dotted)
        | some (.tables latest earlier) =>
            if path.isEmpty then none
            else (assign name value path latest).map fun latest => Node.tables latest earlier
      some (set part node entries)

end Entries

/-! ## Complete tables -/

mutual

/-- The value of a node. -/
def Node.value : Node -> Value
  | .leaf value => value
  | .table _ entries => .table (entryValues entries)
  | .tables latest earlier =>
      .array (tableValues earlier [.table (entryValues latest)])

def entryValues : List (String × Node) -> List (String × Value)
  | [] => []
  | (name, node) :: entries => (name, node.value) :: entryValues entries

/-- The values of repeated tables, the latest last. -/
def tableValues : List (List (String × Node)) -> List Value -> List Value
  | [], values => values
  | entries :: earlier, values => tableValues earlier (.table (entryValues entries) :: values)

end

end Toml
end RepoInspector
