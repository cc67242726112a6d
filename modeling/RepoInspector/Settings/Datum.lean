import RepoInspector.Toml.Value

namespace RepoInspector
namespace Settings

/-!
# Data that is set

What a settings file or the environment sets is data with its source.  Data of
several layers is laid over each other: maps are joined key by key, anything
else replaces what is below it.
-/

/-- Where data comes from. -/
inductive Source
  /-- A settings file, as it is shown. -/
  | file (shown : String)
  | environment
deriving DecidableEq, Repr

/-- Data that has no parts. -/
inductive Scalar
  | text (s : String)
  | character (c : Char)
  | boolean (b : Bool)
  /-- A number that is read as one without a sign. -/
  | natural (n : Nat)
  /-- A number that is read as one with a sign. -/
  | integer (n : Int)
  | float (x : Float)

inductive Datum
  | scalar (source : Source) (scalar : Scalar)
  /-- A sequence, of which nothing is looked at. -/
  | sequence (source : Source)
  | map (source : Source) (entries : List (String × Datum))

/-- Names with data, in ascending order of names. -/
abbrev Entries := List (String × Datum)

namespace Datum

def source : Datum -> Source
  | .scalar source _ => source
  | .sequence source => source
  | .map source _ => source

/-- Combine what stands under a name with what is there already, and keep the
order of names. -/
def insertWith (combine : α -> α) (name : String) (a : α) : List (String × α) ->
    List (String × α)
  | [] => [(name, a)]
  | entry :: entries =>
      if name < entry.1 then (name, a) :: entry :: entries
      else if name = entry.1 then (name, combine entry.2) :: entries
      else entry :: insertWith combine name a entries

mutual

/-- Lay data over other data. -/
def cover : Datum -> Datum -> Datum
  | .map source upper, .map _ lower => .map source (coverEntries upper lower)
  | upper, _ => upper

/-- Lay entries over other entries. -/
def coverEntries : List (String × Datum) -> List (String × Datum) -> List (String × Datum)
  | [], lower => lower
  | (name, upper) :: entries, lower =>
      insertWith upper.cover name upper (coverEntries entries lower)

end

/-- Entries of which a later one is laid over an earlier one of its name. -/
def layered (entries : List (String × Datum)) : Entries :=
  entries.foldl (fun lower entry => coverEntries [entry] lower) []

/-- The name that a date or a time has where names are looked at. -/
def momentName : String := "$__toml_private_datetime"

mutual

/-- The data of a value in a settings file. -/
def ofValue (source : Source) : Toml.Value -> Datum
  | .text s => .scalar source (.text s)
  | .integer n => .scalar source (.integer n)
  | .float x => .scalar source (.float x)
  | .boolean b => .scalar source (.boolean b)
  | .moment => .map source [(momentName, .sequence source)]
  | .array _ => .sequence source
  | .table entries => .map source (layered (ofEntries source entries))

def ofEntries (source : Source) : List (String × Toml.Value) -> List (String × Datum)
  | [] => []
  | (name, value) :: entries => (name, ofValue source value) :: ofEntries source entries

end

end Datum
end Settings
end RepoInspector
