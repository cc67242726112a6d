import RepoInspector.Json.Numeral

namespace RepoInspector
namespace Json

/-!
# Values

A value is what a completely decoded piece of a document denotes.  An object
keeps its members in text order, repeated names included, because which of
them count is decided by the reader of the value and not by the value.
`Value.settled` is the other view of an object, as a dictionary: names in
ascending order, and of members with equal names the last.
-/

inductive Value
  | null
  | boolean (b : Bool)
  | number (n : Number)
  | text (s : String)
  | array (items : List Value)
  | object (members : List (String × Value))

/-- Add a member to a dictionary in ascending order of names, replacing the
member of that name. -/
def putMember (name : String) (value : α) : List (String × α) -> List (String × α)
  | [] => [(name, value)]
  | member :: members =>
      if name < member.1 then (name, value) :: member :: members
      else if name = member.1 then (name, value) :: members
      else member :: putMember name value members

/-- Members as a dictionary, where a later member replaces an earlier one. -/
def dictionary (members : List (String × α)) : List (String × α) :=
  members.foldl (fun known member => putMember member.1 member.2 known) []

namespace Value

mutual

/-- The value with every object in it read as a dictionary. -/
def settled : Value -> Value
  | .null => .null
  | .boolean b => .boolean b
  | .number n => .number n
  | .text s => .text s
  | .array items => .array (settledItems items)
  | .object members => .object (dictionary (settledMembers members))

def settledItems : List Value -> List Value
  | [] => []
  | item :: items => item.settled :: settledItems items

def settledMembers : List (String × Value) -> List (String × Value)
  | [] => []
  | (name, value) :: members => (name, value.settled) :: settledMembers members

end

end Value
end Json
end RepoInspector
