import RepoInspector.Toml.Number
import RepoInspector.Toml.Table

namespace RepoInspector
namespace Toml

/-!
# Reading keys and values

A value that is missing in an array is no fault of its own: the array then has
to end before it.  The same holds for a key that is missing between braces.
Every other fault ends the reading.
-/

/-- The names of a key, the last one apart. -/
structure Key where
  path : List String
  name : String
deriving DecidableEq, Repr

/-- How many arrays and tables may be open at once, and how many parts a key
may have. -/
def nestingLimit : Nat := 79

def isBareChar (c : Char) : Bool :=
  c.isAlphanum || c = '_' || c = '-'

/-- A text that is read, as a string. -/
def joined : Except Fault (List Char × List Char) -> Except Fault (String × List Char)
  | .ok (text, rest) => .ok (String.ofList text, rest)
  | .error fault => .error fault

/-- Read one part of a key. -/
def keyPart : List Char -> Except Fault (String × List Char)
  | [] => .error (.open [])
  | c :: rest =>
      if c = '\x22' then joined (oneLine c true rest)
      else if c = '\x27' then joined (oneLine c false rest)
      else if isBareChar c then
        .ok (String.ofList (c :: rest.takeWhile isBareChar), rest.dropWhile isBareChar)
      else .error (.open (c :: rest))

/-- Read further parts of a key, `fuel` of them.  A point that no part follows
is left. -/
def moreParts : Nat -> List Char -> Except Fault (List String × List Char)
  | 0, text => .ok ([], text)
  | fuel + 1, text =>
      match skipSpaces text with
      | '.' :: rest =>
          match keyPart (skipSpaces rest) with
          | .ok (part, rest) => do
              let (parts, rest) ← moreParts fuel rest
              .ok (part :: parts, rest)
          | .error fault => if fault.final then .error fault else .ok ([], '.' :: rest)
      | rest => .ok ([], rest)

/-- Split a first part and further ones before the last. -/
def Key.ofParts (part : String) (parts : List String) : Key :=
  match parts with
  | [] => ⟨[], part⟩
  | next :: parts =>
      let key := Key.ofParts next parts
      ⟨part :: key.path, key.name⟩

/-- Read a key. -/
def key (text : List Char) : Except Fault (Key × List Char) := do
  let (part, rest) ← keyPart (skipSpaces text)
  let (parts, rest) ← moreParts text.length rest
  if nestingLimit ≤ parts.length then .error (.open text)
  else .ok (.ofParts part parts, rest)

/-- A reader of values. -/
abbrev ValueReader := List Char -> Except Fault (Value × List Char)

/-- Read an item of an array with what stands around it, if there is one. -/
def item (value : ValueReader) (text : List Char) : Except Fault (Option (Value × List Char)) :=
  match skipLines false text with
  | .error _ => .ok none
  | .ok rest =>
      match value rest with
      | .error fault => if fault.final then .error fault else .ok none
      | .ok (value, rest) =>
          match skipLines false rest with
          | .error _ => .ok none
          | .ok rest => .ok (some (value, rest))

/-- Read further items of an array, `fuel` of them.  A comma that no item
follows is left. -/
def moreItems (value : ValueReader) : Nat -> List Char -> Except Fault (List Value × List Char)
  | 0, text => .ok ([], text)
  | fuel + 1, text =>
      match text with
      | ',' :: rest => do
          match ← item value rest with
          | some (first, rest) => do
              let (items, rest) ← moreItems value fuel rest
              .ok (first :: items, rest)
          | none => .ok ([], ',' :: rest)
      | text => .ok ([], text)

/-- The rest after a comma, or the text itself without one. -/
def skipComma : List Char -> List Char
  | ',' :: rest => rest
  | text => text

/-- Read an array after its opening bracket. -/
def array (value : ValueReader) (text : List Char) : Except Fault (Value × List Char) := do
  let (items, rest) ←
    match ← item value text with
    | none => .ok ([], text)
    | some (first, rest) => do
        let (items, rest) ← moreItems value text.length rest
        .ok (first :: items, skipComma rest)
  let rest ← settle (skipLines false rest)
  let rest ← expect ']' rest
  .ok (.array items, rest)

/-- Read an equals sign and a value, with spaces around both. -/
def assigned (value : ValueReader) (text : List Char) : Except Fault (Value × List Char) := do
  let rest ← expect '=' text
  let (value, rest) ← settle (value (skipSpaces rest))
  .ok (value, skipSpaces rest)

/-- Read a key and its value between braces, if a key stands here. -/
def pair (value : ValueReader) (text : List Char) :
    Except Fault (Option ((Key × Value) × List Char)) :=
  match key text with
  | .error fault => if fault.final then .error fault else .ok none
  | .ok (key, rest) => do
      let (value, rest) ← assigned value rest
      .ok (some ((key, value), rest))

/-- Read further pairs between braces, `fuel` of them.  A comma that no key
follows is left. -/
def morePairs (value : ValueReader) : Nat -> List Char ->
    Except Fault (List (Key × Value) × List Char)
  | 0, text => .ok ([], text)
  | fuel + 1, text =>
      match text with
      | ',' :: rest => do
          match ← pair value rest with
          | some (first, rest) => do
              let (pairs, rest) ← morePairs value fuel rest
              .ok (first :: pairs, rest)
          | none => .ok ([], ',' :: rest)
      | text => .ok ([], text)

/-- The table of pairs, if every one can be put into it. -/
def tableOf (pairs : List (Key × Value)) : Option Entries :=
  pairs.foldlM (fun entries pair => entries.assign pair.1.name pair.2 pair.1.path) []

/-- Read a table after its opening brace. -/
def braces (value : ValueReader) (text : List Char) : Except Fault (Value × List Char) := do
  let (pairs, rest) ←
    match ← pair value text with
    | none => .ok ([], text)
    | some (first, rest) => do
        let (pairs, rest) ← morePairs value text.length rest
        .ok (first :: pairs, rest)
  match tableOf pairs with
  | none => .error (.closed text)
  | some entries => do
      let rest ← expect '\x7d' (skipSpaces rest)
      .ok (.table (entryValues entries), rest)

/-- Read a text as a value. -/
def textValue (delimiter : Char) (escapes : Bool) (text : List Char) :
    Except Fault (Value × List Char) := do
  let (text, rest) ← joined (anyLines delimiter escapes text)
  .ok (.text text, rest)

/-- Read a word that only one value begins with. -/
def wordValue (word : List Char) (value : Value) (text : List Char) :
    Except Fault (Value × List Char) :=
  match word? word text with
  | some rest => .ok (value, rest)
  | none => .error (.closed text)

/-- Read a value, with room for `depth` arrays and tables inside each other. -/
def value : Nat -> ValueReader
  | _, [] => .error (.open [])
  | depth, c :: rest =>
      if c = '\x22' then textValue c true rest
      else if c = '\x27' then textValue c false rest
      else if c = '[' then
        match depth with
        | 0 => .error (.open (c :: rest))
        | depth + 1 => array (value depth) rest
      else if c = '\x7b' then
        match depth with
        | 0 => .error (.open (c :: rest))
        | depth + 1 => braces (value depth) rest
      else if c = '+' || c = '-' || c.isDigit then numberOrMoment (c :: rest)
      else if c = 't' then wordValue ['t', 'r', 'u', 'e'] (.boolean true) (c :: rest)
      else if c = 'f' then wordValue ['f', 'a', 'l', 's', 'e'] (.boolean false) (c :: rest)
      else
        match namedFloat? (c :: rest) with
        | some found => .ok found
        | none => .error (.open (c :: rest))

end Toml
end RepoInspector
