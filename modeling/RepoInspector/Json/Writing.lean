import RepoInspector.Json.Mismatch

namespace RepoInspector
namespace Json

/-!
# Writing values

A value is written in one of two styles that differ only in blanks outside of
texts: compact without any, and laid out with one item or member a line.  A
text is written with a short escape where one exists and with a code unit for
the other control characters; every other character stands for itself.
-/

inductive Style
  | compact
  | pretty
deriving DecidableEq, Repr

namespace Style

/-- What separates the items of a container at a nesting depth. -/
def gap (depth : Nat) : Style -> List Char
  | .compact => []
  | .pretty => '\n' :: List.replicate (2 * depth) ' '

/-- What follows the name of a member. -/
def colon : Style -> List Char
  | .compact => [':']
  | .pretty => [':', ' ']

end Style

/-- The lower case hexadecimal digit of a number below sixteen. -/
def hexDigit (n : Nat) : Char :=
  if n < 10 then Char.ofNat (48 + n) else Char.ofNat (87 + n)

/-- A character as it is written inside a text. -/
def writeChar (c : Char) : List Char :=
  if c = '\x22' then ['\\', '\x22']
  else if c = '\\' then ['\\', '\\']
  else if c = '\x08' then ['\\', 'b']
  else if c = '\t' then ['\\', 't']
  else if c = '\n' then ['\\', 'n']
  else if c = '\x0c' then ['\\', 'f']
  else if c = '\r' then ['\\', 'r']
  else if c.toNat < 32 then
    ['\\', 'u', '0', '0', hexDigit (c.toNat / 16), hexDigit (c.toNat % 16)]
  else [c]

/-- A text between double quotes. -/
def writeText (s : String) : List Char :=
  '\x22' :: s.toList.flatMap writeChar ++ ['\x22']

def Number.write : Number -> List Char
  | .natural n => (toString n.toNat).toList
  | .negative n => (toString n.toInt).toList
  | .float x => (Decimal.payload.text x).toList

namespace Value

mutual

/-- A value at a nesting depth. -/
def write (style : Style) (depth : Nat) : Value -> List Char
  | .null => ['n', 'u', 'l', 'l']
  | .boolean true => ['t', 'r', 'u', 'e']
  | .boolean false => ['f', 'a', 'l', 's', 'e']
  | .number n => n.write
  | .text s => writeText s
  | .array [] => ['[', ']']
  | .array (item :: items) =>
      '[' :: style.gap (depth + 1) ++ item.write style (depth + 1) ++
        writeItems style (depth + 1) items ++ style.gap depth ++ [']']
  | .object [] => ['\x7b', '\x7d']
  | .object ((name, value) :: members) =>
      '\x7b' :: style.gap (depth + 1) ++ writeText name ++ style.colon ++
        value.write style (depth + 1) ++ writeMembers style (depth + 1) members ++
        style.gap depth ++ ['\x7d']

/-- The items after the first one. -/
def writeItems (style : Style) (depth : Nat) : List Value -> List Char
  | [] => []
  | item :: items =>
      ',' :: style.gap depth ++ item.write style depth ++ writeItems style depth items

/-- The members after the first one. -/
def writeMembers (style : Style) (depth : Nat) : List (String × Value) -> List Char
  | [] => []
  | (name, value) :: members =>
      ',' :: style.gap depth ++ writeText name ++ style.colon ++ value.write style depth ++
        writeMembers style depth members

end

/-- The text of a value. -/
def toText (style : Style) (value : Value) : String :=
  String.ofList (value.write style 0)

end Value
end Json
end RepoInspector
