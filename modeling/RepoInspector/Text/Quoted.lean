import RepoInspector.Text.Visible

namespace RepoInspector
namespace Text

/-!
# Quotations in error reports

A report that names a text from its input puts it in double quotes and
spells out whatever would be invisible or would end the quotation early.
Names and numbers stand between lighter marks, as they are.
-/

/-- The letters of a hexadecimal numeral without leading zeros. -/
def hexadecimal (n : Nat) : List Char :=
  Nat.toDigits 16 n

/-- A character as it stands inside a quotation. -/
def quoteChar (c : Char) : List Char :=
  if c = '\x00' then ['\\', '0']
  else if c = '\t' then ['\\', 't']
  else if c = '\n' then ['\\', 'n']
  else if c = '\r' then ['\\', 'r']
  else if c = '\x22' then ['\\', '\x22']
  else if c = '\\' then ['\\', '\\']
  else if isVisible c then [c]
  else ['\\', 'u', '\x7b'] ++ hexadecimal c.toNat ++ ['\x7d']

/-- A text between double quotes. -/
def quote (s : String) : String :=
  String.ofList ('\x22' :: s.toList.flatMap quoteChar ++ ['\x22'])

/-- A name or number between the marks that set it off from a message. -/
def marked (text : String) : String :=
  "`" ++ text ++ "`"

end Text
end RepoInspector
