import RepoInspector.Decimal.Nearest
import RepoInspector.Settings.Datum
import RepoInspector.Text.Blank
import RepoInspector.Toml.Text

namespace RepoInspector
namespace Settings

/-!
# Data in environment variables

A variable holds data in a notation of its own: truth values, numbers, texts in
double quotes, single characters between apostrophes, sequences in brackets and
maps in braces.  Whatever is not in this notation is a text as it stands.
-/

namespace Variable

/-- Whether a character is skipped around data. -/
def isBlank (c : Char) : Bool :=
  c = ' ' || c = '\t' || c = '\n' || c = '\x0c' || c = '\r'

def skipBlanks (text : List Char) : List Char :=
  text.dropWhile isBlank

/-- Whether a character ends a scalar. -/
def isDelimiter (c : Char) : Bool :=
  [',', '\x7b', '\x7d', '[', ']'].contains c

/-- Whether a character may stand in a name without quotes. -/
def isNameChar (c : Char) : Bool :=
  c.isAlphanum || c = '_' || c = '-'

/-- A sign at the front of a numeral, and whether it is a minus. -/
def splitSign : List Char -> Option Bool × List Char
  | '+' :: rest => (some false, rest)
  | '-' :: rest => (some true, rest)
  | text => (none, text)

/-- The number that digits denote, if there are digits and nothing else. -/
def digits? (text : List Char) : Option Nat :=
  if !text.isEmpty && text.all Char.isDigit then
    some (Decimal.ofDigits text)
  else none

/-- The power of ten that an exponent denotes, if nothing else stands there. -/
def exponent? : List Char -> Option Int
  | [] => some 0
  | c :: rest =>
      if c = 'e' || c = 'E' then
        let (sign, rest) := splitSign rest
        (digits? rest).map fun n => if sign = some true then -(n : Int) else n
      else none

/-- The floating point number of a numeral with a point. -/
def float? (text : List Char) : Option Float := do
  let (sign, rest) := splitSign text
  let whole := rest.takeWhile Char.isDigit
  match rest.drop whole.length with
  | '.' :: rest =>
      let fraction := rest.takeWhile Char.isDigit
      let power ← exponent? (rest.drop fraction.length)
      let digits ← digits? (whole ++ fraction)
      some (Decimal.nearest (sign = some true) digits (power - fraction.length))
  | _ => none

/-- The whole number of a numeral.  One with a minus needs a sign to be kept. -/
def whole? (text : List Char) : Option Scalar := do
  let (sign, rest) := splitSign text
  let n ← digits? rest
  if sign = some true then
    if n ≤ Nat.pow 2 63 then some (.integer (-(n : Int))) else none
  else if n < Nat.pow 2 64 then some (.natural n)
  else none

/-- What a scalar without quotes means. -/
def bare (text : List Char) : Scalar :=
  match float? text, whole? text with
  | some x, _ => .float x
  | none, some number => number
  | none, none => .text (String.ofList text)

/-- The characters at the front of a text that fit into a number of bytes. -/
def takeBytes : Nat -> List Char -> List Char
  | _, [] => []
  | room, c :: rest =>
      if c.utf8Size ≤ room then c :: takeBytes (room - c.utf8Size) rest else []

/-- Read a text after its opening quote.  Of the characters before its first
escape as many bytes are kept as there are characters, so in ASCII all. -/
def quoted? (text : List Char) : Option (String × List Char) :=
  match Toml.oneLine '\x22' true text with
  | .ok (read, rest) =>
      let plain := text.takeWhile fun c => c ≠ '\x22' && c ≠ '\\'
      let escapes := (text.drop plain.length).head? = some '\\'
      let front := if escapes then takeBytes plain.length plain else plain
      some (String.ofList (front ++ read.drop plain.length), rest)
  | .error _ => none

/-- Read the name of an entry. -/
def name? (text : List Char) : Option (String × List Char) :=
  match text with
  | '\x22' :: rest => quoted? rest
  | text =>
      let name := text.takeWhile isNameChar
      if name.isEmpty then none else some (String.ofList name, text.drop name.length)

/-- Read items with commas up to a delimiter, `fuel` of them or less.  A comma
may stand after the last one. -/
def items? (last : Char) (item : List Char -> Option (α × List Char)) :
    Nat -> List Char -> Option (List α × List Char)
  | 0, _ => none
  | _, [] => none
  | fuel + 1, c :: rest =>
      if c = last then some ([], rest)
      else do
        let (first, after) ← item (c :: rest)
        match after with
        | [] => none
        | d :: rest =>
            if d = ',' then do
              let (items, rest) ← items? last item fuel rest
              some (first :: items, rest)
            else if d = last then some ([first], rest)
            else none

/-- A reader of data. -/
abbrev Reader := List Char -> Option (Datum × List Char)

/-- Read a name, an equals sign and data, with blanks around each. -/
def pair? (datum : Reader) (text : List Char) : Option ((String × Datum) × List Char) := do
  let (name, rest) ← name? (skipBlanks text)
  match skipBlanks rest with
  | '=' :: rest => do
      let (datum, rest) ← datum rest
      some ((name, datum), rest)
  | _ => none

/-- A scalar that is read. -/
def scalar (scalar : Scalar) (rest : List Char) : Option (Datum × List Char) :=
  some (.scalar .environment scalar, rest)

/-- Read data that has parts or is a scalar, inside as many others as `fuel`. -/
def datumHere? (datum : Reader) (text : List Char) : Option (Datum × List Char) :=
  match Toml.word? ['t', 'r', 'u', 'e'] text, Toml.word? ['f', 'a', 'l', 's', 'e'] text with
  | some rest, _ => scalar (.boolean true) rest
  | none, some rest => scalar (.boolean false) rest
  | none, none =>
      match text with
      | '\x7b' :: rest => do
          let (entries, rest) ← items? '\x7d' (pair? datum) (rest.length + 1) rest
          some (.map .environment (Datum.layered entries), rest)
      | '[' :: rest => do
          let (_, rest) ← items? ']' datum (rest.length + 1) rest
          some (.sequence .environment, rest)
      | '\x22' :: rest => do
          let (text, rest) ← quoted? rest
          scalar (.text text) rest
      | '\x27' :: c :: '\x27' :: rest => scalar (.character c) rest
      | '\x27' :: _ => none
      | text =>
          let written := text.takeWhile fun c => !isDelimiter c
          scalar (bare (Text.trim written)) (text.drop written.length)

/-- Read data with blanks around it, and inside it data as deep as `fuel`. -/
def datum? : Nat -> Reader
  | 0, _ => none
  | fuel + 1, text => do
      let (datum, rest) ← datumHere? (datum? fuel) (skipBlanks text)
      some (datum, skipBlanks rest)

end Variable

/-- The data in a variable. -/
def Datum.ofVariable (text : String) : Datum :=
  match Variable.datum? (text.length + 1) text.toList with
  | some (datum, []) => datum
  | _ => .scalar .environment (.text text)

end Settings
end RepoInspector
