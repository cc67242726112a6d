import RepoInspector.Proofs.Json.Form

namespace RepoInspector
namespace Json

/-!
# The grammar of documents

A document spells a form when its bytes are the spellings of the form's
lexemes in order, with blanks anywhere between, before and after them.  The
grammar leaves open what the scanner does not record: which blanks there are,
the case of hexadecimal digits and the letter of an exponent.
-/

/-- The bytes of decimal digits. -/
def digitBytes (digits : List Digit) : List UInt8 :=
  digits.map fun digit => UInt8.ofNat (48 + digit.val)

/-- The spelling of one element of a text.  A byte stands for itself unless it
is a quote, a backslash or a control character. -/
inductive Piece.Spelled : Piece -> List UInt8 -> Prop
  | raw {byte : UInt8} (notQuote : byte ≠ quoteByte) (notBackslash : byte ≠ backslash)
      (notControl : ¬ byte < 0x20) : Spelled (.raw byte) [byte]
  | short {letter byte : UInt8} (known : shortEscape? letter = some byte) :
      Spelled (.short byte) [backslash, letter]
  | unit {a b c d : UInt8} {code : UInt16} (known : codeUnit? a b c d = some code) :
      Spelled (.unit code) [backslash, 0x75, a, b, c, d]

/-- The spelling of the pieces of a text, one after the other. -/
inductive Piece.AllSpelled : List Piece -> List UInt8 -> Prop
  | nil : AllSpelled [] []
  | cons {piece : Piece} {pieces : List Piece} {first rest : List UInt8}
      (head : Piece.Spelled piece first) (tail : AllSpelled pieces rest) :
      AllSpelled (piece :: pieces) (first ++ rest)

namespace Numeral

/-- The whole part has a digit, and a leading zero stands alone. -/
structure ProperWhole (digits : List Digit) : Prop where
  some_digit : digits ≠ []
  zero_alone : digits.head? = some 0 -> digits.length = 1

/-- A fraction is a point and at least one digit. -/
inductive FractionSpelled : Option (List Digit) -> List UInt8 -> Prop
  | absent : FractionSpelled none []
  | present {digits : List Digit} (some_digit : digits ≠ []) :
      FractionSpelled (some digits) (0x2e :: digitBytes digits)

def signBytes : Option Sign -> List UInt8
  | none => []
  | some .plus => [0x2b]
  | some .minus => [0x2d]

/-- An exponent is a letter of either case, perhaps a sign, and at least one
digit. -/
inductive ExponentSpelled : Option Exponent -> List UInt8 -> Prop
  | absent : ExponentSpelled none []
  | present {letter : UInt8} {exponent : Exponent} (isLetter : letter = 0x65 ∨ letter = 0x45)
      (some_digit : exponent.digits ≠ []) :
      ExponentSpelled (some exponent)
        (letter :: (signBytes exponent.sign ++ digitBytes exponent.digits))

def minusBytes (negative : Bool) : List UInt8 := if negative then [0x2d] else []

inductive Spelled (numeral : Numeral) : List UInt8 -> Prop
  | intro {fraction exponent : List UInt8} (whole : ProperWhole numeral.whole)
      (fractionPart : FractionSpelled numeral.fraction fraction)
      (exponentPart : ExponentSpelled numeral.exponent exponent) :
      Spelled numeral
        (minusBytes numeral.negative ++ (digitBytes numeral.whole ++ (fraction ++ exponent)))

end Numeral

/-- The spelling of a lexeme of a grammatical document. -/
inductive Lexeme.Spelled : Lexeme -> List UInt8 -> Prop
  | comma : Spelled .comma [0x2c]
  | colon : Spelled .colon [0x3a]
  | arrayStart : Spelled .arrayStart [0x5b]
  | arrayEnd : Spelled .arrayEnd [0x5d]
  | objectStart : Spelled .objectStart [0x7b]
  | objectEnd : Spelled .objectEnd [0x7d]
  | null : Spelled .null [0x6e, 0x75, 0x6c, 0x6c]
  | trueWord : Spelled (.boolean true) [0x74, 0x72, 0x75, 0x65]
  | falseWord : Spelled (.boolean false) [0x66, 0x61, 0x6c, 0x73, 0x65]
  | number {numeral : Numeral} {bytes : List UInt8} (spelled : numeral.Spelled bytes) :
      Spelled (.number numeral) bytes
  | text {pieces : List Piece} {bytes : List UInt8} (spelled : Piece.AllSpelled pieces bytes) :
      Spelled (.closedText pieces) (quoteByte :: (bytes ++ [quoteByte]))

/-- Bytes that are the spellings of lexemes, with blanks around them. -/
inductive Layout : List Lexeme -> List UInt8 -> Prop
  | nil : Layout [] []
  | blank {byte : UInt8} {lexemes : List Lexeme} {bytes : List UInt8}
      (isBlank : isBlankByte byte = true) (rest : Layout lexemes bytes) :
      Layout lexemes (byte :: bytes)
  | lexeme {lexeme : Lexeme} {spelled : List UInt8} {lexemes : List Lexeme}
      {bytes : List UInt8} (first : lexeme.Spelled spelled) (rest : Layout lexemes bytes) :
      Layout (lexeme :: lexemes) (spelled ++ bytes)

/-- The bytes of a document that says just this form. -/
def Form.Written (form : Form) (bytes : List UInt8) : Prop :=
  Layout form.lexemes bytes

theorem Layout.append {first second : List Lexeme} {left right : List UInt8}
    (before : Layout first left) (after : Layout second right) :
    Layout (first ++ second) (left ++ right) := by
  induction before with
  | nil => exact after
  | blank isBlank _ inductionHypothesis => exact .blank isBlank inductionHypothesis
  | lexeme spelled _ inductionHypothesis =>
      rw [List.append_assoc]
      exact .lexeme spelled inductionHypothesis

/-!
## What may follow a number

A numeral ends only where a byte follows that cannot belong to it.  In a form
a number is always followed by a comma, by a closing bracket or brace, or by
nothing, so this never asks for a blank.
-/

/-- Lexemes that may stand right behind a number. -/
def Lexeme.Delimits : Lexeme -> Prop
  | .comma | .arrayEnd | .objectEnd => True
  | _ => False

/-- The first lexeme, if there is one, may stand right behind a number. -/
def Delimited : List Lexeme -> Prop
  | [] => True
  | lexeme :: _ => lexeme.Delimits

/-- Every number is followed by a lexeme that may stand right behind it. -/
def Separated : List Lexeme -> Prop
  | [] => True
  | .number _ :: lexemes => Delimited lexemes ∧ Separated lexemes
  | _ :: lexemes => Separated lexemes

namespace Form

mutual

theorem separated_lexemes (form : Form) (rest : List Lexeme) (delimited : Delimited rest)
    (separated : Separated rest) : Separated (form.lexemes ++ rest) := by
  match form with
  | .null => exact separated
  | .boolean _ => exact separated
  | .number _ => exact ⟨delimited, separated⟩
  | .text _ => exact separated
  | .array items =>
      change Separated ((itemLexemes items ++ [.arrayEnd]) ++ rest)
      rw [List.append_assoc]
      exact separated_itemLexemes items trivial separated
  | .object members =>
      change Separated ((memberLexemes members ++ [.objectEnd]) ++ rest)
      rw [List.append_assoc]
      exact separated_memberLexemes members trivial separated

theorem separated_itemLexemes (items : List Form) {rest : List Lexeme}
    (delimited : Delimited rest) (separated : Separated rest) :
    Separated (itemLexemes items ++ rest) := by
  match items with
  | [] => exact separated
  | item :: items =>
      change Separated ((item.lexemes ++ laterItemLexemes items) ++ rest)
      rw [List.append_assoc]
      have later := separated_laterItemLexemes items delimited separated
      exact separated_lexemes item _ later.1 later.2

theorem separated_laterItemLexemes (items : List Form) {rest : List Lexeme}
    (delimited : Delimited rest) (separated : Separated rest) :
    Delimited (laterItemLexemes items ++ rest) ∧ Separated (laterItemLexemes items ++ rest) := by
  match items with
  | [] => exact ⟨delimited, separated⟩
  | item :: items =>
      refine ⟨trivial, ?_⟩
      change Separated ((item.lexemes ++ laterItemLexemes items) ++ rest)
      rw [List.append_assoc]
      have later := separated_laterItemLexemes items delimited separated
      exact separated_lexemes item _ later.1 later.2

theorem separated_memberLexemes (members : List (List Piece × Form)) {rest : List Lexeme}
    (delimited : Delimited rest) (separated : Separated rest) :
    Separated (memberLexemes members ++ rest) := by
  match members with
  | [] => exact separated
  | (_, form) :: members =>
      change Separated ((form.lexemes ++ laterMemberLexemes members) ++ rest)
      rw [List.append_assoc]
      have later := separated_laterMemberLexemes members delimited separated
      exact separated_lexemes form _ later.1 later.2

theorem separated_laterMemberLexemes (members : List (List Piece × Form)) {rest : List Lexeme}
    (delimited : Delimited rest) (separated : Separated rest) :
    Delimited (laterMemberLexemes members ++ rest) ∧
      Separated (laterMemberLexemes members ++ rest) := by
  match members with
  | [] => exact ⟨delimited, separated⟩
  | (_, form) :: members =>
      refine ⟨trivial, ?_⟩
      change Separated ((form.lexemes ++ laterMemberLexemes members) ++ rest)
      rw [List.append_assoc]
      have later := separated_laterMemberLexemes members delimited separated
      exact separated_lexemes form _ later.1 later.2

end

end Form

end Json
end RepoInspector
