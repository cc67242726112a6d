import RepoInspector.Json.Spelling

namespace RepoInspector
namespace Json

/-!
# Tokens

A document is first cut into tokens.  Every byte belongs to a token or is
blank, and the list ends with a token that says how the document ends: where
nothing is left, where its supply failed, or at a token that is not well
formed.  Nothing after a malformed token can matter, because every reader
stops there.

Whether a malformed token is a fault of one kind or another can depend on
whether it is read or passed over, so such a token carries both faults.
-/

inductive Lexeme
  | comma
  | colon
  | arrayStart
  | arrayEnd
  | objectStart
  | objectEnd
  | null
  | boolean (b : Bool)
  | number (numeral : Numeral)
  | text (spelling : Spelling)
  /-- A keyword or number that breaks off. -/
  | malformed (read pass : Fault)
  /-- A byte that begins no token. -/
  | stray
  /-- The end of the document, or the failure of its supply. -/
  | finish (failure : Option String)

/-- A lexeme, and the bytes before its first and after its last one. -/
structure Token where
  lexeme : Lexeme
  start : Nat
  stop : Nat

def isBlankByte (byte : UInt8) : Bool :=
  byte = 0x20 || byte = 0x0a || byte = 0x09 || byte = 0x0d

/-- The digit that a byte spells. -/
def digit? (byte : UInt8) : Option Digit :=
  if 0x30 ≤ byte && byte ≤ 0x39 then some (Fin.ofNat 10 (byte.toNat - 0x30)) else none

/-- The digits at the front of the bytes. -/
def leadingDigits : List UInt8 -> List Digit
  | [] => []
  | byte :: bytes =>
      match digit? byte with
      | some digit => digit :: leadingDigits bytes
      | none => []

namespace Numeral

/-- The whole part of a numeral.  A leading zero stands alone.  The error is
the number of good bytes before the one that breaks the numeral off. -/
def scanWhole (bytes : List UInt8) : Except Nat (List Digit) :=
  match leadingDigits bytes with
  | [] => .error 0
  | digit :: digits =>
      if digit = 0 && !digits.isEmpty then .error 1 else .ok (digit :: digits)

/-- A point and at least one digit, or nothing. -/
def scanFraction (bytes : List UInt8) : Except Nat (Option (List Digit)) :=
  match bytes with
  | [] => .ok none
  | byte :: bytes =>
      if byte = 0x2e then
        match leadingDigits bytes with
        | [] => .error 1
        | digits => .ok (some digits)
      else .ok none

/-- The letter of an exponent, perhaps a sign, and at least one digit, or nothing. -/
def scanExponent (bytes : List UInt8) : Except Nat (Option Exponent) :=
  match bytes with
  | [] => .ok none
  | byte :: bytes =>
      if byte = 0x65 || byte = 0x45 then
        let sign : Option Sign :=
          match bytes with
          | [] => none
          | byte :: _ =>
              if byte = 0x2b then some .plus else if byte = 0x2d then some .minus else none
        let signWidth := if sign.isSome then 1 else 0
        match leadingDigits (bytes.drop signWidth) with
        | [] => .error (1 + signWidth)
        | digits => .ok (some { sign, digits })
      else .ok none

/-- Move a count of good bytes by the bytes that are already read. -/
def shiftError (width : Nat) : Except Nat α -> Except Nat α
  | .ok a => .ok a
  | .error count => .error (width + count)

/-- The numeral at the front of the bytes. -/
def scan (bytes : List UInt8) : Except Nat Numeral := do
  let negative := bytes.head? == some 0x2d
  let signWidth := if negative then 1 else 0
  let whole ← shiftError signWidth (scanWhole (bytes.drop signWidth))
  let wholeWidth := signWidth + whole.length
  let fraction ← shiftError wholeWidth (scanFraction (bytes.drop wholeWidth))
  let fractionWidth := wholeWidth + (fraction.map fun digits => 1 + digits.length).getD 0
  let exponent ← shiftError fractionWidth (scanExponent (bytes.drop fractionWidth))
  .ok { negative, whole, fraction, exponent }

end Numeral

/-- How a keyword compares with the bytes that should spell the rest of it. -/
inductive WordMatch
  | whole
  | departs (index : Nat)
  | ends
deriving DecidableEq, Repr

def matchWord (index : Nat) : List UInt8 -> List UInt8 -> WordMatch
  | [], _ => .whole
  | _ :: _, [] => .ends
  | letter :: word, byte :: bytes =>
      if letter = byte then matchWord (index + 1) word bytes else .departs index

/-- The bytes of a document, and the failure that cut their supply short. -/
structure Supply where
  bytes : List UInt8
  failure : Option String

/-- The fault of a document that ends where more is due. -/
def endFault (cause : Cause) (limit : Nat) : Option String -> Fault
  | none => .placed cause (.after limit)
  | some reason => .placed (.failure reason) (.after limit)

namespace Lexeme

/-- Whether nothing after this lexeme is looked at. -/
def isLast : Lexeme -> Bool
  | .malformed _ _ | .stray | .finish _ => true
  | .text spelling => spelling.ending != .closed
  | _ => false

/-- A keyword whose first letter is read, and the number of its bytes. -/
def keyword (limit : Nat) (failure : Option String) (start : Nat) (word : List UInt8)
    (meaning : Lexeme) (bytes : List UInt8) : Lexeme × Nat :=
  match matchWord 1 word bytes with
  | .whole => (meaning, 1 + word.length)
  | .departs index =>
      let fault := .placed .keywordDue (.after (start + index + 1))
      (.malformed fault fault, index + 1)
  | .ends =>
      let fault := endFault .endInValue limit failure
      (.malformed fault fault, 1 + bytes.length)

/-- A numeral, and the number of its bytes.  A numeral that reaches the place
where the supply failed may be incomplete. -/
def numeral (limit : Nat) (failure : Option String) (start : Nat) (bytes : List UInt8) :
    Lexeme × Nat :=
  match Numeral.scan bytes with
  | .ok numeral =>
      if failure.isSome && limit ≤ start + numeral.width then
        let fault := endFault .endInValue limit failure
        (.malformed fault fault, numeral.width)
      else (.number numeral, numeral.width)
  | .error count =>
      if limit ≤ start + count then
        (.malformed (endFault .endInValue limit failure) (endFault .badNumber limit failure),
          count)
      else
        let fault := .placed .badNumber (.after (start + count + 1))
        (.malformed fault fault, count + 1)

/-- The number of bytes of a text with its quotes, or up to the byte at which
it is not well formed. -/
def textWidth (spelling : Spelling) (available : Nat) : Nat :=
  match spelling.ending with
  | .closed | .control => 2 + Spelling.piecesWidth spelling.pieces
  | .unknownEscape => 3 + Spelling.piecesWidth spelling.pieces
  | .unknownUnit => 7 + Spelling.piecesWidth spelling.pieces
  | .cut _ => 1 + available

/-- The lexeme that begins with `byte` at `start`, and the number of its bytes. -/
def scan (limit : Nat) (failure : Option String) (start : Nat) (byte : UInt8)
    (bytes : List UInt8) : Lexeme × Nat :=
  if byte = 0x2c then (.comma, 1)
  else if byte = 0x3a then (.colon, 1)
  else if byte = 0x5b then (.arrayStart, 1)
  else if byte = 0x5d then (.arrayEnd, 1)
  else if byte = 0x7b then (.objectStart, 1)
  else if byte = 0x7d then (.objectEnd, 1)
  else if byte = 0x6e then keyword limit failure start [0x75, 0x6c, 0x6c] .null bytes
  else if byte = 0x74 then keyword limit failure start [0x72, 0x75, 0x65] (.boolean true) bytes
  else if byte = 0x66 then
    keyword limit failure start [0x61, 0x6c, 0x73, 0x65] (.boolean false) bytes
  else if byte = quoteByte then
    let spelling := Spelling.scan failure bytes
    (.text spelling, textWidth spelling bytes.length)
  else if byte = 0x2d || (digit? byte).isSome then
    numeral limit failure start (byte :: bytes)
  else (.stray, 1)

end Lexeme

namespace Token

/-- The tokens of the bytes from `start` on. -/
def scan (limit : Nat) (failure : Option String) (start : Nat) : List UInt8 -> List Token
  | [] => [⟨.finish failure, start, start⟩]
  | byte :: bytes =>
      if isBlankByte byte then scan limit failure (start + 1) bytes
      else
        let found := Lexeme.scan limit failure start byte bytes
        let token : Token := ⟨found.1, start, start + found.2⟩
        if found.1.isLast then [token]
        else token :: scan limit failure (start + 1 + (found.2 - 1)) (bytes.drop (found.2 - 1))
termination_by bytes => bytes.length
decreasing_by
  · simp
  · simp only [List.length_drop, List.length_cons]; omega

/-- The fault of a token that stands where another is due: the document ends
too early, or the token is the wrong one. -/
def unexpected (ended wrong : Cause) (token : Token) : Fault :=
  match token.lexeme with
  | .finish failure => endFault ended token.start failure
  | _ => .placed wrong (.after (token.start + 1))

/-- Where a reader stands that has looked at a token without using it, or has
used it because it closes what was being read. -/
def closingMark (token : Token) : Mark :=
  match token.lexeme with
  | .arrayEnd | .objectEnd => .after token.stop
  | _ => .facing token.start

/-- Where a reader stands after a scalar.  A number ends only where a byte
that does not belong to it is seen. -/
def scalarMark (token : Token) : Mark :=
  match token.lexeme with
  | .number _ => .facing token.stop
  | _ => .after token.stop

/-- The mark of a number that is out of range. -/
def rangeMark (numeral : Numeral) (token : Token) : RangeFault -> Mark
  | .whole => .facing token.stop
  | .exponentDigits count =>
      let digits := (numeral.exponent.map fun exponent => exponent.digits.length).getD 0
      .after (token.stop - (digits - count))

/-- Pass over a scalar. -/
def pass (token : Token) : Except Fault Unit :=
  match token.lexeme with
  | .null | .boolean _ | .number _ => .ok ()
  | .text spelling => spelling.pass token.stop token.start
  | .malformed _ fault => .error fault
  | _ => .error (token.unexpected .endInValue .valueDue)

/-- The value of a scalar. -/
def read (token : Token) : Except Fault Value :=
  match token.lexeme with
  | .null => .ok .null
  | .boolean b => .ok (.boolean b)
  | .number numeral =>
      match numeral.number with
      | .ok n => .ok (.number n)
      | .error fault => .error (.placed .numberOutOfRange (token.rangeMark numeral fault))
  | .text spelling => do
      let text ← spelling.read token.stop token.start
      .ok (.text text)
  | .malformed fault _ => .error fault
  | _ => .error (token.unexpected .endInValue .valueDue)

end Token

/-- The tokens of a document. -/
def Supply.tokens (supply : Supply) : List Token :=
  Token.scan supply.bytes.length supply.failure 0 supply.bytes

end Json
end RepoInspector
