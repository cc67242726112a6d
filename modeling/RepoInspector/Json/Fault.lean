import RepoInspector.Json.Mismatch

namespace RepoInspector
namespace Json

/-!
# Faults of a document

A fault is a cause and the place where it was noticed.  Two readers notice a
fault at slightly different places: one that holds the whole text knows where
it looked, and one that is fed byte by byte knows only how many bytes it was
given, which includes a byte it has looked at and not yet used.  What is shared
by the two, from the structure of a document on, therefore says with a `Mark`
whether the byte at a place has been looked at, and each reader takes from the
mark the count that it has.
-/

/-- How a document is supplied. -/
inductive Medium
  | text
  | stream
deriving DecidableEq, Repr

/-- The number of bytes before a place, as the two media count them.  A count
may exceed the length of the document; it then means its end. -/
structure Mark where
  text : Nat
  stream : Nat
deriving DecidableEq, Repr

namespace Mark

/-- The bytes before `offset` have been used and no further one was looked at. -/
def after (offset : Nat) : Mark := ⟨offset, offset⟩

/-- The byte at `offset` has been looked at and not used. -/
def facing (offset : Nat) : Mark := ⟨offset, offset + 1⟩

def offset (mark : Mark) : Medium -> Nat
  | .text => mark.text
  | .stream => mark.stream

end Mark

/-- A line and a column, where lines count from one and a column counts the
bytes of its line before the place. -/
structure Position where
  line : Nat
  column : Nat
deriving DecidableEq, Repr

def lineFeed : UInt8 := 10

/-- The position after the first `offset` bytes. -/
def positionAfter (bytes : List UInt8) (offset : Nat) : Position :=
  let seen := bytes.take offset
  { line := 1 + seen.count lineFeed
    column := (seen.reverse.takeWhile (· != lineFeed)).length }

/-- The position behind one more byte. -/
def Position.step (position : Position) (byte : UInt8) : Position :=
  if byte = lineFeed then ⟨position.line + 1, 0⟩
  else { position with column := position.column + 1 }

/-- The position of a place.  In a text it is looked for once it is wanted; a
stream carries it along with the bytes that it gives. -/
def Medium.position (bytes : List UInt8) (offset : Nat) : Medium -> Position
  | .text => positionAfter bytes offset
  | .stream => (bytes.take offset).foldl Position.step ⟨1, 0⟩

/-- The broad classes of causes. -/
inductive Category
  | grammar
  | data
  | ended
  | io
deriving DecidableEq, Repr

inductive Cause
  | endInArray
  | endInObject
  | endInText
  | endInValue
  | colonDue
  | commaOrArrayEndDue
  | commaOrObjectEndDue
  | keywordDue
  | valueDue
  | badEscape
  | badNumber
  | numberOutOfRange
  | badCodePoint
  | controlCharacter
  | keyDue
  | loneSurrogate
  | trailingComma
  | trailingCharacters
  | surrogatePairCut
  | tooDeep
  /-- The supply of bytes failed, with the message of that failure. -/
  | failure (reason : String)
  | mismatch (reason : Mismatch)

namespace Cause

def category : Cause -> Category
  | .endInArray | .endInObject | .endInText | .endInValue => .ended
  | .failure _ => .io
  | .mismatch _ => .data
  | _ => .grammar

def message : Cause -> String
  | .endInArray => "EOF while parsing a list"
  | .endInObject => "EOF while parsing an object"
  | .endInText => "EOF while parsing a string"
  | .endInValue => "EOF while parsing a value"
  | .colonDue => "expected `:`"
  | .commaOrArrayEndDue => "expected `,` or `]`"
  | .commaOrObjectEndDue => "expected `,` or `\x7d`"
  | .keywordDue => "expected ident"
  | .valueDue => "expected value"
  | .badEscape => "invalid escape"
  | .badNumber => "invalid number"
  | .numberOutOfRange => "number out of range"
  | .badCodePoint => "invalid unicode code point"
  | .controlCharacter => "control character (\\u0000-\\u001F) found while parsing a string"
  | .keyDue => "key must be a string"
  | .loneSurrogate => "lone leading surrogate in hex escape"
  | .trailingComma => "trailing comma"
  | .trailingCharacters => "trailing characters"
  | .surrogatePairCut => "unexpected end of hex escape"
  | .tooDeep => "recursion limit exceeded"
  | .failure reason => reason
  | .mismatch found => found.message

end Cause

/-- A cause, and where in the document it was noticed if it has a place there. -/
structure Fault where
  cause : Cause
  mark : Option Mark

namespace Fault

def placed (cause : Cause) (mark : Mark) : Fault := ⟨cause, some mark⟩

def ofMismatch (mismatch : Mismatch) (mark : Mark) : Fault :=
  ⟨.mismatch mismatch, some mark⟩

/-- A failure of the supply has no place of its own when nothing is open. -/
def bare (fault : Fault) : Fault :=
  match fault.cause with
  | .failure _ => { fault with mark := none }
  | _ => fault

def category (fault : Fault) : Category := fault.cause.category

/-- The report of a fault in a document. -/
def message (bytes : List UInt8) (medium : Medium) (fault : Fault) : String :=
  match fault.mark with
  | none => fault.cause.message
  | some mark =>
      let place := medium.position bytes (mark.offset medium)
      fault.cause.message ++ " at line " ++ toString place.line ++
        " column " ++ toString place.column

end Fault
end Json
end RepoInspector
