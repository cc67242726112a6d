import RepoInspector.Json.Fault

namespace RepoInspector
namespace Json

/-!
# Spellings of texts

A text is spelled between double quotes as a sequence of pieces: a byte as it
is, a short escape, or a code unit of sixteen bits in hexadecimal.  A reader
that passes a text over only asks that its pieces are well formed; one that
wants the text also joins surrogate code units and checks that the bytes are
encoded characters.  Scanning therefore gives the pieces, and decoding them is
a separate step.
-/

/-- One element of a spelled text. -/
inductive Piece
  /-- A byte that stands for itself. -/
  | raw (byte : UInt8)
  /-- A backslash and a letter, given as the byte it denotes. -/
  | short (byte : UInt8)
  /-- A backslash, the letter u and four hexadecimal digits. -/
  | unit (code : UInt16)
deriving DecidableEq, Repr

/-- How the pieces of a text end. -/
inductive SpellingEnd
  /-- With the closing quote. -/
  | closed
  /-- At a control character, which must be escaped. -/
  | control
  /-- At a backslash that no known letter follows. -/
  | unknownEscape
  /-- At a code unit whose four digits are not hexadecimal. -/
  | unknownUnit
  /-- Where the document ends, or where its supply fails. -/
  | cut (failure : Option String)
deriving DecidableEq, Repr

/-- The pieces of a text up to its end, well formed or not. -/
structure Spelling where
  pieces : List Piece
  ending : SpellingEnd
deriving DecidableEq, Repr

def quoteByte : UInt8 := 0x22

def backslash : UInt8 := 0x5c

/-- The byte that a letter after a backslash denotes. -/
def shortEscape? (letter : UInt8) : Option UInt8 :=
  if letter = 0x22 || letter = 0x5c || letter = 0x2f then some letter
  else if letter = 0x62 then some 0x08
  else if letter = 0x66 then some 0x0c
  else if letter = 0x6e then some 0x0a
  else if letter = 0x72 then some 0x0d
  else if letter = 0x74 then some 0x09
  else none

/-- The value of a hexadecimal digit of either case. -/
def hexValue? (digit : UInt8) : Option UInt16 :=
  if 0x30 ≤ digit && digit ≤ 0x39 then some (digit - 0x30).toUInt16
  else if 0x41 ≤ digit && digit ≤ 0x46 then some (digit - 0x37).toUInt16
  else if 0x61 ≤ digit && digit ≤ 0x66 then some (digit - 0x57).toUInt16
  else none

/-- The code unit that four hexadecimal digits spell. -/
def codeUnit? (a b c d : UInt8) : Option UInt16 := do
  let a ← hexValue? a
  let b ← hexValue? b
  let c ← hexValue? c
  let d ← hexValue? d
  some (4096 * a + 256 * b + 16 * c + d)

namespace Piece

/-- The number of bytes in which a piece is spelled. -/
def width : Piece -> Nat
  | .raw _ => 1
  | .short _ => 2
  | .unit _ => 6

end Piece

namespace Spelling

def add (piece : Piece) (spelling : Spelling) : Spelling :=
  { spelling with pieces := piece :: spelling.pieces }

/-- The spelling that follows an opening quote. -/
def scan (failure : Option String) : List UInt8 -> Spelling
  | [] => ⟨[], .cut failure⟩
  | byte :: bytes =>
      if byte = quoteByte then ⟨[], .closed⟩
      else if byte = backslash then
        match bytes with
        | [] => ⟨[], .cut failure⟩
        | letter :: bytes =>
            if letter = 0x75 then
              match bytes with
              | a :: b :: c :: d :: bytes =>
                  match codeUnit? a b c d with
                  | some code => (scan failure bytes).add (.unit code)
                  | none => ⟨[], .unknownUnit⟩
              | _ => ⟨[], .cut failure⟩
            else
              match shortEscape? letter with
              | some byte => (scan failure bytes).add (.short byte)
              | none => ⟨[], .unknownEscape⟩
      else if byte < 0x20 then ⟨[], .control⟩
      else (scan failure bytes).add (.raw byte)

/-- The number of bytes that the pieces take. -/
def piecesWidth (pieces : List Piece) : Nat :=
  pieces.foldr (fun piece count => piece.width + count) 0

/-- Where the bytes of a text come to an end that is not its closing quote.
`limit` is the number of bytes of the document. -/
def cutFault (limit : Nat) : Option String -> Fault
  | none => .placed .endInText (.after limit)
  | some reason => .placed (.failure reason) (.after limit)

/-- Whether a text that is passed over ends well.  `offset` is the place where
its pieces end. -/
def passEnding (limit offset : Nat) : SpellingEnd -> Except Fault Unit
  | .closed => .ok ()
  | .control => .error (.placed .controlCharacter (.facing offset))
  | .unknownEscape => .error (.placed .badEscape (.after (offset + 2)))
  | .unknownUnit => .error (.placed .badEscape (.after (offset + 6)))
  | .cut failure => .error (cutFault limit failure)

/-- Whether a text that is wanted ends well. -/
def readEnding (limit offset : Nat) : SpellingEnd -> Except Fault Unit
  | .control => .error (.placed .controlCharacter (.after (offset + 1)))
  | ending => passEnding limit offset ending

/-- The fault of a text that ends right after the first half of a surrogate pair. -/
def unpairedEnding (limit offset : Nat) : SpellingEnd -> Fault
  | .closed | .control => .placed .surrogatePairCut (.after (offset + 1))
  | .unknownEscape => .placed .surrogatePairCut (.after (offset + 2))
  | .unknownUnit => .placed .badEscape (.after (offset + 6))
  | .cut failure => cutFault limit failure

/-- Whether a code unit is the first half of a surrogate pair. -/
def isLeading (code : UInt16) : Bool := 0xd800 ≤ code && code ≤ 0xdbff

/-- Whether a code unit is the second half of a surrogate pair. -/
def isTrailing (code : UInt16) : Bool := 0xdc00 ≤ code && code ≤ 0xdfff

/-- The character that a surrogate pair denotes. -/
def pairChar (leading trailing : UInt16) : Char :=
  Char.ofNat ((leading.toNat - 0xd800) * 0x400 + (trailing.toNat - 0xdc00) + 0x10000)

/-- The encoded characters that pieces denote.  `offset` is the place where
the pieces begin. -/
def bytes (limit : Nat) (ending : SpellingEnd) : Nat -> List Piece -> Except Fault (List UInt8)
  | offset, [] => do
      readEnding limit offset ending
      .ok []
  | offset, .raw byte :: pieces => do
      let rest ← bytes limit ending (offset + 1) pieces
      .ok (byte :: rest)
  | offset, .short byte :: pieces => do
      let rest ← bytes limit ending (offset + 2) pieces
      .ok (byte :: rest)
  | offset, .unit code :: pieces =>
      if isTrailing code then .error (.placed .loneSurrogate (.after (offset + 6)))
      else if isLeading code then
        match pieces with
        | [] => .error (unpairedEnding limit (offset + 6) ending)
        | .raw _ :: _ => .error (.placed .surrogatePairCut (.after (offset + 7)))
        | .short _ :: _ => .error (.placed .surrogatePairCut (.after (offset + 8)))
        | .unit second :: pieces =>
            if isTrailing second then do
              let rest ← bytes limit ending (offset + 12) pieces
              .ok (String.utf8EncodeChar (pairChar code second) ++ rest)
            else .error (.placed .loneSurrogate (.after (offset + 12)))
      else do
        let rest ← bytes limit ending (offset + 6) pieces
        .ok (String.utf8EncodeChar (Char.ofNat code.toNat) ++ rest)

/-- Pass over a text whose opening quote is at `start`. -/
def pass (limit start : Nat) (spelling : Spelling) : Except Fault Unit :=
  passEnding limit (start + 1 + piecesWidth spelling.pieces) spelling.ending

/-- The number of bytes at the front that encode whole characters. -/
def encodedWidth (bytes : List UInt8) : Nat :=
  match bytes with
  | [] => 0
  | byte :: rest =>
      match (byte :: rest.take 3).toByteArray.utf8DecodeChar? 0 with
      | some c => c.utf8Size + encodedWidth (rest.drop (c.utf8Size - 1))
      | none => 0
termination_by bytes.length
decreasing_by simp only [List.length_drop, List.length_cons]; omega

/-- The text whose opening quote is at `start`.  The place where its bytes
encode no character is counted back from the closing quote, in bytes of the
text and not of its spelling. -/
def read (limit start : Nat) (spelling : Spelling) : Except Fault String := do
  let encoded ← bytes limit spelling.ending (start + 1) spelling.pieces
  match String.fromUTF8? encoded.toByteArray with
  | some text => .ok text
  | none =>
      let closing := start + 1 + piecesWidth spelling.pieces
      let broken := closing - (encoded.length - encodedWidth encoded)
      .error (.placed .badCodePoint (.after (broken + 1)))

end Spelling
end Json
end RepoInspector
