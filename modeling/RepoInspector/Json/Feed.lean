import RepoInspector.Json.Tree

namespace RepoInspector
namespace Json

/-!
# Feeds

A stream hands out its bytes one at a time.  Whoever reads it may look at one
byte before using it, sees nothing behind that byte, and learns that there is
no further one, or that the supply has failed, only by asking for it.  So this
scanner works through a document byte by byte and knows two counts: the bytes
used, and the bytes given, which include one that is looked at.  The scanner
of a text, which has all bytes in hand, is another one, and it is a theorem
that the two find the same tokens.

The byte at which a token turns out to be malformed counts as used.
-/

structure Feed where
  /-- The byte that is looked at and not yet used. -/
  ahead : Option UInt8
  /-- The bytes that are not yet given. -/
  upcoming : List UInt8
  /-- The failure in which the bytes end, if they do. -/
  failure : Option String
  /-- The number of bytes used. -/
  used : Nat

namespace Feed

def ofSupply (supply : Supply) : Feed := ⟨none, supply.bytes, supply.failure, 0⟩

/-- The bytes that are not yet used. -/
def left (feed : Feed) : List UInt8 := feed.ahead.toList ++ feed.upcoming

/-- The number of bytes given. -/
def given (feed : Feed) : Nat := feed.used + feed.ahead.toList.length

/-- Look at the next byte. -/
def peek (feed : Feed) : Option UInt8 × Feed :=
  match feed.ahead with
  | some byte => (some byte, feed)
  | none =>
      match feed.upcoming with
      | byte :: upcoming => (some byte, { feed with ahead := some byte, upcoming })
      | [] => (none, feed)

/-- Use the byte that is looked at. -/
def discard (feed : Feed) : Feed := { feed with ahead := none, used := feed.given }

/-- Use the next byte. -/
def next (feed : Feed) : Option UInt8 × Feed :=
  match feed.ahead with
  | some byte => (some byte, feed.discard)
  | none =>
      match feed.upcoming with
      | byte :: upcoming => (some byte, { feed with upcoming, used := feed.used + 1 })
      | [] => (none, feed)

/-- The fault of the byte that was used last. -/
def wrong (feed : Feed) (cause : Cause) : Fault := .placed cause (.after feed.used)

/-- The fault of a feed that has no further byte where more is due. -/
def ended (feed : Feed) (cause : Cause) : Fault := endFault cause feed.given feed.failure

/-!
## Steps

What is looked at stays, and every byte that is used is one byte less that is
left.
-/

theorem left_of_peek {feed faced : Feed} {found : Option UInt8}
    (looked : feed.peek = (found, faced)) : feed.left = found.toList ++ faced.discard.left := by
  rcases feed with ⟨_ | first, _ | ⟨second, upcoming⟩, failure, used⟩ <;> cases looked <;> rfl

theorem left_of_next {feed behind : Feed} {found : Option UInt8}
    (used : feed.next = (found, behind)) : feed.left = found.toList ++ behind.left := by
  rcases feed with ⟨_ | first, _ | ⟨second, upcoming⟩, failure, used⟩ <;> cases used <;> rfl

/-- Use bytes as long as they are accepted, and look at the one behind them. -/
def gather {α : Type} (accept? : UInt8 -> Option α) (feed : Feed) : List α × Feed :=
  match _looked : feed.peek with
  | (none, faced) => ([], faced)
  | (some byte, faced) =>
      match accept? byte with
      | some a =>
          let behind := gather accept? faced.discard
          (a :: behind.1, behind.2)
      | none => ([], faced)
termination_by feed.left.length
decreasing_by simp [left_of_peek _looked]

/-- Use the next bytes, if there are so many. -/
def several : Nat -> Feed -> Option (List UInt8) × Feed
  | 0, feed => (some [], feed)
  | count + 1, feed =>
      match feed.next with
      | (none, behind) => (none, behind)
      | (some byte, behind) =>
          match several count behind with
          | (none, behind) => (none, behind)
          | (some bytes, behind) => (some (byte :: bytes), behind)

theorem left_peek_le (feed : Feed) : feed.peek.2.left.length ≤ feed.left.length := by
  rcases feed with ⟨_ | first, _ | ⟨second, upcoming⟩, failure, used⟩ <;> simp [peek, left]

theorem left_discard_le (feed : Feed) : feed.discard.left.length ≤ feed.left.length := by
  rcases feed with ⟨_ | first, upcoming, failure, used⟩ <;> simp [discard, left]

theorem left_next_le (feed : Feed) : feed.next.2.left.length ≤ feed.left.length := by
  rcases feed with ⟨_ | first, _ | ⟨second, upcoming⟩, failure, used⟩ <;> simp [next, discard, left]

theorem left_gather_le {α : Type} (accept? : UInt8 -> Option α) (feed : Feed) :
    (feed.gather accept?).2.left.length ≤ feed.left.length := by
  fun_induction gather accept? feed with grind [left_peek_le, left_discard_le]

theorem left_several_le (count : Nat) (feed : Feed) :
    (feed.several count).2.left.length ≤ feed.left.length := by
  fun_induction several count feed with grind [left_next_le]

/-!
## Texts
-/

/-- The code unit that the next four bytes should spell. -/
def unit (feed : Feed) : Except SpellingEnd Piece × Feed :=
  match feed.several 4 with
  | (some [a, b, c, d], behind) =>
      match codeUnit? a b c d with
      | some code => (.ok (.unit code), behind)
      | none => (.error .unknownUnit, behind)
  | (_, behind) => (.error (.cut behind.failure), behind)

/-- What stands behind a backslash. -/
def escape (feed : Feed) : Except SpellingEnd Piece × Feed :=
  match feed.next with
  | (none, behind) => (.error (.cut behind.failure), behind)
  | (some letter, behind) =>
      if letter = 0x75 then behind.unit
      else
        match shortEscape? letter with
        | some byte => (.ok (.short byte), behind)
        | none => (.error .unknownEscape, behind)

theorem left_unit_le (feed : Feed) : feed.unit.2.left.length ≤ feed.left.length := by
  grind [unit, left_several_le]

theorem left_escape_le (feed : Feed) : feed.escape.2.left.length ≤ feed.left.length := by
  grind [escape, left_next_le, left_unit_le]

/-- The text that goes on with the next byte, where the scratch holds its
pieces so far, latest first. -/
def text (scratch : List Piece) (feed : Feed) : Spelling × Feed :=
  match _used : feed.next with
  | (none, behind) => (⟨scratch.reverse, .cut behind.failure⟩, behind)
  | (some byte, behind) =>
      if byte = quoteByte then (⟨scratch.reverse, .closed⟩, behind)
      else if byte = backslash then
        match _escaped : behind.escape with
        | (.ok piece, further) => text (piece :: scratch) further
        | (.error ending, further) => (⟨scratch.reverse, ending⟩, further)
      else if byte < 0x20 then (⟨scratch.reverse, .control⟩, behind)
      else text (.raw byte :: scratch) behind
termination_by feed.left.length
decreasing_by
  · have fewer : further.left.length ≤ behind.left.length := by
      simpa only [_escaped] using left_escape_le behind
    simpa [left_of_next _used] using Nat.lt_succ_of_le fewer
  · simp [left_of_next _used]

theorem left_text_le (scratch : List Piece) (feed : Feed) :
    (feed.text scratch).2.left.length ≤ feed.left.length := by
  fun_induction text scratch feed with grind [left_next_le, left_escape_le]

/-!
## Keywords and numerals
-/

/-- The rest of a keyword. -/
def keyword (meaning : Lexeme) : List UInt8 -> Feed -> Lexeme × Feed
  | [], feed => (meaning, feed)
  | letter :: word, feed =>
      match feed.next with
      | (some byte, behind) =>
          if letter = byte then keyword meaning word behind
          else (.malformed (behind.wrong .keywordDue) (behind.wrong .keywordDue), behind)
      | (none, behind) =>
          (.malformed (behind.ended .endInValue) (behind.ended .endInValue), behind)

theorem left_keyword_le (meaning : Lexeme) (word : List UInt8) (feed : Feed) :
    (feed.keyword meaning word).2.left.length ≤ feed.left.length := by
  fun_induction keyword meaning word feed with grind [left_next_le]

/-- The lexeme of a numeral that breaks off at the byte that was used last. -/
def brokenNumeral (feed : Feed) : Lexeme :=
  .malformed (feed.wrong .badNumber) (feed.wrong .badNumber)

/-- The lexeme of a numeral that breaks off where the feed ends. -/
def endedNumeral (feed : Feed) : Lexeme :=
  .malformed (feed.ended .endInValue) (feed.ended .badNumber)

/-- A part of a numeral breaks off at the next byte. -/
def breakNumeral {α : Type} (feed : Feed) : Except Lexeme α × Feed :=
  match feed.next with
  | (some _, behind) => (.error behind.brokenNumeral, behind)
  | (none, behind) => (.error behind.endedNumeral, behind)

/-- At least one digit. -/
def digits (feed : Feed) : Except Lexeme (List Digit) × Feed :=
  match feed.gather digit? with
  | ([], behind) => behind.breakNumeral
  | (digits, behind) => (.ok digits, behind)

/-- The whole part of a numeral whose first byte is used.  A leading zero
stands alone. -/
def whole (byte : UInt8) (feed : Feed) : Except Lexeme (List Digit) × Feed :=
  match digit? byte with
  | none => (.error feed.brokenNumeral, feed)
  | some digit =>
      if digit.val = 0 then
        match feed.peek with
        | (some byte, faced) =>
            if (digit? byte).isSome then faced.breakNumeral else (.ok [digit], faced)
        | (none, faced) => (.ok [digit], faced)
      else
        let behind := feed.gather digit?
        (.ok (digit :: behind.1), behind.2)

/-- The whole part of a numeral that perhaps has a sign before it. -/
def signedWhole (byte : UInt8) (feed : Feed) : Except Lexeme (List Digit) × Feed :=
  if byte = 0x2d then
    match feed.next with
    | (some byte, behind) => behind.whole byte
    | (none, behind) => (.error behind.endedNumeral, behind)
  else feed.whole byte

/-- A point and at least one digit, or nothing. -/
def fraction (feed : Feed) : Except Lexeme (Option (List Digit)) × Feed :=
  match feed.peek with
  | (some byte, faced) =>
      if byte = 0x2e then
        let behind := faced.discard.digits
        (behind.1.map some, behind.2)
      else (.ok none, faced)
  | (none, faced) => (.ok none, faced)

/-- The sign of an exponent, if there is one. -/
def sign (feed : Feed) : Option Sign × Feed :=
  match feed.peek with
  | (some byte, faced) =>
      if byte = 0x2b then (some .plus, faced.discard)
      else if byte = 0x2d then (some .minus, faced.discard)
      else (none, faced)
  | (none, faced) => (none, faced)

/-- The letter of an exponent, perhaps a sign, and at least one digit, or nothing. -/
def exponent (feed : Feed) : Except Lexeme (Option Exponent) × Feed :=
  match feed.peek with
  | (some byte, faced) =>
      if byte = 0x65 || byte = 0x45 then
        let signed := faced.discard.sign
        let behind := signed.2.digits
        (behind.1.map fun digits => some { sign := signed.1, digits }, behind.2)
      else (.ok none, faced)
  | (none, faced) => (.ok none, faced)

/-- Go on behind a part of a numeral, unless it breaks off. -/
def andThen {α β : Type} (part : Except Lexeme α × Feed)
    (others : α -> Feed -> Except Lexeme β × Feed) : Except Lexeme β × Feed :=
  match part with
  | (.error lexeme, behind) => (.error lexeme, behind)
  | (.ok a, behind) => others a behind

/-- The parts of a numeral whose first byte is used. -/
def parts (byte : UInt8) (feed : Feed) : Except Lexeme Numeral × Feed :=
  andThen (feed.signedWhole byte) fun whole behind =>
    andThen behind.fraction fun fraction behind =>
      andThen behind.exponent fun exponent behind =>
        (.ok { negative := byte == 0x2d, whole, fraction, exponent }, behind)

/-- A numeral is complete where a byte is seen that does not belong to it, or
where the document ends.  Where the supply fails it may be incomplete. -/
def completed (numeral : Numeral) (feed : Feed) : Lexeme × Feed :=
  match feed.peek with
  | (some _, faced) => (.number numeral, faced)
  | (none, faced) =>
      if faced.failure.isSome then
        (.malformed (faced.ended .endInValue) (faced.ended .endInValue), faced)
      else (.number numeral, faced)

/-- A numeral whose first byte is used. -/
def numeral (byte : UInt8) (feed : Feed) : Lexeme × Feed :=
  match feed.parts byte with
  | (.error lexeme, behind) => (lexeme, behind)
  | (.ok numeral, behind) => behind.completed numeral

theorem left_breakNumeral_le {α : Type} (feed : Feed) :
    (feed.breakNumeral (α := α)).2.left.length ≤ feed.left.length := by
  grind [breakNumeral, left_next_le]

theorem left_digits_le (feed : Feed) : feed.digits.2.left.length ≤ feed.left.length := by
  grind [digits, left_gather_le, left_breakNumeral_le]

theorem left_whole_le (byte : UInt8) (feed : Feed) :
    (feed.whole byte).2.left.length ≤ feed.left.length := by
  grind [whole, left_peek_le, left_gather_le, left_breakNumeral_le]

theorem left_signedWhole_le (byte : UInt8) (feed : Feed) :
    (feed.signedWhole byte).2.left.length ≤ feed.left.length := by
  grind [signedWhole, left_next_le, left_whole_le]

theorem left_fraction_le (feed : Feed) : feed.fraction.2.left.length ≤ feed.left.length := by
  grind [fraction, left_peek_le, left_discard_le, left_digits_le]

theorem left_sign_le (feed : Feed) : feed.sign.2.left.length ≤ feed.left.length := by
  grind [sign, left_peek_le, left_discard_le]

theorem left_exponent_le (feed : Feed) : feed.exponent.2.left.length ≤ feed.left.length := by
  grind [exponent, left_peek_le, left_discard_le, left_sign_le, left_digits_le]

theorem left_andThen_le {α β : Type} {part : Except Lexeme α × Feed}
    {others : α -> Feed -> Except Lexeme β × Feed} {most : Nat}
    (fewer : part.2.left.length ≤ most)
    (further : forall a (behind : Feed), behind.left.length ≤ most ->
      (others a behind).2.left.length ≤ most) :
    (andThen part others).2.left.length ≤ most := by
  rcases part with ⟨_ | a, behind⟩
  · exact fewer
  · exact further a behind fewer

theorem left_parts_le (byte : UInt8) (feed : Feed) :
    (feed.parts byte).2.left.length ≤ feed.left.length := by
  refine left_andThen_le (left_signedWhole_le byte feed) fun _ behind fewer => ?_
  refine left_andThen_le (Nat.le_trans (left_fraction_le behind) fewer) fun _ behind fewer => ?_
  exact left_andThen_le (Nat.le_trans (left_exponent_le behind) fewer) fun _ _ fewer => fewer

theorem left_numeral_le (byte : UInt8) (feed : Feed) :
    (feed.numeral byte).2.left.length ≤ feed.left.length := by
  grind [numeral, completed, left_parts_le, left_peek_le]

/-!
## Tokens
-/

/-- The lexeme that begins with a byte that is used. -/
def lexeme (byte : UInt8) (feed : Feed) : Lexeme × Feed :=
  if byte = 0x2c then (.comma, feed)
  else if byte = 0x3a then (.colon, feed)
  else if byte = 0x5b then (.arrayStart, feed)
  else if byte = 0x5d then (.arrayEnd, feed)
  else if byte = 0x7b then (.objectStart, feed)
  else if byte = 0x7d then (.objectEnd, feed)
  else if byte = 0x6e then feed.keyword .null [0x75, 0x6c, 0x6c]
  else if byte = 0x74 then feed.keyword (.boolean true) [0x72, 0x75, 0x65]
  else if byte = 0x66 then feed.keyword (.boolean false) [0x61, 0x6c, 0x73, 0x65]
  else if byte = quoteByte then
    let behind := feed.text []
    (.text behind.1, behind.2)
  else if byte = 0x2d || (digit? byte).isSome then feed.numeral byte
  else (.stray, feed)

theorem left_lexeme_le (byte : UInt8) (feed : Feed) :
    (feed.lexeme byte).2.left.length ≤ feed.left.length := by
  fun_cases lexeme byte feed with
  | case1 | case2 | case3 | case4 | case5 | case6 | case12 => exact Nat.le_refl _
  | case7 | case8 | case9 => exact left_keyword_le _ _ feed
  | case10 => exact left_text_le [] feed
  | case11 => exact left_numeral_le byte feed

/-- The feed behind blanks. -/
def pastBlanks (feed : Feed) : Feed :=
  (feed.gather fun byte => if isBlankByte byte then some () else none).2

/-- The tokens of what is left. -/
def tokens (feed : Feed) : List Token :=
  match _looked : feed.pastBlanks.peek with
  | (none, faced) => [⟨.finish faced.failure, faced.used, faced.used⟩]
  | (some byte, faced) =>
      let behind := faced.discard.lexeme byte
      let token : Token := ⟨behind.1, faced.used, behind.2.used⟩
      if behind.1.isLast then [token] else token :: tokens behind.2
termination_by feed.left.length
decreasing_by
  have blanks : feed.pastBlanks.left.length ≤ feed.left.length := left_gather_le _ feed
  have fewer := left_lexeme_le byte faced.discard
  have one : feed.pastBlanks.left.length = 1 + faced.discard.left.length := by
    simp [left_of_peek _looked, Nat.add_comm]
  omega

/-- The tree of a stream. -/
def tree (feed : Feed) : Tree := Tree.ofTokens feed.tokens

end Feed
end Json
end RepoInspector
