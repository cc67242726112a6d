import RepoInspector.Json.Feed
import RepoInspector.Proofs.Json.TokenScan

namespace RepoInspector
namespace Json

/-!
# Feeds and texts

A text is scanned with all its bytes in hand, a feed byte by byte.  The two
scanners find the same tokens in the same bytes, whatever these are and
wherever the supply ends or fails.

Each part of the one scanner is related to its part of the other by what is
found and by how far the feed has come; the whole follows along the tokens.
-/

namespace Feed

/-- A feed after `count` further bytes are used. -/
structure Past (feed : Feed) (count : Nat) (later : Feed) : Prop where
  most : count ≤ feed.left.length
  left : later.left = feed.left.drop count
  used : later.used = feed.used + count
  failure : later.failure = feed.failure

variable {feed faced behind later : Feed} {byte : UInt8} {count : Nat}

theorem Past.refl (feed : Feed) : feed.Past 0 feed :=
  ⟨Nat.zero_le _, rfl, rfl, rfl⟩

theorem Past.trans {first second : Nat} (past : feed.Past first behind)
    (further : behind.Past second later) : feed.Past (first + second) later where
  most := by
    have most := further.most
    rw [past.left, List.length_drop] at most
    have := past.most
    omega
  left := by rw [further.left, past.left, List.drop_drop]
  used := by rw [further.used, past.used, Nat.add_assoc]
  failure := further.failure.trans past.failure

/-- The number of bytes of the document does not change. -/
theorem Past.limit (past : feed.Past count later) :
    later.used + later.left.length = feed.used + feed.left.length := by
  have := past.most
  rw [past.used, past.left, List.length_drop]
  omega

/-!
## Steps
-/

theorem peek_some (looked : feed.peek = (some byte, faced)) :
    feed.left = byte :: faced.discard.left ∧ feed.Past 0 faced ∧ feed.Past 1 faced.discard := by
  rcases feed with ⟨_ | first, _ | ⟨second, upcoming⟩, failure, used⟩ <;> cases looked <;>
    exact ⟨rfl, ⟨Nat.zero_le _, rfl, rfl, rfl⟩, ⟨Nat.succ_le_succ (Nat.zero_le _), rfl, rfl, rfl⟩⟩

theorem peek_none (looked : feed.peek = (none, faced)) : faced = feed ∧ feed.left = [] := by
  rcases feed with ⟨_ | first, _ | ⟨second, upcoming⟩, failure, used⟩ <;> cases looked
  exact ⟨rfl, rfl⟩

theorem next_some (isUsed : feed.next = (some byte, behind)) :
    feed.left = byte :: behind.left ∧ feed.Past 1 behind := by
  rcases feed with ⟨_ | first, _ | ⟨second, upcoming⟩, failure, used⟩ <;> cases isUsed <;>
    exact ⟨rfl, ⟨Nat.succ_le_succ (Nat.zero_le _), rfl, rfl, rfl⟩⟩

theorem next_none (isUsed : feed.next = (none, behind)) : behind = feed ∧ feed.left = [] := by
  rcases feed with ⟨_ | first, _ | ⟨second, upcoming⟩, failure, used⟩ <;> cases isUsed
  exact ⟨rfl, rfl⟩

/-- Where nothing is left, what is given is used. -/
theorem ended_eq (nothing : feed.left = []) (cause : Cause) :
    feed.ended cause = endFault cause feed.used feed.failure := by
  rcases feed with ⟨_ | first, upcoming, failure, used⟩
  · rfl
  · cases nothing

/-!
## Texts
-/

theorem several_some {bytes : List UInt8} (found : feed.several count = (some bytes, behind)) :
    bytes.length = count ∧ feed.left = bytes ++ behind.left ∧ feed.Past count behind := by
  fun_induction several count feed generalizing bytes behind with
  | case1 feed =>
      cases found
      exact ⟨rfl, rfl, .refl feed⟩
  | case2 | case3 => cases found
  | case4 count feed byte next isUsed bytes further isFound inductionHypothesis =>
      cases found
      rcases inductionHypothesis isFound with ⟨length, split, past⟩
      rcases next_some isUsed with ⟨isLeft, one⟩
      refine ⟨by rw [List.length_cons, length], by rw [isLeft, split]; rfl, ?_⟩
      rw [Nat.succ_eq_one_add]
      exact one.trans past

theorem several_none (found : feed.several count = (none, behind)) :
    feed.left.length < count ∧ feed.Past feed.left.length behind := by
  fun_induction several count feed generalizing behind with
  | case1 | case4 => cases found
  | case2 count feed next isUsed =>
      cases found
      rcases next_none isUsed with ⟨rfl, nothing⟩
      rw [nothing]
      exact ⟨Nat.succ_pos count, .refl next⟩
  | case3 count feed byte next isUsed further isFound inductionHypothesis =>
      cases found
      rcases inductionHypothesis isFound with ⟨less, past⟩
      rcases next_some isUsed with ⟨isLeft, one⟩
      rw [isLeft, List.length_cons, Nat.add_comm]
      exact ⟨Nat.succ_eq_one_add count ▸ Nat.add_lt_add_left less 1, one.trans past⟩

/-- What is found behind a backslash, against what the scanner of texts finds from the backslash
on: a piece and what follows it, or the end of the pieces. -/
inductive EscapeRead (feed : Feed) : Except SpellingEnd Piece × Feed -> Prop
  | piece {piece : Piece} {behind : Feed} {width : Nat} (isWidth : piece.width = 1 + width)
      (scanned : Spelling.scan feed.failure (backslash :: feed.left) =
        (Spelling.scan feed.failure behind.left).add piece)
      (past : feed.Past width behind) : EscapeRead feed (.ok piece, behind)
  | ending {ending : SpellingEnd} {behind : Feed} {width : Nat}
      (isWidth : Lexeme.textWidth ⟨[], ending⟩ (1 + feed.left.length) = 2 + width)
      (scanned : Spelling.scan feed.failure (backslash :: feed.left) = ⟨[], ending⟩)
      (past : feed.Past width behind) : EscapeRead feed (.error ending, behind)

/-- The scan of a text ends within the bytes that follow a backslash. -/
theorem scan_short_of_unit (failure : Option String) {bytes : List UInt8}
    (few : bytes.length < 4) :
    Spelling.scan failure (backslash :: 0x75 :: bytes) = ⟨[], .cut failure⟩ := by
  rw [Spelling.scan.eq_def]
  simp only [if_neg (by decide : backslash ≠ quoteByte), if_true]
  split
  case h_1 => simp only [List.length_cons] at few; omega
  case h_2 => rfl

theorem unit_read (isLetter : feed.left = 0x75 :: behind.left) (one : feed.Past 1 behind) :
    EscapeRead feed behind.unit := by
  rw [unit]
  split
  case h_1 a b c d further found =>
    rcases several_some found with ⟨_, split, past⟩
    have isLeft : backslash :: feed.left = [backslash, 0x75, a, b, c, d] ++ further.left := by
      rw [isLetter, split]
      rfl
    split
    case h_1 code known =>
      refine .piece rfl ?_ (one.trans past)
      rw [isLeft]
      exact Spelling.scan_piece _ (.unit known) _
    case h_2 unknown =>
      refine .ending rfl ?_ (one.trans past)
      rw [isLeft, Spelling.scan.eq_def]
      simp only [List.cons_append, List.nil_append, if_neg (by decide : backslash ≠ quoteByte),
        if_true, unknown]
  case h_2 found further other isFound =>
    cases found with
    | some bytes =>
        have length := (several_some isFound).1
        rcases bytes with _ | ⟨a, _ | ⟨b, _ | ⟨c, _ | ⟨d, _ | ⟨e, bytes⟩⟩⟩⟩⟩ <;>
          simp at length
        exact (other a b c d rfl).elim
    | none =>
        rcases several_none isFound with ⟨few, past⟩
        refine .ending ?_ ?_ (one.trans past)
        · simp only [isLetter, List.length_cons, Lexeme.textWidth]
          omega
        · rw [isLetter, scan_short_of_unit feed.failure few, past.failure, one.failure]

theorem escape_read (feed : Feed) : EscapeRead feed feed.escape := by
  have notQuote : backslash ≠ quoteByte := by decide
  rw [escape]
  split
  case h_1 behind isUsed =>
    rcases next_none isUsed with ⟨rfl, nothing⟩
    refine .ending (by rw [nothing]; rfl) ?_ (.refl behind)
    rw [nothing, Spelling.scan.eq_def]
    simp only [if_neg notQuote, if_true]
  case h_2 letter behind isUsed =>
    rcases next_some isUsed with ⟨isLeft, one⟩
    split
    case isTrue isUnit =>
      rw [isUnit] at isLeft
      exact unit_read isLeft one
    case isFalse notUnit =>
      split
      case h_1 byte known =>
        refine .piece rfl ?_ one
        rw [isLeft]
        exact Spelling.scan_piece _ (.short known) _
      case h_2 unknown =>
        refine .ending rfl ?_ one
        rw [isLeft, Spelling.scan.eq_def]
        simp only [if_neg notQuote, if_true, if_neg notUnit, unknown]

/-- What is found of a text whose first pieces are in the scratch, against the scan of the text
from there. -/
structure TextRead (scratch : List Piece) (feed : Feed) (found : Spelling × Feed) : Prop where
  spelling : found.1 = ⟨scratch.reverse ++ (Spelling.scan feed.failure feed.left).pieces,
    (Spelling.scan feed.failure feed.left).ending⟩
  past : Exists fun width =>
    Lexeme.textWidth (Spelling.scan feed.failure feed.left) feed.left.length = 1 + width ∧
      feed.Past width found.2

theorem textWidth_add (piece : Piece) (spelling : Spelling) (available : Nat) :
    Lexeme.textWidth (spelling.add piece) (piece.width + available) =
      piece.width + Lexeme.textWidth spelling available := by
  rcases spelling with ⟨pieces, ending⟩
  have added : Spelling.piecesWidth (piece :: pieces) =
    piece.width + Spelling.piecesWidth pieces := rfl
  cases ending <;> simp only [Spelling.add, Lexeme.textWidth, added] <;> omega

/-- A piece that is read goes to the scratch. -/
theorem TextRead.add {scratch : List Piece} {piece : Piece} {found : Spelling × Feed}
    (others : TextRead (piece :: scratch) behind found)
    (scanned : Spelling.scan feed.failure feed.left =
      (Spelling.scan behind.failure behind.left).add piece)
    (past : feed.Past piece.width behind) : TextRead scratch feed found := by
  rcases others.past with ⟨width, isWidth, further⟩
  have length : feed.left.length = piece.width + behind.left.length := by
    have most := past.most
    rw [past.left, List.length_drop]
    omega
  refine ⟨?_, piece.width + width, ?_, past.trans further⟩
  · rw [others.spelling, scanned, List.reverse_cons, List.append_assoc]
    rfl
  · rw [scanned, length, textWidth_add, isWidth]
    omega

/-- What is found behind an opening quote is the scan of a text from there. -/
theorem text_read (scratch : List Piece) (feed : Feed) :
    TextRead scratch feed (feed.text scratch) := by
  fun_induction text scratch feed with
  | case1 scratch feed behind isUsed =>
      rcases next_none isUsed with ⟨rfl, nothing⟩
      have scanned : Spelling.scan behind.failure behind.left = ⟨[], .cut behind.failure⟩ := by
        rw [nothing, Spelling.scan.eq_def]
      exact ⟨by rw [scanned, List.append_nil], 0, by rw [scanned, nothing]; rfl, .refl behind⟩
  | case2 scratch feed behind isUsed =>
      rcases next_some isUsed with ⟨isLeft, one⟩
      have scanned : Spelling.scan feed.failure feed.left = ⟨[], .closed⟩ := by
        rw [isLeft, Spelling.scan_quote]
      exact ⟨by rw [scanned, List.append_nil], 1, by rw [scanned]; rfl, one⟩
  | case3 scratch feed behind piece further escaped isUsed _ inductionHypothesis =>
      rcases next_some isUsed with ⟨isLeft, one⟩
      have read := escape_read behind
      rw [escaped] at read
      cases read with
      | piece isWidth scanned past =>
          rw [one.failure] at scanned
          refine inductionHypothesis.add ?_ (isWidth ▸ one.trans past)
          rw [isLeft, scanned, past.failure, one.failure]
  | case4 scratch feed behind ending further escaped isUsed =>
      rcases next_some isUsed with ⟨isLeft, one⟩
      have read := escape_read behind
      rw [escaped] at read
      cases read with
      | ending isWidth scanned past =>
          rw [one.failure, ← isLeft] at scanned
          refine ⟨by rw [scanned, List.append_nil], _, ?_, one.trans past⟩
          rw [scanned, isLeft, List.length_cons, Nat.add_comm _ 1, isWidth]
          omega
  | case5 scratch feed byte behind isUsed notQuote notBackslash isControl =>
      rcases next_some isUsed with ⟨isLeft, one⟩
      have scanned : Spelling.scan feed.failure feed.left = ⟨[], .control⟩ := by
        rw [isLeft, Spelling.scan.eq_def]
        simp only [if_neg notQuote, if_neg notBackslash, if_pos isControl]
      exact ⟨by rw [scanned, List.append_nil], 1, by rw [scanned]; rfl, one⟩
  | case6 scratch feed byte behind isUsed notQuote notBackslash notControl inductionHypothesis =>
      rcases next_some isUsed with ⟨isLeft, one⟩
      refine inductionHypothesis.add ?_ one
      rw [isLeft, one.failure]
      exact Spelling.scan_piece _ (.raw notQuote notBackslash notControl) _

/-!
## Keywords
-/

variable {start limit : Nat}

/-- What is found of the rest of a keyword, against how its letters match the bytes that are
left.  The keyword begins at `start`, and `index` letters of it are read. -/
inductive KeywordRead (start limit index : Nat) (word : List UInt8) (meaning : Lexeme)
    (feed : Feed) : WordMatch -> Lexeme × Feed -> Prop
  | whole {behind : Feed} (past : feed.Past word.length behind) :
      KeywordRead start limit index word meaning feed .whole (meaning, behind)
  | departs {behind : Feed} {place width : Nat} (isPlace : place + 1 = index + width)
      (past : feed.Past width behind) :
      KeywordRead start limit index word meaning feed (.departs place)
        (.malformed (.placed .keywordDue (.after (start + place + 1)))
          (.placed .keywordDue (.after (start + place + 1))), behind)
  | ends {behind : Feed} (past : feed.Past feed.left.length behind) :
      KeywordRead start limit index word meaning feed .ends
        (.malformed (endFault .endInValue limit feed.failure)
          (endFault .endInValue limit feed.failure), behind)

theorem KeywordRead.cons {index : Nat} {letter : UInt8} {word : List UInt8} {meaning : Lexeme}
    {matched : WordMatch} {found : Lexeme × Feed}
    (others : KeywordRead start limit (index + 1) word meaning behind matched found)
    (isLeft : feed.left = letter :: behind.left) (one : feed.Past 1 behind) :
    KeywordRead start limit index (letter :: word) meaning feed matched found := by
  cases others with
  | whole past =>
      apply KeywordRead.whole
      rw [List.length_cons, Nat.add_comm]
      exact one.trans past
  | departs isPlace past => exact .departs (by rw [isPlace, Nat.add_assoc]) (one.trans past)
  | ends past =>
      rw [one.failure]
      apply KeywordRead.ends
      rw [isLeft, List.length_cons, Nat.add_comm]
      exact one.trans past

theorem keyword_read (meaning : Lexeme) (word : List UInt8) (feed : Feed) {index : Nat}
    (isUsed : feed.used = start + index) (isLimit : feed.used + feed.left.length = limit) :
    KeywordRead start limit index word meaning feed (matchWord index word feed.left)
      (feed.keyword meaning word) := by
  fun_induction keyword meaning word feed generalizing index with
  | case1 feed =>
      rw [matchWord]
      exact .whole (.refl feed)
  | case2 feed word byte behind isNext inductionHypothesis =>
      rcases next_some isNext with ⟨isLeft, one⟩
      rw [isLeft, matchWord, if_pos rfl]
      refine (inductionHypothesis ?_ ?_).cons isLeft one
      · rw [one.used, isUsed, Nat.add_assoc]
      · rw [one.limit, isLimit]
  | case3 letter word feed byte behind isNext differs =>
      rcases next_some isNext with ⟨isLeft, one⟩
      have isPlace : behind.used = start + index + 1 := by rw [one.used, isUsed]
      rw [isLeft, matchWord, if_neg differs, wrong, isPlace]
      exact .departs rfl one
  | case4 letter word feed behind isNext =>
      rcases next_none isNext with ⟨rfl, nothing⟩
      have atLimit : behind.used = limit := by rw [← isLimit, nothing]; rfl
      rw [nothing, matchWord, ended_eq nothing, atLimit]
      apply KeywordRead.ends
      rw [nothing]
      exact .refl behind

/-!
## Numerals
-/

/-- What is found of a part of a numeral, against what the scanner of numerals finds. -/
inductive PartRead {α : Type} (width : α -> Nat) (feed : Feed) :
    Except Nat α -> Except Lexeme α × Feed -> Prop
  | ok {a : α} {behind : Feed} (past : feed.Past (width a) behind) :
      PartRead width feed (.ok a) (.ok a, behind)
  | broken {count : Nat} {behind : Feed} (past : feed.Past (count + 1) behind) :
      PartRead width feed (.error count) (.error behind.brokenNumeral, behind)
  | ended {count : Nat} {behind : Feed} (past : feed.Past count behind)
      (all : count = feed.left.length) :
      PartRead width feed (.error count) (.error behind.endedNumeral, behind)

namespace PartRead

variable {α β : Type} {width : α -> Nat} {found : Except Nat α} {part : Except Lexeme α × Feed}

/-- A part that is read behind other bytes. -/
theorem shift {offset : Nat} {total : α -> Nat} (isTotal : forall a, total a = offset + width a)
    (past : feed.Past offset behind) (read : PartRead width behind found part) :
    PartRead total feed (Numeral.shiftError offset found) part := by
  cases read with
  | @ok a _ further =>
      apply PartRead.ok
      rw [isTotal]
      exact past.trans further
  | broken further => exact .broken (past.trans further)
  | ended further all =>
      apply PartRead.ended (past.trans further)
      have most := past.most
      rw [all, past.left, List.length_drop]
      omega

/-- Parts are composed as their readings are. -/
theorem andThen {further : α -> Except Nat β} {total : β -> Nat}
    {others : α -> Feed -> Except Lexeme β × Feed} (read : PartRead width feed found part)
    (goesOn : forall a behind, feed.Past (width a) behind ->
      PartRead total feed (further a) (others a behind)) :
    PartRead total feed (found >>= further) (Feed.andThen part others) := by
  cases read with
  | ok past => exact goesOn _ _ past
  | broken past => exact .broken past
  | ended past all => exact .ended past all

theorem map {total : β -> Nat} {f : α -> β} (same : forall a, total (f a) = width a)
    (read : PartRead width feed found part) :
    PartRead total feed (f <$> found) (part.1.map f, part.2) := by
  cases read with
  | ok past => exact .ok (same _ ▸ past)
  | broken past => exact .broken past
  | ended past all => exact .ended past all

end PartRead

/-- The digits at the front are used, and with them nothing else. -/
theorem gather_digits (feed : Feed) :
    (feed.gather digit?).1 = leadingDigits feed.left ∧
      feed.Past (leadingDigits feed.left).length (feed.gather digit?).2 := by
  fun_induction gather digit? feed with
  | case1 feed behind looked =>
      rcases peek_none looked with ⟨rfl, nothing⟩
      rw [nothing]
      exact ⟨rfl, .refl behind⟩
  | case2 feed byte faced looked digit known behind inductionHypothesis =>
      rcases peek_some looked with ⟨isLeft, _, one⟩
      have isDigits : leadingDigits feed.left = digit :: leadingDigits faced.discard.left := by
        simp only [isLeft, leadingDigits, known]
      rw [isDigits, List.length_cons, Nat.add_comm]
      exact ⟨congrArg (digit :: ·) inductionHypothesis.1, one.trans inductionHypothesis.2⟩
  | case3 feed byte faced looked unknown =>
      rcases peek_some looked with ⟨isLeft, facing, _⟩
      have isDigits : leadingDigits feed.left = [] := by
        simp only [isLeft, leadingDigits, unknown]
      rw [isDigits]
      exact ⟨rfl, facing⟩

theorem breakNumeral_read {α : Type} {width : α -> Nat} {good : Nat}
    (past : feed.Past good behind) : PartRead width feed (.error good) behind.breakNumeral := by
  rw [breakNumeral]
  split
  case h_1 isUsed => exact .broken (past.trans (next_some isUsed).2)
  case h_2 isUsed =>
    rcases next_none isUsed with ⟨rfl, nothing⟩
    have all := past.limit
    rw [past.used, nothing] at all
    exact .ended past (by simpa [Nat.add_assoc] using all)

/-- At least one digit at the front of the bytes. -/
def someDigits (bytes : List UInt8) : Except Nat (List Digit) :=
  if (leadingDigits bytes).isEmpty then .error 0 else .ok (leadingDigits bytes)

theorem digits_read (feed : Feed) :
    PartRead List.length feed (someDigits feed.left) feed.digits := by
  rcases gather_digits feed with ⟨isDigits, past⟩
  rw [someDigits, ← isDigits, digits]
  rw [← isDigits] at past
  generalize feed.gather digit? = gathered at past
  rcases gathered with ⟨_ | ⟨digit, others⟩, behind⟩
  · exact breakNumeral_read past
  · exact .ok past

/-- A leading zero stands alone. -/
theorem scanWhole_cons {bytes : List UInt8} {digit : Digit} (known : digit? byte = some digit) :
    Numeral.scanWhole (byte :: bytes) =
      if digit = 0 && !(leadingDigits bytes).isEmpty then .error 1
      else .ok (digit :: leadingDigits bytes) := by
  simp only [Numeral.scanWhole, leadingDigits, known]

/-- The whole part of a numeral, whose first byte is used before the rest is looked at. -/
theorem whole_read (isLeft : feed.left = byte :: behind.left) (one : feed.Past 1 behind) :
    PartRead List.length feed (Numeral.scanWhole feed.left) (behind.whole byte) := by
  rw [whole]
  split
  case h_1 unknown =>
    have scanned : Numeral.scanWhole feed.left = .error 0 := by
      simp only [Numeral.scanWhole, isLeft, leadingDigits, unknown]
    rw [scanned]
    exact .broken one
  case h_2 digit known =>
    rw [isLeft, scanWhole_cons known]
    by_cases isZero : digit.val = 0
    · have same : digit = 0 := Fin.eq_of_val_eq isZero
      rw [if_pos isZero, same, decide_eq_true rfl, Bool.true_and]
      generalize looked : behind.peek = found
      rcases found with ⟨_ | next, faced⟩
      · rcases peek_none looked with ⟨rfl, nothing⟩
        rw [nothing]
        exact .ok one
      · rcases peek_some looked with ⟨isNext, facing, _⟩
        cases follows : digit? next with
        | none =>
            simp only [isNext, leadingDigits, follows]
            exact .ok (one.trans facing)
        | some second =>
            simp only [isNext, leadingDigits, follows]
            exact breakNumeral_read (one.trans facing)
    · rcases gather_digits behind with ⟨isDigits, past⟩
      have other : digit ≠ 0 := fun same => isZero (congrArg Fin.val same)
      rw [if_neg isZero, decide_eq_false other, Bool.false_and, if_neg Bool.false_ne_true,
        ← isDigits]
      apply PartRead.ok
      rw [List.length_cons, isDigits, Nat.add_comm]
      exact one.trans past

/-- The whole part of a numeral with its sign, if it has one, whose first byte is used. -/
theorem signedWhole_read (isLeft : feed.left = byte :: behind.left) (one : feed.Past 1 behind) :
    let signWidth := if feed.left.head? == some 0x2d then 1 else 0
    PartRead (fun digits => signWidth + digits.length) feed
      (Numeral.shiftError signWidth (Numeral.scanWhole (feed.left.drop signWidth)))
      (behind.signedWhole byte) := by
  intro signWidth
  rw [signedWhole]
  split
  case isTrue isMinus =>
    have isWidth : signWidth = 1 := by simp only [signWidth, isLeft, isMinus]; rfl
    rw [isWidth, isLeft, List.drop_one, List.tail_cons]
    split
    case h_1 next further isUsed =>
      rcases next_some isUsed with ⟨isNext, second⟩
      exact (whole_read isNext second).shift (fun _ => rfl) one
    case h_2 further isUsed =>
      rcases next_none isUsed with ⟨rfl, nothing⟩
      rw [nothing]
      exact .ended one (by rw [isLeft, nothing]; rfl)
  case isFalse notMinus =>
    have isWidth : signWidth = 0 := by
      simp only [signWidth, isLeft, List.head?_cons]
      exact if_neg (by simpa using notMinus)
    rw [isWidth, List.drop_zero]
    exact (whole_read isLeft one).shift (fun _ => rfl) (.refl feed)

theorem scanFraction_point (bytes : List UInt8) :
    Numeral.scanFraction (0x2e :: bytes) = some <$> Numeral.shiftError 1 (someDigits bytes) := by
  rw [Numeral.scanFraction, if_pos rfl, someDigits]
  cases leadingDigits bytes <;> rfl

theorem fraction_read (feed : Feed) :
    PartRead Numeral.fractionWidth feed (Numeral.scanFraction feed.left) feed.fraction := by
  rw [fraction]
  split
  case h_1 byte faced looked =>
    rcases peek_some looked with ⟨isLeft, facing, one⟩
    rw [isLeft]
    split
    case isTrue isPoint =>
      rw [isPoint, scanFraction_point]
      exact ((digits_read faced.discard).shift (fun _ => rfl) one).map fun _ => rfl
    case isFalse notPoint =>
      rw [Numeral.scanFraction, if_neg notPoint]
      exact .ok facing
  case h_2 faced looked =>
    rcases peek_none looked with ⟨rfl, nothing⟩
    rw [nothing]
    exact .ok (.refl faced)

theorem sign_read (feed : Feed) :
    feed.sign.1 = Numeral.leadingSign feed.left ∧
      feed.Past (if (Numeral.leadingSign feed.left).isSome then 1 else 0) feed.sign.2 := by
  rw [sign]
  split
  case h_1 byte faced looked =>
    rcases peek_some looked with ⟨isLeft, facing, one⟩
    rw [isLeft, Numeral.leadingSign]
    split
    case isTrue => exact ⟨rfl, one⟩
    case isFalse =>
      split
      case isTrue => exact ⟨rfl, one⟩
      case isFalse => exact ⟨rfl, facing⟩
  case h_2 faced looked =>
    rcases peek_none looked with ⟨rfl, nothing⟩
    rw [nothing]
    exact ⟨rfl, .refl faced⟩

theorem scanExponent_letter {bytes : List UInt8} (isLetter : byte = 0x65 ∨ byte = 0x45) :
    Numeral.scanExponent (byte :: bytes) =
      let signWidth := if (Numeral.leadingSign bytes).isSome then 1 else 0
      (fun digits => some { sign := Numeral.leadingSign bytes, digits }) <$>
        Numeral.shiftError (1 + signWidth) (someDigits (bytes.drop signWidth)) := by
  rw [Numeral.scanExponent_cons, if_pos isLetter]
  simp only [someDigits]
  cases leadingDigits (bytes.drop (if (Numeral.leadingSign bytes).isSome then 1 else 0)) <;> rfl

theorem exponent_read (feed : Feed) :
    PartRead Numeral.exponentWidth feed (Numeral.scanExponent feed.left) feed.exponent := by
  rw [exponent]
  split
  case h_1 byte faced looked =>
    rcases peek_some looked with ⟨isLeft, facing, one⟩
    rw [isLeft]
    split
    case isTrue isLetter =>
      rcases sign_read faced.discard with ⟨isSign, past⟩
      have digits := digits_read faced.discard.sign.2
      rw [past.left] at digits
      rw [scanExponent_letter (by simpa using isLetter), ← isSign]
      rw [← isSign] at past digits
      exact (digits.shift (fun _ => rfl) (one.trans past)).map fun _ => rfl
    case isFalse notLetter =>
      rw [Numeral.scanExponent_cons, if_neg (by simpa using notLetter)]
      exact .ok facing
  case h_2 faced looked =>
    rcases peek_none looked with ⟨rfl, nothing⟩
    rw [nothing]
    exact .ok (.refl faced)

/-- The parts of a numeral, whose first byte is used before the others are looked at. -/
theorem parts_read (isLeft : feed.left = byte :: behind.left) (one : feed.Past 1 behind) :
    PartRead Numeral.width feed (Numeral.scan feed.left) (behind.parts byte) := by
  have isNegative : (feed.left.head? == some 0x2d) = (byte == 0x2d) := by
    rw [isLeft]
    rfl
  have whole := signedWhole_read isLeft one
  rw [isNegative] at whole
  simp only [Numeral.scan, isNegative, parts]
  refine whole.andThen fun digits behindWhole pastWhole => ?_
  have fraction := fraction_read behindWhole
  rw [pastWhole.left] at fraction
  refine (fraction.shift (fun _ => rfl) pastWhole).andThen fun point behindPoint pastPoint => ?_
  have exponent := exponent_read behindPoint
  rw [pastPoint.left] at exponent
  refine (exponent.shift (fun _ => rfl) pastPoint).andThen fun letter behindLetter pastLetter => ?_
  apply PartRead.ok
  rw [Numeral.width_eq]
  exact pastLetter

/-!
## Lexemes
-/

/-- What is found from a feed, against a lexeme of so many bytes. -/
structure LexemeRead (feed : Feed) (known : Lexeme × Nat) (found : Lexeme × Feed) : Prop where
  same : found.1 = known.1
  past : feed.Past known.2 found.2

/-- Where all bytes are used, nothing is left. -/
theorem Past.nothing (past : feed.Past count later) (all : count = feed.left.length) :
    later.left = [] := by
  rw [past.left, all, List.drop_length]

theorem completed_read {numeral : Numeral} (past : feed.Past numeral.width later)
    (isLimit : feed.used + feed.left.length = limit) :
    LexemeRead feed
      (if feed.failure.isSome && limit ≤ feed.used + numeral.width then
        (.malformed (endFault .endInValue limit feed.failure)
          (endFault .endInValue limit feed.failure), numeral.width)
      else (.number numeral, numeral.width))
      (later.completed numeral) := by
  have reached := past.limit
  rw [isLimit, past.used] at reached
  generalize looked : later.peek = found
  rcases found with ⟨_ | next, faced⟩
  · rcases peek_none looked with ⟨rfl, nothing⟩
    rw [nothing, List.length_nil, Nat.add_zero] at reached
    simp only [completed, looked, reached, Nat.le_refl, decide_true, Bool.and_true,
      ended_eq nothing, past.failure, past.used]
    split
    case isTrue => exact ⟨rfl, past⟩
    case isFalse => exact ⟨rfl, past⟩
  · rcases peek_some looked with ⟨isNext, facing, _⟩
    have inside : ¬ limit ≤ feed.used + numeral.width := by
      rw [← reached, isNext, List.length_cons]
      omega
    simp only [completed, looked, inside, decide_false, Bool.and_false, if_neg Bool.false_ne_true]
    exact ⟨rfl, past.trans facing⟩

theorem numeral_read (isLeft : feed.left = byte :: behind.left) (one : feed.Past 1 behind)
    (isLimit : feed.used + feed.left.length = limit) :
    LexemeRead feed (Lexeme.numeral limit feed.failure feed.used feed.left)
      (behind.numeral byte) := by
  have read := parts_read isLeft one
  rw [Lexeme.numeral, numeral]
  generalize Numeral.scan feed.left = known at read ⊢
  generalize behind.parts byte = found at read ⊢
  cases read with
  | ok past => exact completed_read past isLimit
  | @broken count later past =>
      have inside : ¬ limit ≤ feed.used + count := by
        have := past.most
        omega
      simp only [if_neg inside]
      refine ⟨?_, past⟩
      simp only [brokenNumeral, wrong, past.used, Nat.add_assoc]
  | @ended count later past all =>
      have reached : feed.used + count = limit := by rw [all, isLimit]
      simp only [if_pos (Nat.le_of_eq reached.symm)]
      refine ⟨?_, past⟩
      simp only [endedNumeral, ended_eq (past.nothing all), past.used, past.failure, reached]

theorem keyword_lexemeRead (meaning : Lexeme) (word : List UInt8)
    (one : feed.Past 1 behind) (isLimit : feed.used + feed.left.length = limit) :
    LexemeRead feed (Lexeme.keyword limit feed.failure feed.used word meaning behind.left)
      (behind.keyword meaning word) := by
  have behindLimit : behind.used + behind.left.length = limit := one.limit.trans isLimit
  have read := keyword_read meaning word behind one.used behindLimit
  rw [Lexeme.keyword]
  generalize matchWord 1 word behind.left = matched at read
  generalize behind.keyword meaning word = found at read
  cases read with
  | whole past => exact ⟨rfl, one.trans past⟩
  | departs isPlace past =>
      have further := one.trans past
      rw [← isPlace] at further
      exact ⟨rfl, further⟩
  | ends past =>
      rw [one.failure]
      exact ⟨rfl, one.trans past⟩

theorem text_lexemeRead (one : feed.Past 1 behind) :
    LexemeRead feed
      (.text (Spelling.scan feed.failure behind.left),
        Lexeme.textWidth (Spelling.scan feed.failure behind.left) behind.left.length)
      (.text (behind.text []).1, (behind.text []).2) := by
  have read := text_read [] behind
  rcases read.past with ⟨width, isWidth, past⟩
  rw [← one.failure, read.spelling, isWidth]
  exact ⟨rfl, one.trans past⟩

/-- What is found behind a byte that is used is the lexeme that begins with it. -/
theorem lexeme_read (isLeft : feed.left = byte :: behind.left) (one : feed.Past 1 behind)
    (isLimit : feed.used + feed.left.length = limit) :
    LexemeRead feed (Lexeme.scan limit feed.failure feed.used byte behind.left)
      (behind.lexeme byte) := by
  by_cases comma : byte = 0x2c
  · subst comma; exact ⟨rfl, one⟩
  by_cases colon : byte = 0x3a
  · subst colon; exact ⟨rfl, one⟩
  by_cases arrayStart : byte = 0x5b
  · subst arrayStart; exact ⟨rfl, one⟩
  by_cases arrayEnd : byte = 0x5d
  · subst arrayEnd; exact ⟨rfl, one⟩
  by_cases objectStart : byte = 0x7b
  · subst objectStart; exact ⟨rfl, one⟩
  by_cases objectEnd : byte = 0x7d
  · subst objectEnd; exact ⟨rfl, one⟩
  by_cases null : byte = 0x6e
  · subst null; exact keyword_lexemeRead _ _ one isLimit
  by_cases yes : byte = 0x74
  · subst yes; exact keyword_lexemeRead _ _ one isLimit
  by_cases no : byte = 0x66
  · subst no; exact keyword_lexemeRead _ _ one isLimit
  by_cases quoted : byte = quoteByte
  · subst quoted; exact text_lexemeRead one
  simp only [Lexeme.scan, lexeme, if_neg comma, if_neg colon, if_neg arrayStart, if_neg arrayEnd,
    if_neg objectStart, if_neg objectEnd, if_neg null, if_neg yes, if_neg no, if_neg quoted]
  by_cases digits : (byte = 0x2d || (digit? byte).isSome) = true
  · simp only [if_pos digits, ← isLeft]
    exact numeral_read isLeft one isLimit
  · simp only [if_neg digits]
    exact ⟨rfl, one⟩

/-!
## Tokens
-/

/-- A feed behind blanks has used some bytes, and the scanner of tokens passes over them too. -/
theorem pastBlanks_read (limit : Nat) (feed : Feed) :
    (Exists fun count => feed.Past count feed.pastBlanks) ∧
      Token.scan limit feed.failure feed.used feed.left =
        Token.scan limit feed.failure feed.pastBlanks.used feed.pastBlanks.left ∧
      ∀ byte ∈ feed.pastBlanks.left.head?, isBlankByte byte = false := by
  unfold pastBlanks
  fun_induction gather (fun byte => if isBlankByte byte then some () else none) feed with
  | case1 feed behind looked =>
      rcases peek_none looked with ⟨rfl, nothing⟩
      refine ⟨⟨0, .refl behind⟩, rfl, ?_⟩
      rw [nothing]
      rintro _ ⟨⟩
  | case2 feed byte faced looked _ accepted _ inductionHypothesis =>
      rcases peek_some looked with ⟨isLeft, _, one⟩
      rcases inductionHypothesis with ⟨⟨count, past⟩, same, notBlank⟩
      refine ⟨⟨_, one.trans past⟩, ?_, notBlank⟩
      have isBlank : isBlankByte byte = true := (Option.ite_none_right_eq_some.mp accepted).1
      rw [isLeft, Token.scan, if_pos isBlank, ← one.used, ← one.failure]
      exact same
  | case3 feed byte faced looked refused =>
      rcases peek_some looked with ⟨isLeft, facing, _⟩
      refine ⟨⟨0, facing⟩, ?_, ?_⟩
      · rw [facing.left, facing.used]
        rfl
      · rw [facing.left, isLeft]
        rintro first ⟨⟩
        simpa using refused

/-- The first token of what is left is the one that is found with all bytes in hand, and behind
it both go on with the same bytes. -/
theorem token_read (looked : feed.pastBlanks.peek = (some byte, faced))
    (isLimit : feed.used + feed.left.length = limit) :
    let found := faced.discard.lexeme byte
    let token : Token := ⟨found.1, faced.used, found.2.used⟩
    found.2.used + found.2.left.length = limit ∧
      Token.scan limit feed.failure feed.used feed.left =
        if found.1.isLast then [token]
        else token :: Token.scan limit found.2.failure found.2.used found.2.left := by
  rcases pastBlanks_read limit feed with ⟨⟨_, past⟩, same, notBlank⟩
  rcases peek_some looked with ⟨isLeft, facing, one⟩
  have isLimit : feed.pastBlanks.used + feed.pastBlanks.left.length = limit := by
    rw [past.limit, isLimit]
  have read := lexeme_read isLeft one isLimit
  rw [isLeft] at notBlank
  rcases scanned : Lexeme.scan limit feed.pastBlanks.failure feed.pastBlanks.used byte
    faced.discard.left with ⟨lexeme, width⟩
  rw [same, isLeft, ← past.failure, Token.scan_cons (notBlank byte rfl) scanned, facing.used]
  rw [scanned] at read
  generalize faced.discard.lexeme byte = found at read ⊢
  rcases found with ⟨other, behind⟩
  rcases read with ⟨isLexeme, further⟩
  refine ⟨by rw [further.limit, isLimit], ?_⟩
  simp only at isLexeme further ⊢
  subst isLexeme
  rw [further.used, further.failure]
  cases last : other.isLast with
  | true => rfl
  | false =>
      -- A lexeme that is not the last one has a first byte.
      rcases Lexeme.scan_ok scanned last with ⟨spelled, rest, split, spells, isWidth, _⟩
      rcases spells.first with ⟨first, others, rfl, _⟩
      rcases width with _ | width
      · exact absurd isWidth (Nat.succ_ne_zero _)
      · simp only [further.left, isLeft, List.drop_succ_cons, Nat.add_sub_cancel, Nat.add_assoc,
          Nat.add_comm 1 width]
        rfl

/-- A feed has the tokens that are found with all bytes in hand. -/
theorem tokens_eq (feed : Feed) (isLimit : feed.used + feed.left.length = limit) :
    feed.tokens = Token.scan limit feed.failure feed.used feed.left := by
  fun_induction tokens feed with
  | case1 feed faced looked =>
      rcases pastBlanks_read limit feed with ⟨⟨_, past⟩, same, _⟩
      rcases peek_none looked with ⟨rfl, nothing⟩
      rw [same, nothing, Token.scan, past.failure]
  | case2 feed byte faced looked found token isLast =>
      rcases token_read looked isLimit with ⟨_, scanned⟩
      rw [scanned, if_pos isLast]
  | case3 feed byte faced looked found token goesOn inductionHypothesis =>
      rcases token_read looked isLimit with ⟨further, scanned⟩
      rw [scanned, if_neg goesOn, inductionHypothesis further]

theorem ofSupply_tokens (supply : Supply) : (ofSupply supply).tokens = supply.tokens :=
  tokens_eq (ofSupply supply) (Nat.zero_add _)

theorem ofSupply_tree (supply : Supply) : (ofSupply supply).tree = supply.tree := by
  rw [tree, ofSupply_tokens, Supply.tree]

end Feed
/-!
## Positions
-/

/-- A position that is carried along bytes, where the last one comes first. -/
theorem foldr_step (bytes : List UInt8) :
    bytes.foldr (fun byte position => Position.step position byte) ⟨1, 0⟩ =
      ⟨1 + bytes.count lineFeed, (bytes.takeWhile (· != lineFeed)).length⟩ := by
  induction bytes with
  | nil => rfl
  | cons byte bytes inductionHypothesis =>
      rw [List.foldr_cons, inductionHypothesis, Position.step]
      by_cases isFeed : byte = lineFeed
      · simp [isFeed, Nat.add_assoc]
      · simp [isFeed]

/-- A position that is carried along is the one that is found once it is wanted. -/
theorem Medium.position_eq (medium : Medium) (bytes : List UInt8) (offset : Nat) :
    medium.position bytes offset = positionAfter bytes offset := by
  cases medium with
  | text => rfl
  | stream =>
      rw [Medium.position, List.foldl_eq_foldr_reverse, foldr_step, List.count_reverse]
      rfl

end Json
end RepoInspector
