import RepoInspector.Proofs.Json.NumeralScan

namespace RepoInspector
namespace Json

/-!
# Scanning tokens

Scanning inverts the grammar: from bytes that spell lexemes the scanner gives
tokens with just these lexemes and one more for the end of the document, and
whenever its tokens end so, the bytes spell their lexemes.
-/

theorem Piece.Spelled.length {piece : Piece} {bytes : List UInt8}
    (spelled : piece.Spelled bytes) : bytes.length = piece.width := by
  cases spelled <;> rfl

theorem Piece.AllSpelled.length {pieces : List Piece} {bytes : List UInt8}
    (spelled : Piece.AllSpelled pieces bytes) :
    bytes.length = Spelling.piecesWidth pieces := by
  induction spelled with
  | nil => rfl
  | cons head _ inductionHypothesis =>
      rw [List.length_append, inductionHypothesis, head.length]
      rfl

namespace Spelling

theorem scan_quote (failure : Option String) (bytes : List UInt8) :
    scan failure (quoteByte :: bytes) = ⟨[], .closed⟩ := by
  rw [scan.eq_def]
  exact if_pos rfl

/-- A spelled piece is scanned, and the scan goes on behind it. -/
theorem scan_piece (failure : Option String) {piece : Piece} {spelled : List UInt8}
    (spells : piece.Spelled spelled) (bytes : List UInt8) :
    scan failure (spelled ++ bytes) = (scan failure bytes).add piece := by
  have backslash_ne : backslash ≠ quoteByte := by decide
  cases spells with
  | raw notQuote notBackslash notControl =>
      rw [scan.eq_def]
      simp only [List.singleton_append, if_neg notQuote, if_neg notBackslash, if_neg notControl]
  | short known =>
      rename_i letter byte
      have notUnit : letter ≠ 0x75 := by
        intro same
        rw [same] at known
        cases known
      rw [scan.eq_def]
      simp only [List.cons_append, List.nil_append, if_neg backslash_ne, if_true, if_neg notUnit,
        known]
  | unit known =>
      rw [scan.eq_def]
      simp only [List.cons_append, List.nil_append, if_neg backslash_ne, if_true, known]

/-- Spelled pieces are scanned up to the closing quote. -/
theorem scan_append (failure : Option String) {pieces : List Piece} {bytes : List UInt8}
    (spelled : Piece.AllSpelled pieces bytes) (rest : List UInt8) :
    scan failure (bytes ++ quoteByte :: rest) = ⟨pieces, .closed⟩ := by
  induction spelled with
  | nil => exact scan_quote failure rest
  | cons head _ inductionHypothesis =>
      rw [List.append_assoc, scan_piece failure head, inductionHypothesis]
      rfl

theorem add_closed {piece : Piece} {spelling : Spelling} {pieces : List Piece}
    (same : spelling.add piece = ⟨pieces, .closed⟩) :
    Exists fun others => pieces = piece :: others ∧ spelling = ⟨others, .closed⟩ := by
  rcases spelling with ⟨others, ending⟩
  cases same
  exact ⟨others, rfl, rfl⟩

/-- What is scanned up to a closing quote is spelled there. -/
theorem scan_closed {failure : Option String} {bytes : List UInt8} {pieces : List Piece}
    (scanned : scan failure bytes = ⟨pieces, .closed⟩) :
    Exists fun spelled => Exists fun rest =>
      bytes = spelled ++ quoteByte :: rest ∧ Piece.AllSpelled pieces spelled := by
  fun_induction scan failure bytes generalizing pieces with
  | case1 | case3 | case5 | case6 | case8 | case9 => cases scanned
  | case2 bytes =>
      cases scanned
      exact ⟨[], bytes, rfl, .nil⟩
  | case4 a b c d bytes code known _ inductionHypothesis =>
      rcases add_closed scanned with ⟨others, rfl, closed⟩
      rcases inductionHypothesis closed with ⟨spelled, rest, split, spells⟩
      refine ⟨[backslash, 0x75, a, b, c, d] ++ spelled, rest, ?_, .cons (.unit known) spells⟩
      rw [split, List.append_assoc]
      rfl
  | case7 letter bytes _ byte known _ inductionHypothesis =>
      rcases add_closed scanned with ⟨others, rfl, closed⟩
      rcases inductionHypothesis closed with ⟨spelled, rest, split, spells⟩
      refine ⟨[backslash, letter] ++ spelled, rest, ?_, .cons (.short known) spells⟩
      rw [split, List.append_assoc]
      rfl
  | case10 byte bytes notQuote notBackslash notControl inductionHypothesis =>
      rcases add_closed scanned with ⟨others, rfl, closed⟩
      rcases inductionHypothesis closed with ⟨spelled, rest, split, spells⟩
      refine ⟨[byte] ++ spelled, rest, ?_, .cons (.raw notQuote notBackslash notControl) spells⟩
      rw [split, List.append_assoc]
      rfl

end Spelling

theorem matchWord_append (index : Nat) (word rest : List UInt8) :
    matchWord index word (word ++ rest) = .whole := by
  induction word generalizing index with
  | nil => rfl
  | cons letter word inductionHypothesis =>
      rw [List.cons_append, matchWord, if_pos rfl]
      exact inductionHypothesis (index + 1)

theorem matchWord_whole {index : Nat} {word bytes : List UInt8}
    (same : matchWord index word bytes = .whole) : Exists fun rest => bytes = word ++ rest := by
  fun_induction matchWord index word bytes with
  | case1 index bytes => exact ⟨bytes, rfl⟩
  | case2 => cases same
  | case3 index letter word bytes inductionHypothesis =>
      rcases inductionHypothesis same with ⟨rest, split⟩
      exact ⟨rest, by rw [split]; rfl⟩
  | case4 => cases same

namespace Lexeme

variable {limit start : Nat} {failure : Option String}

/-- Whether a byte begins a numeral. -/
def BeginsNumeral (byte : UInt8) : Prop :=
  byte = 0x2d ∨ Exists fun digit : Digit => byte = UInt8.ofNat (48 + digit.val)

theorem beginsNumeral_of_spelled {numeral : Numeral} {bytes : List UInt8}
    (spelled : numeral.Spelled bytes) :
    Exists fun byte => Exists fun rest => bytes = byte :: rest ∧ BeginsNumeral byte := by
  rcases spelled with ⟨whole, fractionPart, exponentPart⟩
  cases numeral.negative with
  | true => exact ⟨_, _, rfl, .inl rfl⟩
  | false =>
      cases digits : numeral.whole with
      | nil => exact absurd digits whole.1
      | cons digit others => exact ⟨_, _, rfl, .inr ⟨digit, rfl⟩⟩

variable (limit start failure) in
theorem scan_numeral {byte : UInt8} (begins : BeginsNumeral byte) (bytes : List UInt8) :
    isBlankByte byte = false ∧
      scan limit failure start byte bytes = numeral limit failure start (byte :: bytes) := by
  rcases begins with rfl | ⟨digit, rfl⟩
  · exact ⟨rfl, rfl⟩
  · have known := digit?_digitByte digit
    have others : forall digit : Digit, UInt8.ofNat (48 + digit.val) ∉
        [0x2c, 0x3a, 0x5b, 0x5d, 0x7b, 0x7d, 0x6e, 0x74, 0x66, quoteByte] ∧
          isBlankByte (UInt8.ofNat (48 + digit.val)) = false := by decide
    have other := (others digit).1
    simp only [List.mem_cons, List.not_mem_nil, or_false, not_or] at other
    refine ⟨(others digit).2, ?_⟩
    simp only [scan, other, known, if_false, Option.isSome_some, Bool.or_true, if_true]

/-- A spelled lexeme has a first byte, and that is no blank. -/
theorem Spelled.first {lexeme : Lexeme} {spelled : List UInt8} (spells : lexeme.Spelled spelled) :
    Exists fun byte => Exists fun bytes => spelled = byte :: bytes ∧
      isBlankByte byte = false := by
  cases spells with
  | comma | colon | arrayStart | arrayEnd | objectStart | objectEnd | null | trueWord | falseWord
  | text =>
      exact ⟨_, _, rfl, rfl⟩
  | number spelledNumeral =>
      rcases beginsNumeral_of_spelled spelledNumeral with ⟨byte, bytes, split, begins⟩
      exact ⟨byte, bytes, split, (scan_numeral 0 0 none begins bytes).1⟩

/-- What is behind a lexeme, counted from behind its first byte. -/
theorem Spelled.drop {lexeme : Lexeme} {spelled : List UInt8} (spells : lexeme.Spelled spelled)
    {byte : UInt8} {bytes rest : List UInt8} (split : byte :: bytes = spelled ++ rest) :
    bytes.drop (spelled.length - 1) = rest := by
  rcases spells.first with ⟨first, others, rfl, _⟩
  cases split
  exact List.drop_left

/-- What may follow a lexeme: anything, but behind a number a byte that ends it. -/
def Ends : Lexeme -> List UInt8 -> Prop
  | .number numeral, rest => numeral.Ended rest
  | _, _ => True

/-- What ends a lexeme is its next byte. -/
theorem Ends.of_head? {lexeme : Lexeme} {rest other : List UInt8} (ends : lexeme.Ends rest)
    (same : rest.head? = other.head?) : lexeme.Ends other := by
  cases lexeme with
  | number numeral => exact Numeral.Ended.of_head? ends same
  | comma | colon | arrayStart | arrayEnd | objectStart | objectEnd | null | boolean
  | text | malformed | stray | finish => trivial

theorem Ends.nil (lexeme : Lexeme) : lexeme.Ends [] := by
  cases lexeme with
  | number numeral => exact Numeral.Ended.nil numeral
  | comma | colon | arrayStart | arrayEnd | objectStart | objectEnd | null | boolean
  | text | malformed | stray | finish => trivial

variable (limit start) in
/-- A spelled lexeme is scanned in its whole width. -/
theorem scan_append {lexeme : Lexeme} {spelled : List UInt8} (spells : lexeme.Spelled spelled)
    {rest : List UInt8} (ends : lexeme.Ends rest) :
    Exists fun byte => Exists fun bytes => spelled = byte :: bytes ∧
      isBlankByte byte = false ∧
      scan limit none start byte (bytes ++ rest) = (lexeme, spelled.length) ∧
      lexeme.isLast = false := by
  cases spells with
  | comma => exact ⟨_, _, rfl, rfl, rfl, rfl⟩
  | colon => exact ⟨_, _, rfl, rfl, rfl, rfl⟩
  | arrayStart => exact ⟨_, _, rfl, rfl, rfl, rfl⟩
  | arrayEnd => exact ⟨_, _, rfl, rfl, rfl, rfl⟩
  | objectStart => exact ⟨_, _, rfl, rfl, rfl, rfl⟩
  | objectEnd => exact ⟨_, _, rfl, rfl, rfl, rfl⟩
  | null =>
      refine ⟨_, _, rfl, rfl, ?_, rfl⟩
      change keyword limit none start [0x75, 0x6c, 0x6c] .null ([0x75, 0x6c, 0x6c] ++ rest) = _
      rw [keyword, matchWord_append]
      rfl
  | trueWord =>
      refine ⟨_, _, rfl, rfl, ?_, rfl⟩
      change keyword limit none start [0x72, 0x75, 0x65] (.boolean true)
        ([0x72, 0x75, 0x65] ++ rest) = _
      rw [keyword, matchWord_append]
      rfl
  | falseWord =>
      refine ⟨_, _, rfl, rfl, ?_, rfl⟩
      change keyword limit none start [0x61, 0x6c, 0x73, 0x65] (.boolean false)
        ([0x61, 0x6c, 0x73, 0x65] ++ rest) = _
      rw [keyword, matchWord_append]
      rfl
  | number spelledNumeral =>
      rename_i numeral
      rcases beginsNumeral_of_spelled spelledNumeral with ⟨byte, bytes, split, begins⟩
      have found := scan_numeral limit start none begins
        (bytes ++ rest)
      refine ⟨byte, bytes, split, found.1, ?_, rfl⟩
      rw [found.2, ← List.cons_append, ← split, Lexeme.numeral,
        Numeral.scan_append spelledNumeral ends, spelledNumeral.length]
      rfl
  | text spelledPieces =>
      rename_i pieces bytes
      refine ⟨_, _, rfl, rfl, ?_, rfl⟩
      have closed := Spelling.scan_append none spelledPieces rest
      change (Lexeme.text (Spelling.scan none ((bytes ++ [quoteByte]) ++ rest)), textWidth
        (Spelling.scan none ((bytes ++ [quoteByte]) ++ rest)) _) = _
      rw [List.append_assoc, List.singleton_append, closed]
      simp only [textWidth, List.length_cons, List.length_append, List.length_nil,
        spelledPieces.length]
      exact Prod.ext rfl (Nat.add_comm _ _)

/-- A scalar that is no text, well formed or not. -/
def Plain : Lexeme -> Prop
  | .null | .boolean _ | .number _ | .malformed _ _ => True
  | _ => False

/-- What the scanner of a lexeme does with what follows the first byte, by what that byte
begins. -/
inductive Scans (byte : UInt8) :
    (Nat -> Option String -> Nat -> List UInt8 -> Lexeme × Nat) -> Prop
  | sign {lexeme : Lexeme} (spells : lexeme.Spelled [byte]) (other : lexeme.isLast = false)
      (ends : forall rest, lexeme.Ends rest) : Scans byte fun _ _ _ _ => (lexeme, 1)
  | keyword {word : List UInt8} {meaning : Lexeme} (spells : meaning.Spelled (byte :: word))
      (other : meaning.isLast = false) (plain : meaning.Plain)
      (ends : forall rest, meaning.Ends rest) :
      Scans byte fun limit failure start bytes => keyword limit failure start word meaning bytes
  | text (quoted : byte = quoteByte) : Scans byte fun _ failure _ bytes =>
      (.text (Spelling.scan failure bytes), textWidth (Spelling.scan failure bytes) bytes.length)
  | numeral : Scans byte fun limit failure start bytes =>
      Lexeme.numeral limit failure start (byte :: bytes)
  | stray : Scans byte fun _ _ _ _ => (.stray, 1)

theorem scan_scans (byte : UInt8) :
    Scans byte fun limit failure start bytes => scan limit failure start byte bytes := by
  by_cases comma : byte = 0x2c
  · subst comma; exact .sign .comma rfl fun _ => trivial
  by_cases colon : byte = 0x3a
  · subst colon; exact .sign .colon rfl fun _ => trivial
  by_cases arrayStart : byte = 0x5b
  · subst arrayStart; exact .sign .arrayStart rfl fun _ => trivial
  by_cases arrayEnd : byte = 0x5d
  · subst arrayEnd; exact .sign .arrayEnd rfl fun _ => trivial
  by_cases objectStart : byte = 0x7b
  · subst objectStart; exact .sign .objectStart rfl fun _ => trivial
  by_cases objectEnd : byte = 0x7d
  · subst objectEnd; exact .sign .objectEnd rfl fun _ => trivial
  by_cases null : byte = 0x6e
  · subst null; exact .keyword .null rfl trivial fun _ => trivial
  by_cases yes : byte = 0x74
  · subst yes; exact .keyword .trueWord rfl trivial fun _ => trivial
  by_cases no : byte = 0x66
  · subst no; exact .keyword .falseWord rfl trivial fun _ => trivial
  by_cases quoted : byte = quoteByte
  · subst quoted; exact .text rfl
  simp only [scan, if_neg comma, if_neg colon, if_neg arrayStart, if_neg arrayEnd,
    if_neg objectStart, if_neg objectEnd, if_neg null, if_neg yes, if_neg no, if_neg quoted]
  by_cases digits : (byte = 0x2d || (digit? byte).isSome) = true
  · simp only [if_pos digits]; exact .numeral
  · simp only [if_neg digits]; exact .stray

/-- What the scanner of a lexeme can come to, by what its first byte begins. -/
inductive Found (limit : Nat) (failure : Option String) (start : Nat) (byte : UInt8)
    (bytes : List UInt8) : Lexeme × Nat -> Prop
  | sign {lexeme : Lexeme} (spells : lexeme.Spelled [byte]) (other : lexeme.isLast = false)
      (ends : forall rest, lexeme.Ends rest) :
      Found limit failure start byte bytes (lexeme, 1)
  | keyword {word : List UInt8} {meaning : Lexeme} (spells : meaning.Spelled (byte :: word))
      (other : meaning.isLast = false) (ends : forall rest, meaning.Ends rest) :
      Found limit failure start byte bytes (keyword limit failure start word meaning bytes)
  | text (quoted : byte = quoteByte) :
      Found limit failure start byte bytes
        (.text (Spelling.scan failure bytes), textWidth (Spelling.scan failure bytes) bytes.length)
  | numeral : Found limit failure start byte bytes
      (Lexeme.numeral limit failure start (byte :: bytes))
  | stray : Found limit failure start byte bytes (.stray, 1)

variable (limit start failure) in
theorem scan_found (byte : UInt8) (bytes : List UInt8) :
    Found limit failure start byte bytes (scan limit failure start byte bytes) := by
  have scans := scan_scans byte
  generalize scanner : (fun limit failure start bytes => scan limit failure start byte bytes) =
    scanned at scans
  have isScan : scan limit failure start byte bytes = scanned limit failure start bytes := by
    rw [← scanner]
  rw [isScan]
  cases scans with
  | sign spells other ends => exact .sign spells other ends
  | keyword spells other _ ends => exact .keyword spells other ends
  | text quoted => exact .text quoted
  | numeral => exact .numeral
  | stray => exact .stray

variable (limit start failure) in
/-- A keyword that is scanned is there, or its lexeme is malformed. -/
theorem keyword_cases (word bytes : List UInt8) (meaning : Lexeme) :
    (keyword limit failure start word meaning bytes = (meaning, 1 + word.length) ∧
      Exists fun rest => bytes = word ++ rest) ∨
    Exists fun fault => (keyword limit failure start word meaning bytes).1 =
      .malformed fault fault := by
  cases same : matchWord 1 word bytes with
  | whole => exact .inl ⟨by rw [keyword, same], matchWord_whole same⟩
  | departs index => exact .inr ⟨_, by rw [keyword, same]⟩
  | ends => exact .inr ⟨_, by rw [keyword, same]⟩

variable (limit start failure) in
/-- A numeral that is scanned is there, or its lexeme is malformed. -/
theorem numeral_cases (bytes : List UInt8) :
    (Exists fun found : Numeral =>
      Lexeme.numeral limit failure start bytes = (.number found, found.width) ∧
      Exists fun spelled => Exists fun rest =>
        bytes = spelled ++ rest ∧ found.Spelled spelled ∧ found.Ended rest) ∨
    Exists fun read => Exists fun pass =>
      (Lexeme.numeral limit failure start bytes).1 = .malformed read pass := by
  unfold Lexeme.numeral
  split
  case h_1 found scanned =>
    split
    case isTrue => exact .inr ⟨_, _, rfl⟩
    case isFalse => exact .inl ⟨found, rfl, Numeral.scan_ok scanned⟩
  case h_2 =>
    split <;> exact .inr ⟨_, _, rfl⟩

/-- A lexeme after which the scan goes on is spelled where it was found, and ends there. -/
theorem scan_ok {byte : UInt8} {bytes : List UInt8} {lexeme : Lexeme} {width : Nat}
    (scanned : scan limit failure start byte bytes = (lexeme, width))
    (goesOn : lexeme.isLast = false) :
    Exists fun spelled => Exists fun rest =>
      byte :: bytes = spelled ++ rest ∧ lexeme.Spelled spelled ∧ spelled.length = width ∧
        lexeme.Ends rest := by
  have found := scan_found limit start failure byte bytes
  rw [scanned] at found
  generalize result : (lexeme, width) = pair at found
  cases found with
  | sign spells _ ends =>
      cases result
      exact ⟨_, bytes, rfl, spells, rfl, ends bytes⟩
  | @keyword word meaning spells _ ends =>
      rcases keyword_cases limit start failure word bytes meaning with
        ⟨whole, rest, split⟩ | ⟨fault, broken⟩
      · rw [whole] at result
        cases result
        exact ⟨byte :: word, rest, by rw [split]; rfl, spells, Nat.add_comm _ _, ends rest⟩
      · rw [← result] at broken
        cases broken
        cases goesOn
  | text quoted =>
      rcases spelling : Spelling.scan failure bytes with ⟨pieces, ending⟩
      rw [spelling] at result
      cases result
      have closed : ending = .closed := by simpa [isLast] using goesOn
      rw [closed] at spelling ⊢
      rcases Spelling.scan_closed spelling with ⟨spelled, rest, split, spells⟩
      refine ⟨quoteByte :: (spelled ++ [quoteByte]), rest, ?_, .text spells, ?_, trivial⟩
      · rw [quoted, split, List.cons_append, List.append_assoc, List.singleton_append]
      · simp only [textWidth, List.length_cons, List.length_append, List.length_nil,
          spells.length]
        omega
  | numeral =>
      rcases numeral_cases limit start failure (byte :: bytes) with
        ⟨numeral, whole, spelled, rest, split, spells, ended⟩ | ⟨_, _, broken⟩
      · rw [whole] at result
        cases result
        exact ⟨spelled, rest, split, .number spells, spells.length, ended⟩
      · rw [← result] at broken
        cases broken
        cases goesOn
  | stray =>
      cases result
      cases goesOn

/-- The scanner of a lexeme never finds the end of the document. -/
theorem scan_ne_finish (byte : UInt8) (bytes : List UInt8) (reason : Option String) :
    (scan limit failure start byte bytes).1 ≠ .finish reason := by
  generalize result : scan limit failure start byte bytes = pair
  have found := scan_found limit start failure byte bytes
  rw [result] at found
  intro same
  cases found with
  | @sign lexeme spells other _ =>
      have isFinish : lexeme = .finish reason := same
      rw [isFinish] at other
      cases other
  | @keyword word meaning spells other _ =>
      rcases keyword_cases limit start failure word bytes meaning with
        ⟨whole, _⟩ | ⟨fault, broken⟩
      · rw [whole] at same
        have isFinish : meaning = .finish reason := same
        rw [isFinish] at other
        cases other
      · exact Lexeme.noConfusion (broken.symm.trans same)
  | text => cases same
  | numeral =>
      rcases numeral_cases limit start failure (byte :: bytes) with
        ⟨numeral, whole, _⟩ | ⟨_, _, broken⟩
      · rw [whole] at same
        cases same
      · exact Lexeme.noConfusion (broken.symm.trans same)
  | stray => cases same

end Lexeme

/-- Lexemes that may stand behind a number are spelled by bytes that end it. -/
theorem Layout.stops {lexemes : List Lexeme} {bytes : List UInt8} (layout : Layout lexemes bytes)
    (delimited : Delimited lexemes) : Numeral.Stops bytes := by
  cases layout with
  | nil => trivial
  | blank isBlank =>
      rename_i byte bytes
      simp only [isBlankByte, Bool.or_eq_true, decide_eq_true_eq] at isBlank
      rcases isBlank with ((rfl | rfl) | rfl) | rfl <;>
        exact ⟨rfl, by decide, by decide, by decide⟩
  | lexeme spelled _ =>
      cases spelled with
      | comma | arrayEnd | objectEnd => exact ⟨rfl, by decide, by decide, by decide⟩
      | colon | arrayStart | objectStart | null | trueWord | falseWord | number | text =>
          exact delimited.elim

namespace Token

/-- The scan of bytes that begin with a token. -/
theorem scan_cons {limit start : Nat} {failure : Option String} {byte : UInt8}
    {bytes : List UInt8} (notBlank : isBlankByte byte = false) {lexeme : Lexeme} {width : Nat}
    (found : Lexeme.scan limit failure start byte bytes = (lexeme, width)) :
    Token.scan limit failure start (byte :: bytes) =
      if lexeme.isLast then [⟨lexeme, start, start + width⟩]
      else ⟨lexeme, start, start + width⟩ ::
        Token.scan limit failure (start + 1 + (width - 1)) (bytes.drop (width - 1)) := by
  rw [Token.scan, if_neg (by rw [notBlank]; exact Bool.false_ne_true), found]

/-- Only the last token of a document ends the reading. -/
theorem scan_last {limit start : Nat} {failure : Option String} {bytes : List UInt8}
    {before after : List Token} {token : Token}
    (scanned : Token.scan limit failure start bytes = before ++ token :: after)
    (isLast : token.lexeme.isLast = true) : after = [] := by
  fun_induction Token.scan limit failure start bytes generalizing before with
  | case1 start =>
      cases before with
      | nil => cases scanned; rfl
      | cons first before => simp at scanned
  | case2 start byte bytes _ inductionHypothesis => exact inductionHypothesis scanned
  | case3 start byte bytes _ found single =>
      cases before with
      | nil => exact (List.cons.inj scanned).2.symm
      | cons first before => simp at scanned
  | case4 start byte bytes _ found single goesOn =>
      rename_i inductionHypothesis
      cases before with
      | nil =>
          have same : single = token := (List.cons.inj scanned).1
          rw [← same] at isLast
          exact absurd isLast goesOn
      | cons first before => exact inductionHypothesis (List.cons.inj scanned).2

/-- Every document is scanned up to a token that ends the reading. -/
theorem scan_ends (limit start : Nat) (failure : Option String) (bytes : List UInt8) :
    Exists fun before => Exists fun token =>
      Token.scan limit failure start bytes = before ++ [token] ∧ token.lexeme.isLast = true := by
  fun_induction Token.scan limit failure start bytes with
  | case1 start => exact ⟨[], _, rfl, rfl⟩
  | case2 start byte bytes _ inductionHypothesis => exact inductionHypothesis
  | case3 start byte bytes _ found single isLast => exact ⟨[], _, rfl, isLast⟩
  | case4 start byte bytes _ found single _ inductionHypothesis =>
      rcases inductionHypothesis with ⟨before, token, split, isLast⟩
      exact ⟨single :: before, token, by rw [split]; rfl, isLast⟩

/-- Tokens that reach the end of a document were spelled by it. -/
theorem layout_of_scan {limit start : Nat} {failure : Option String} {bytes : List UInt8}
    {lexemes : List Lexeme}
    (scanned : (Token.scan limit failure start bytes).map Token.lexeme =
      lexemes ++ [.finish none]) :
    failure = none ∧ Layout lexemes bytes := by
  fun_induction Token.scan limit failure start bytes generalizing lexemes with
  | case1 start =>
      cases lexemes with
      | nil => cases scanned; exact ⟨rfl, .nil⟩
      | cons lexeme lexemes => simp at scanned
  | case2 start byte bytes isBlank inductionHypothesis =>
      have found := inductionHypothesis scanned
      exact ⟨found.1, .blank isBlank found.2⟩
  | case3 start byte bytes _ found single =>
      cases lexemes with
      | nil =>
          have isFinish : found.1 = .finish none := (List.cons.inj scanned).1
          exact absurd isFinish (Lexeme.scan_ne_finish _ _ none)
      | cons lexeme lexemes => simp at scanned
  | case4 start byte bytes _ found single goesOn =>
      rename_i inductionHypothesis
      have goesOn' : found.1.isLast = false := Bool.eq_false_iff.mpr goesOn
      cases lexemes with
      | nil =>
          have isFinish : found.1 = .finish none := (List.cons.inj scanned).1
          exact absurd isFinish (Lexeme.scan_ne_finish _ _ none)
      | cons lexeme lexemes =>
          have parts := List.cons.inj scanned
          have rest := inductionHypothesis parts.2
          rcases Lexeme.scan_ok (show Lexeme.scan limit failure start byte bytes =
            (found.1, found.2) from rfl) goesOn' with ⟨spelled, after, split, spells, width, _⟩
          refine ⟨rest.1, ?_⟩
          have isLexeme : found.1 = lexeme := parts.1
          rw [isLexeme] at spells
          have sameTail : bytes.drop (found.2 - 1) = after := width ▸ spells.drop split
          rw [split]
          rw [sameTail] at rest
          exact .lexeme spells rest.2

end Token
end Json
end RepoInspector
