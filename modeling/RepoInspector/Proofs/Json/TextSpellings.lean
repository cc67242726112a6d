import Mathlib.Data.List.Basic
import RepoInspector.Proofs.Json.Decodability
import RepoInspector.Proofs.Json.Fronts

namespace RepoInspector
namespace Json

/-!
# All spellings of a text

A character has many spellings: as it is, by its short escape, by one code unit
or by two, with hexadecimal digits of either case.  Any of them may be chosen
for any character of a text, and all of them denote the same text.  What is no
such spelling is not taken for one: a surrogate without its other half denotes
nothing, and an unknown escape or a control character ends the document.
-/

/-- The letters of the short escapes, and what they stand for. -/
def shortEscapes : List (Char × Char) :=
  [('\x22', '\x22'), ('\\', '\\'), ('/', '/'), ('b', '\x08'), ('f', '\x0c'), ('n', '\n'),
    ('r', '\r'), ('t', '\t')]

/-- The character that a byte stands for behind a backslash. -/
def escaped? (letter : UInt8) : Option Char := shortEscapes.lookup (Char.ofNat letter.toNat)

/-- The hexadecimal digits of both cases, and their values. -/
def hexDigits : List (Char × Nat) :=
  "0123456789abcdef".toList.zipIdx ++ "0123456789ABCDEF".toList.zipIdx

def hexDigit? (byte : UInt8) : Option Nat := hexDigits.lookup (Char.ofNat byte.toNat)

/-- The number that four hexadecimal digits spell. -/
def hexNumber? (a b c d : UInt8) : Option Nat := do
  let a ← hexDigit? a
  let b ← hexDigit? b
  let c ← hexDigit? c
  let d ← hexDigit? d
  some (16 * (16 * (16 * a + b) + c) + d)

/-- One spelling of a character. -/
inductive CharSpelled (char : Char) : List UInt8 -> Prop
  | raw (notQuote : char ≠ '\x22') (notBackslash : char ≠ '\\') (notControl : ¬ char.toNat < 32) :
      CharSpelled char (String.utf8EncodeChar char)
  | short {letter : UInt8} (known : escaped? letter = some char) :
      CharSpelled char [backslash, letter]
  | unit {a b c d : UInt8} (value : hexNumber? a b c d = some char.toNat) :
      CharSpelled char [backslash, 0x75, a, b, c, d]
  | pair {a b c d e f g h : UInt8} (large : 0x10000 ≤ char.toNat)
      (leading : hexNumber? a b c d = some (0xd800 + (char.toNat - 0x10000) / 0x400))
      (trailing : hexNumber? e f g h = some (0xdc00 + (char.toNat - 0x10000) % 0x400)) :
      CharSpelled char ([backslash, 0x75, a, b, c, d] ++ [backslash, 0x75, e, f, g, h])

/-- One spelling of each character, one after the other. -/
inductive TextSpelled : List Char -> List UInt8 -> Prop
  | nil : TextSpelled [] []
  | cons {char : Char} {chars : List Char} {first rest : List UInt8}
      (head : CharSpelled char first) (tail : TextSpelled chars rest) :
      TextSpelled (char :: chars) (first ++ rest)

/-!
## Escapes
-/

/-- What holds of every number below 256 holds of every byte. -/
theorem forall_byte {holds : UInt8 -> Prop} (each : ∀ n : Fin 256, holds (UInt8.ofNat n))
    (byte : UInt8) : holds byte := by
  have held := each ⟨byte.toNat, byte.toNat_lt⟩
  rwa [UInt8.ofNat_toNat] at held

theorem shortEscape?_eq (letter : UInt8) :
    shortEscape? letter = (escaped? letter).map fun char => UInt8.ofNat char.toNat := by
  revert letter
  exact forall_byte (by decide +kernel)

/-- A short escape stands for an ASCII character. -/
theorem escaped_ascii {letter : UInt8} {char : Char} (known : escaped? letter = some char) :
    String.utf8EncodeChar char = [UInt8.ofNat char.toNat] := by
  apply utf8EncodeChar_ascii
  have each : forall letter : UInt8,
      (escaped? letter).all (fun char => decide (char.toNat < 128)) = true :=
    forall_byte (by decide +kernel)
  exact of_decide_eq_true ((Option.all_eq_true _ _).mp (each letter) char known)

theorem hexDigit?_eq (byte : UInt8) : hexDigit? byte = (hexValue? byte).map UInt16.toNat := by
  revert byte
  exact forall_byte (by decide +kernel)

theorem hexValue_small {byte : UInt8} {value : UInt16} (known : hexValue? byte = some value) :
    value.toNat < 16 := by
  have each : forall byte : UInt8,
      (hexValue? byte).all (fun value => decide (value.toNat < 16)) = true :=
    forall_byte (by decide +kernel)
  exact of_decide_eq_true ((Option.all_eq_true _ _).mp (each byte) value known)

/-- A code unit is the number that its digits spell. -/
theorem hexNumber?_eq (a b c d : UInt8) :
    hexNumber? a b c d = (codeUnit? a b c d).map UInt16.toNat := by
  simp only [hexNumber?, codeUnit?, hexDigit?_eq]
  cases isA : hexValue? a with
  | none => rfl
  | some first =>
  cases isB : hexValue? b with
  | none => rfl
  | some second =>
  cases isC : hexValue? c with
  | none => rfl
  | some third =>
  cases isD : hexValue? d with
  | none => rfl
  | some fourth =>
      have bounds := And.intro (hexValue_small isA) (And.intro (hexValue_small isB)
        (And.intro (hexValue_small isC) (hexValue_small isD)))
      simp only [Option.map_some, Option.bind_eq_bind, Option.bind_some, Option.some.injEq,
        UInt16.toNat_add, UInt16.toNat_mul, UInt16.reduceToNat]
      omega

theorem exists_codeUnit {a b c d : UInt8} {n : Nat} (value : hexNumber? a b c d = some n) :
    Exists fun code => codeUnit? a b c d = some code ∧ code.toNat = n := by
  rw [hexNumber?_eq] at value
  exact Option.map_eq_some_iff.mp value

namespace Spelling

theorem isLeading_iff {code : UInt16} :
    isLeading code = true ↔ 0xd800 ≤ code.toNat ∧ code.toNat ≤ 0xdbff := by
  simp only [isLeading, Bool.and_eq_true, decide_eq_true_eq, UInt16.le_iff_toNat_le]
  rfl

theorem isTrailing_iff {code : UInt16} :
    isTrailing code = true ↔ 0xdc00 ≤ code.toNat ∧ code.toNat ≤ 0xdfff := by
  simp only [isTrailing, Bool.and_eq_true, decide_eq_true_eq, UInt16.le_iff_toNat_le]
  rfl

end Spelling

/-- No character is a surrogate. -/
theorem not_surrogate (char : Char) : char.toNat < 0xd800 ∨ 0xdfff < char.toNat :=
  char.valid.imp_right And.left

/-!
## What spellings denote
-/

namespace Piece

/-- A character's code unit denotes it. -/
theorem encoded?_unit {char : Char} {code : UInt16} (value : code.toNat = char.toNat)
    (rest : List Piece) :
    encoded? (.unit code :: rest) = (encoded? rest).map (String.utf8EncodeChar char ++ ·) := by
  have notTrailing : ¬ Spelling.isTrailing code = true := by
    rw [Spelling.isTrailing_iff, value]
    have := not_surrogate char
    omega
  have notLeading : ¬ Spelling.isLeading code = true := by
    rw [Spelling.isLeading_iff, value]
    have := not_surrogate char
    omega
  rw [encoded?.eq_def]
  simp only [if_neg notTrailing, if_neg notLeading, value, Char.ofNat_toNat]

/-- A surrogate pair denotes the character beyond the code units that it is
computed from. -/
theorem encoded?_pair {char : Char} (large : 0x10000 ≤ char.toNat) {first second : UInt16}
    (leading : first.toNat = 0xd800 + (char.toNat - 0x10000) / 0x400)
    (trailing : second.toNat = 0xdc00 + (char.toNat - 0x10000) % 0x400) (rest : List Piece) :
    encoded? (.unit first :: .unit second :: rest) =
      (encoded? rest).map (String.utf8EncodeChar char ++ ·) := by
  have most : char.toNat < 0x110000 := by
    have valid : char.toNat.isValidChar := char.valid
    exact valid.elim (fun small => by omega) And.right
  have isLeading : Spelling.isLeading first = true := by
    rw [Spelling.isLeading_iff]
    omega
  have isTrailing : Spelling.isTrailing second = true := by
    rw [Spelling.isTrailing_iff]
    omega
  have notTrailing : ¬ Spelling.isTrailing first = true := by
    rw [Spelling.isTrailing_iff]
    omega
  have isChar : Spelling.pairChar first second = char := by
    have value : (first.toNat - 0xd800) * 0x400 + (second.toNat - 0xdc00) + 0x10000 =
        char.toNat := by omega
    rw [Spelling.pairChar, value, Char.ofNat_toNat]
  rw [encoded?.eq_def]
  simp only [if_neg notTrailing, if_pos isLeading, if_pos isTrailing, isChar]

end Piece

/-- Every spelling of a character consists of pieces that denote it. -/
theorem CharSpelled.exists_pieces {char : Char} {bytes : List UInt8}
    (spelled : CharSpelled char bytes) :
    Exists fun pieces => Piece.AllSpelled pieces bytes ∧ forall rest,
      Piece.encoded? (pieces ++ rest) =
        (Piece.encoded? rest).map (String.utf8EncodeChar char ++ ·) := by
  cases spelled with
  | raw notQuote notBackslash notControl =>
      exact ⟨_, .raw (Piece.plain_utf8EncodeChar notQuote notBackslash notControl),
        Piece.encoded?_raw _⟩
  | @short letter known =>
      have isShort : shortEscape? letter = some (UInt8.ofNat char.toNat) := by
        rw [shortEscape?_eq, known]
        rfl
      refine ⟨_, .short isShort, fun rest => ?_⟩
      rw [escaped_ascii known]
      rfl
  | unit value =>
      rcases exists_codeUnit value with ⟨code, isCode, same⟩
      exact ⟨[.unit code], .cons (.unit isCode) .nil, Piece.encoded?_unit same⟩
  | pair large leading trailing =>
      rcases exists_codeUnit leading with ⟨first, isFirst, sameFirst⟩
      rcases exists_codeUnit trailing with ⟨second, isSecond, sameSecond⟩
      exact ⟨[.unit first, .unit second], .cons (.unit isFirst) (.cons (.unit isSecond) .nil),
        Piece.encoded?_pair large sameFirst sameSecond⟩

/-- Bytes are cut into pieces in one way only. -/
theorem Piece.AllSpelled.unique {pieces others : List Piece}
    {bytes : List UInt8} (first : Piece.AllSpelled pieces bytes)
    (second : Piece.AllSpelled others bytes) : pieces = others := by
  have same := (Spelling.scan_append none first []).symm.trans (Spelling.scan_append none second [])
  exact congrArg Spelling.pieces same

namespace TextSpelled

theorem exists_pieces {chars : List Char} {bytes : List UInt8} (spelled : TextSpelled chars bytes) :
    Exists fun pieces => Piece.AllSpelled pieces bytes ∧
      Piece.encoded? pieces = some (encodedChars chars) := by
  induction spelled with
  | nil => exact ⟨[], .nil, rfl⟩
  | cons head _ inductionHypothesis =>
      rcases head.exists_pieces with ⟨first, firstSpelled, firstEncoded⟩
      rcases inductionHypothesis with ⟨rest, restSpelled, restEncoded⟩
      refine ⟨first ++ rest, firstSpelled.append restSpelled, ?_⟩
      rw [firstEncoded, restEncoded]
      rfl

/-- Whatever spelling is chosen for a text, its pieces denote the text. -/
theorem denoted {s : String} {bytes : List UInt8} (spelled : TextSpelled s.toList bytes)
    {pieces : List Piece} (spells : Piece.AllSpelled pieces bytes) :
    Piece.denoted? pieces = some s := by
  rcases spelled.exists_pieces with ⟨others, alsoSpells, encoded⟩
  rw [spells.unique alsoSpells, Piece.denoted?, encoded, Option.bind_some,
    fromUTF8?_encodedChars, String.ofList_toList]

end TextSpelled

/-- A spelled text is read, wherever it stands. -/
theorem TextSpelled.read {s : String} {bytes : List UInt8} (spelled : TextSpelled s.toList bytes)
    (failure : Option String) (rest : List UInt8) (limit start : Nat) :
    (Spelling.scan failure (bytes ++ quoteByte :: rest)).read limit start = .ok s := by
  rcases spelled.exists_pieces with ⟨pieces, spells, _⟩
  rw [Spelling.scan_append failure spells]
  exact (Spelling.read_closed pieces s).mpr (spelled.denoted spells)

/-!
## The spelling that is written
-/

/-- A character is written as one of its spellings. -/
theorem writeChar_spelled (char : Char) : CharSpelled char (encodedChars (writeChar char)) := by
  unfold writeChar
  split
  case isTrue same =>
    subst same
    exact .short (by decide : escaped? 0x22 = some '\x22')
  case isFalse notQuote =>
  split
  case isTrue same =>
    subst same
    exact .short (by decide : escaped? 0x5c = some '\\')
  case isFalse notBackslash =>
  split
  case isTrue same =>
    subst same
    exact .short (by decide : escaped? 0x62 = some '\x08')
  case isFalse =>
  split
  case isTrue same =>
    subst same
    exact .short (by decide : escaped? 0x74 = some '\t')
  case isFalse =>
  split
  case isTrue same =>
    subst same
    exact .short (by decide : escaped? 0x6e = some '\n')
  case isFalse =>
  split
  case isTrue same =>
    subst same
    exact .short (by decide : escaped? 0x66 = some '\x0c')
  case isFalse =>
  split
  case isTrue same =>
    subst same
    exact .short (by decide : escaped? 0x72 = some '\r')
  case isFalse =>
  split
  case isTrue control =>
    have unit := Piece.control_unit ⟨char.toNat, control⟩
    have code : (UInt16.ofNat char.toNat).toNat = char.toNat := by
      rw [UInt16.toNat_ofNat']
      exact Nat.mod_eq_of_lt (by omega)
    rw [unit.1]
    apply CharSpelled.unit
    rw [hexNumber?_eq, unit.2.1, Option.map_some, code]
  case isFalse notControl =>
    have bytes : encodedChars [char] = String.utf8EncodeChar char := List.flatMap_singleton _ _
    rw [bytes]
    exact .raw notQuote notBackslash notControl

/-- A character that may stand for itself is written as it is. -/
theorem writeChar_raw {char : Char} (notQuote : char ≠ '\x22') (notBackslash : char ≠ '\\')
    (notControl : ¬ char.toNat < 32) : writeChar char = [char] := by
  have other : forall {control : Char}, control.toNat < 32 -> char ≠ control := by
    rintro control low rfl
    exact notControl low
  rw [writeChar, if_neg notQuote, if_neg notBackslash, if_neg (other (by decide)),
    if_neg (other (by decide)), if_neg (other (by decide)), if_neg (other (by decide)),
    if_neg (other (by decide)), if_neg notControl]

/-- The characters of a text are written one after the other. -/
theorem writeChars_spelled (chars : List Char) :
    TextSpelled chars (encodedChars (chars.flatMap writeChar)) := by
  induction chars with
  | nil => exact .nil
  | cons char chars inductionHypothesis =>
      rw [List.flatMap_cons, encodedChars_append]
      exact .cons (writeChar_spelled char) inductionHypothesis

/-!
## What is no spelling
-/

namespace Piece

/-- A surrogate without the other half next to it. -/
inductive Unpaired : List Piece -> Prop
  | leading {before after : List Piece} {code : UInt16} (leading : Spelling.isLeading code = true)
      (alone : forall second later, after = .unit second :: later ->
        Spelling.isTrailing second = false) : Unpaired (before ++ .unit code :: after)
  | trailing {before after : List Piece} {code : UInt16}
      (trailing : Spelling.isTrailing code = true)
      (alone : forall earlier first, before = earlier ++ [.unit first] ->
        Spelling.isLeading first = false) : Unpaired (before ++ .unit code :: after)

/-- What is unpaired behind a piece that takes no part in a pair is so without it. -/
theorem Unpaired.behind {piece : Piece} {pieces : List Piece}
    (unpaired : Unpaired (piece :: pieces))
    (single : forall code, piece = .unit code ->
      Spelling.isLeading code = false ∧ Spelling.isTrailing code = false) : Unpaired pieces := by
  generalize whole : piece :: pieces = list at unpaired
  cases unpaired with
  | @leading before after code leading alone =>
      rcases before with _ | ⟨head, before⟩
      · cases whole
        rw [(single code rfl).1] at leading
        cases leading
      · cases whole
        exact .leading leading alone
  | @trailing before after code trailing alone =>
      rcases before with _ | ⟨head, before⟩
      · cases whole
        rw [(single code rfl).2] at trailing
        cases trailing
      · cases whole
        refine .trailing trailing fun earlier first same => alone (piece :: earlier) first ?_
        rw [same, List.cons_append]

/-- What is unpaired behind a pair is so without it. -/
theorem Unpaired.behind_pair {first second : UInt16} {pieces : List Piece}
    (unpaired : Unpaired (.unit first :: .unit second :: pieces))
    (leading : Spelling.isLeading first = true) (trailing : Spelling.isTrailing second = true) :
    Unpaired pieces := by
  have firstOther : Spelling.isTrailing first ≠ true := fun both =>
    Bool.false_ne_true ((Spelling.not_leading_of_trailing both).symm.trans leading)
  have secondOther := Spelling.not_leading_of_trailing trailing
  generalize whole : Piece.unit first :: .unit second :: pieces = list at unpaired
  cases unpaired with
  | @leading before after code isLeading alone =>
      rcases before with _ | ⟨head, _ | ⟨next, before⟩⟩
      · cases whole
        rw [alone second pieces rfl] at trailing
        cases trailing
      · cases whole
        rw [secondOther] at isLeading
        cases isLeading
      · cases whole
        exact .leading isLeading alone
  | @trailing before after code isTrailing alone =>
      rcases before with _ | ⟨head, _ | ⟨next, before⟩⟩
      · cases whole
        exact absurd isTrailing firstOther
      · cases whole
        rw [alone [] first rfl] at leading
        cases leading
      · cases whole
        refine .trailing isTrailing fun earlier code same =>
          alone (.unit first :: .unit second :: earlier) code ?_
        rw [same, List.cons_append, List.cons_append]

/-- Where all surrogates come in pairs, none is unpaired. -/
theorem Paired.not_unpaired {pieces : List Piece} (paired : Paired pieces) :
    ¬ Unpaired pieces := by
  induction paired with
  | nil =>
      intro unpaired
      generalize whole : ([] : List Piece) = list at unpaired
      cases unpaired <;>
        exact List.append_ne_nil_of_right_ne_nil _ (List.cons_ne_nil _ _) whole.symm
  | raw _ inductionHypothesis | short _ inductionHypothesis =>
      exact fun unpaired => inductionHypothesis (unpaired.behind nofun)
  | unit notLeading notTrailing _ inductionHypothesis =>
      intro unpaired
      refine inductionHypothesis (unpaired.behind fun code same => ?_)
      cases same
      exact ⟨notLeading, notTrailing⟩
  | pair leading trailing _ inductionHypothesis =>
      exact fun unpaired => inductionHypothesis (unpaired.behind_pair leading trailing)

/-- Pieces with an unpaired surrogate denote no text. -/
theorem Unpaired.denoted {pieces : List Piece} (unpaired : Unpaired pieces) :
    denoted? pieces = none := by
  cases isText : denoted? pieces with
  | none => rfl
  | some s =>
      rcases Option.bind_eq_some_iff.mp isText with ⟨encoded, isEncoded, _⟩
      exact absurd unpaired ((exists_encoded_iff pieces).mp ⟨encoded, isEncoded⟩).not_unpaired

end Piece

/-- Bytes that are the beginning of no piece, nor a closing quote. -/
inductive Misspelled : List UInt8 -> Prop
  | control {byte : UInt8} {rest : List UInt8} (low : byte < 0x20) : Misspelled (byte :: rest)
  | escape {letter : UInt8} {rest : List UInt8} (notUnit : letter ≠ 0x75)
      (unknown : escaped? letter = none) : Misspelled (backslash :: letter :: rest)
  | unit {a b c d : UInt8} {rest : List UInt8} (unknown : hexNumber? a b c d = none) :
      Misspelled (backslash :: 0x75 :: a :: b :: c :: d :: rest)

/-- Behind the pieces of a text the scan goes on. -/
theorem Piece.AllSpelled.scan_ending {pieces : List Piece} {bytes : List UInt8}
    (spelled : AllSpelled pieces bytes) (failure : Option String) (rest : List UInt8) :
    (Spelling.scan failure (bytes ++ rest)).ending = (Spelling.scan failure rest).ending := by
  induction spelled with
  | nil => rfl
  | cons head _ inductionHypothesis =>
      rw [List.append_assoc, Spelling.scan_piece failure head]
      exact inductionHypothesis

/-- A text that is misspelled is not closed. -/
theorem Misspelled.not_closed {bytes : List UInt8} (misspelled : Misspelled bytes)
    (failure : Option String) : (Spelling.scan failure bytes).ending ≠ .closed := by
  cases misspelled with
  | @control byte rest low =>
      have notQuote : byte ≠ quoteByte := by
        rintro rfl
        exact absurd low (by decide)
      have notBackslash : byte ≠ backslash := by
        rintro rfl
        exact absurd low (by decide)
      rw [Spelling.scan.eq_def]
      simp only [if_neg notQuote, if_neg notBackslash, if_pos low]
      rintro ⟨⟩
  | @escape letter rest notUnit unknown =>
      have noEscape : shortEscape? letter = none := by
        rw [shortEscape?_eq, unknown]
        rfl
      rw [Spelling.scan.eq_def]
      simp only [if_neg (by decide : backslash ≠ quoteByte), if_true, if_neg notUnit, noEscape]
      rintro ⟨⟩
  | @unit a b c d rest unknown =>
      have noUnit : codeUnit? a b c d = none := by
        rwa [hexNumber?_eq, Option.map_eq_none_iff] at unknown
      rw [Spelling.scan.eq_def]
      simp only [if_neg (by decide : backslash ≠ quoteByte), if_true, noUnit]
      rintro ⟨⟩

/-- A text that is not closed is the last token. -/
theorem Token.scan_unclosed (limit start : Nat) {failure : Option String} {bytes : List UInt8}
    (unclosed : (Spelling.scan failure bytes).ending ≠ .closed) :
    Exists fun stop => Token.scan limit failure start (quoteByte :: bytes) =
      [⟨.text (Spelling.scan failure bytes), start, stop⟩] := by
  have found : Lexeme.scan limit failure start quoteByte bytes =
      (.text (Spelling.scan failure bytes),
        Lexeme.textWidth (Spelling.scan failure bytes) bytes.length) := rfl
  have isLast : (Lexeme.text (Spelling.scan failure bytes)).isLast = true :=
    bne_iff_ne.mpr unclosed
  exact ⟨_, by rw [Token.scan_cons (by decide) found, if_pos isLast]⟩

/-- No document has a misspelled text behind whole lexemes, whatever follows. -/
theorem not_written_of_misspelled {lexemes : List Lexeme} {front body bad : List UInt8}
    {pieces : List Piece} (layout : Layout lexemes front) (separated : Separated lexemes)
    (spelled : Piece.AllSpelled pieces body) (misspelled : Misspelled bad) (form : Form) :
    ¬ form.Written (front ++ quoteByte :: (body ++ bad)) := by
  intro written
  rcases layout.placed 0 with ⟨before, frontPlaced, rfl⟩
  rcases Layout.placed written 0 with ⟨tokens, placed, isForm⟩
  have ends : ∀ last ∈ before.getLast?, last.lexeme.Ends (quoteByte :: (body ++ bad)) := by
    intro last _
    cases last.lexeme with
    | number numeral =>
        have stops : Numeral.Stops (quoteByte :: (body ++ bad)) :=
          ⟨by decide, by decide, by decide, by decide⟩
        exact stops.ended numeral
    | comma | colon | arrayStart | arrayEnd | objectStart | objectEnd | null | boolean
    | text | malformed | stray | finish => exact trivial
  have whole : Separated (tokens.map Token.lexeme) := by
    rw [isForm, ← List.append_nil form.lexemes]
    exact form.separated_lexemes [] trivial trivial
  have unclosed : (Spelling.scan none (body ++ bad)).ending ≠ .closed := by
    rw [spelled.scan_ending]
    exact misspelled.not_closed none
  rcases Token.scan_unclosed 0 (0 + front.length) unclosed with ⟨stop, last⟩
  -- The same bytes would be scanned to their end and up to the misspelled text.
  have scanned := (placed.scan whole 0).symm.trans (frontPlaced.scan_front separated ends 0)
  rw [last] at scanned
  have ending := congrArg List.getLast? scanned
  rw [List.getLast?_concat, List.getLast?_concat] at ending
  cases ending

end Json
end RepoInspector
