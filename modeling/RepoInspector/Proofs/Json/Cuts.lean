import RepoInspector.Proofs.Json.Decodability
import RepoInspector.Proofs.Json.Places

namespace RepoInspector
namespace Json

/-!
# What is left of a token

A document may end inside a token.  What is left is then a keyword or a text
that breaks off, or of a number again a number, unless a digit is due.  A
number that breaks off is told apart, because whether a document that ends so
has come to its end too early or is at fault depends on who reads it.
-/

theorem foldl_value_le (digits : List Digit) (value : Nat) :
    value ≤ digits.foldl (fun value digit => 10 * value + digit.val) value := by
  induction digits generalizing value with
  | nil => exact Nat.le_refl _
  | cons digit digits inductionHypothesis =>
      have more : value ≤ 10 * value + digit.val := by omega
      exact Nat.le_trans more (inductionHypothesis _)

/-- Fewer digits denote no greater number. -/
theorem Digit.value_take_le (digits : List Digit) (count : Nat) :
    Digit.value (digits.take count) ≤ Digit.value digits := by
  have whole := List.take_append_drop count digits
  conv => rhs; rw [← whole, Digit.value, List.foldl_append]
  exact foldl_value_le _ _

theorem digitBytes_take (digits : List Digit) (count : Nat) :
    (digitBytes digits).take count = digitBytes (digits.take count) :=
  List.map_take.symm

namespace Numeral

/-- A numeral that is a whole number of 64 bits without a sign. -/
def Natural (numeral : Numeral) : Prop := Exists fun n => numeral.number = .ok (.natural n)

theorem Natural.plain {numeral : Numeral} (natural : numeral.Natural) :
    numeral.negative = false ∧ numeral.fraction = none ∧ numeral.exponent = none := by
  rcases natural with ⟨n, isNumber⟩
  rcases number_eq_natural_iff.mp isNumber with ⟨positive, noFraction, noExponent, _⟩
  exact ⟨positive, noFraction, noExponent⟩

/-- Fewer digits of a whole number are a whole number. -/
theorem Natural.take {negative : Bool} {whole : List Digit} {fraction : Option (List Digit)}
    {exponent : Option Exponent}
    (natural : (⟨negative, whole, fraction, exponent⟩ : Numeral).Natural) (count : Nat) :
    (⟨negative, whole.take count, none, none⟩ : Numeral).Natural := by
  rcases natural with ⟨n, isNumber⟩
  rcases number_eq_natural_iff.mp isNumber with ⟨positive, _, _, value⟩
  have small : Digit.value (whole.take count) < UInt64.size :=
    Nat.lt_of_le_of_lt (Nat.le_trans (Digit.value_take_le whole count) (Nat.le_of_eq value))
      n.toNat_lt
  exact ⟨.ofNat (Digit.value (whole.take count)), number_eq_natural_iff.mpr
    ⟨positive, rfl, rfl, (UInt64.toNat_ofNat_of_lt' small).symm⟩⟩

theorem ProperWhole.take {digits : List Digit} (proper : ProperWhole digits) {count : Nat}
    (positive : 0 < count) : ProperWhole (digits.take count) := by
  rcases proper with ⟨someDigit, alone⟩
  cases digits with
  | nil => exact absurd rfl someDigit
  | cons digit digits =>
      cases count with
      | zero => exact absurd positive (Nat.lt_irrefl 0)
      | succ count =>
          refine ⟨List.cons_ne_nil _ _, fun isZero => ?_⟩
          have single : (digit :: digits).length = 1 := alone isZero
          have noneLeft : digits = [] := List.length_eq_zero_iff.mp (Nat.succ.inj single)
          rw [noneLeft, List.take_succ_cons, List.take_nil]
          rfl

theorem take_ne_nil {α : Type} {items : List α} (someItem : items ≠ []) {count : Nat}
    (positive : 0 < count) : items.take count ≠ [] := by
  intro empty
  rcases List.take_eq_nil_iff.mp empty with noneTaken | noneThere
  · exact absurd positive (noneTaken ▸ Nat.lt_irrefl 0)
  · exact someItem noneThere

/-- What is left of a fraction is a fraction, or the point alone. -/
theorem FractionSpelled.take {fraction : Option (List Digit)} {bytes : List UInt8}
    (spelled : FractionSpelled fraction bytes) {count : Nat} (positive : 0 < count)
    (most : count ≤ bytes.length) :
    (Exists fun part => FractionSpelled part (bytes.take count)) ∨
      bytes.take count = [0x2e] ∧ count = 1 := by
  cases spelled with
  | absent => exact absurd positive (Nat.not_lt.mpr most)
  | @present digits someDigit =>
      match count with
      | 1 => exact .inr ⟨rfl, rfl⟩
      | count + 2 =>
          rw [List.take_succ_cons, digitBytes_take]
          exact .inl ⟨some _, .present (take_ne_nil someDigit (Nat.succ_pos _))⟩

/-- What is left of an exponent is an exponent, or a digit is due. -/
theorem ExponentSpelled.take {exponent : Option Exponent} {bytes : List UInt8}
    (spelled : ExponentSpelled exponent bytes) {count : Nat} (positive : 0 < count)
    (less : count < bytes.length) :
    (Exists fun part => ExponentSpelled part (bytes.take count)) ∨
      scanExponent (bytes.take count) = .error count := by
  cases spelled with
  | absent => exact absurd less (Nat.not_lt_zero _)
  | @present letter exponent isLetter someDigit =>
      rcases exponent with ⟨sign, digits⟩
      match count, sign with
      | 1, _ =>
          right
          rw [List.take_succ_cons, List.take_zero, scanExponent_cons, if_pos isLetter]
          rfl
      | count + 2, none =>
          left
          rw [List.take_succ_cons, signBytes, List.nil_append, digitBytes_take]
          exact ⟨some ⟨none, digits.take (count + 1)⟩,
            .present isLetter (take_ne_nil someDigit (Nat.succ_pos _))⟩
      | 2, some sign =>
          right
          have signed : (signBytes (some sign) ++ digitBytes digits).take 1 =
              signBytes (some sign) := by cases sign <;> rfl
          rw [List.take_succ_cons, signed, scanExponent_cons, if_pos isLetter]
          cases sign <;> rfl
      | count + 3, some sign =>
          left
          have signed : (signBytes (some sign) ++ digitBytes digits).take (count + 2) =
              signBytes (some sign) ++ digitBytes (digits.take (count + 1)) := by
            rw [← digitBytes_take]
            cases sign <;> rfl
          rw [List.take_succ_cons, signed]
          exact ⟨some ⟨some sign, digits.take (count + 1)⟩,
            .present isLetter (take_ne_nil someDigit (Nat.succ_pos _))⟩

/-- A numeral that is cut off in its fraction has a shorter one, or a digit is due. -/
theorem Spelled.takeFraction (negative : Bool) {whole : List Digit}
    {numeralFraction : Option (List Digit)} {fraction : List UInt8}
    (wholePart : ProperWhole whole) (fractionPart : FractionSpelled numeralFraction fraction)
    {count : Nat} (positive : 0 < count) (most : count ≤ fraction.length) :
    (Exists fun part => (⟨negative, whole, part, none⟩ : Numeral).Spelled
      (minusBytes negative ++ (digitBytes whole ++ fraction.take count))) ∨
    scan (minusBytes negative ++ (digitBytes whole ++ fraction.take count)) =
      .error ((minusBytes negative).length + (whole.length + count)) := by
  rcases fractionPart.take positive most with ⟨part, partSpelled⟩ | ⟨point, rfl⟩
  · have body : Spelled ⟨negative, whole, part, none⟩ _ :=
      .intro wholePart partSpelled .absent
    rw [List.append_nil] at body
    exact .inl ⟨part, body⟩
  · rw [point, scan_whole wholePart (noDigit_cons rfl), ← Nat.add_assoc]
    exact .inr rfl

/-- An exponent that is cut off still ends the digits before it. -/
theorem ExponentSpelled.take_stops {exponent : Option Exponent} {bytes : List UInt8}
    (spelled : ExponentSpelled exponent bytes) {count : Nat} (positive : 0 < count)
    (less : count < bytes.length) :
    NoDigit (bytes.take count) ∧ (bytes.take count).head? ≠ some 0x2e := by
  cases spelled with
  | absent => exact absurd less (Nat.not_lt_zero _)
  | present isLetter =>
      rw [← Nat.succ_pred_eq_of_pos positive, List.take_succ_cons]
      rcases isLetter with rfl | rfl
      · exact ⟨noDigit_cons rfl, by simp⟩
      · exact ⟨noDigit_cons rfl, by simp⟩

/-- A numeral that is cut off in its exponent has a shorter one, or a digit is due. -/
theorem Spelled.takeExponent (negative : Bool) {whole : List Digit}
    {numeralFraction : Option (List Digit)} {numeralExponent : Option Exponent}
    {fraction exponent : List UInt8} (wholePart : ProperWhole whole)
    (fractionPart : FractionSpelled numeralFraction fraction)
    (exponentPart : ExponentSpelled numeralExponent exponent) {count : Nat}
    (positive : 0 < count) (less : count < exponent.length) :
    (Exists fun part => (⟨negative, whole, numeralFraction, part⟩ : Numeral).Spelled
      (minusBytes negative ++ (digitBytes whole ++ (fraction ++ exponent.take count)))) ∨
    scan (minusBytes negative ++ (digitBytes whole ++ (fraction ++ exponent.take count))) =
      .error ((minusBytes negative).length + (whole.length + (fraction.length + count))) := by
  rcases exponentPart.take positive less with ⟨part, partSpelled⟩ | broken
  · exact .inl ⟨part, .intro wholePart fractionPart partSpelled⟩
  · rcases exponentPart.take_stops positive less with ⟨noDigit, noPoint⟩
    right
    rw [scan_fraction wholePart fractionPart noDigit fun _ => noPoint, broken]
    simp only [shiftError, bind, Except.bind, Except.error.injEq]
    omega

/-- What is left of a numeral behind its sign is that of a numeral, and of a whole
number if it was one, or a digit is due. -/
theorem Spelled.takeBody (negative : Bool) {whole : List Digit}
    {numeralFraction : Option (List Digit)} {numeralExponent : Option Exponent}
    {fraction exponent : List UInt8} (wholePart : ProperWhole whole)
    (fractionPart : FractionSpelled numeralFraction fraction)
    (exponentPart : ExponentSpelled numeralExponent exponent) {count : Nat}
    (positive : 0 < count)
    (less : count < (digitBytes whole ++ (fraction ++ exponent)).length) :
    (Exists fun part : Numeral => part.Spelled (minusBytes negative ++
        (digitBytes whole ++ (fraction ++ exponent)).take count) ∧
      ((⟨negative, whole, numeralFraction, numeralExponent⟩ : Numeral).Natural ->
        part.Natural)) ∨
    scan (minusBytes negative ++ (digitBytes whole ++ (fraction ++ exponent)).take count) =
      .error ((minusBytes negative).length + count) ∧
      ¬ (⟨negative, whole, numeralFraction, numeralExponent⟩ : Numeral).Natural := by
  by_cases inWhole : count ≤ whole.length
  · have taken : (digitBytes whole ++ (fraction ++ exponent)).take count =
        digitBytes (whole.take count) ++ ([] ++ []) := by
      rw [List.take_append_of_le_length (by rwa [length_digitBytes]), digitBytes_take,
        List.append_nil, List.append_nil]
    rw [taken]
    exact .inl ⟨⟨negative, whole.take count, none, none⟩,
      .intro (wholePart.take positive) .absent .absent, fun natural => natural.take count⟩
  -- What is taken behind the digits is there, so the numeral is no whole number.
  have unnatural : ¬ (⟨negative, whole, numeralFraction, numeralExponent⟩ : Numeral).Natural := by
    intro natural
    rcases natural.plain with ⟨_, noFraction, noExponent⟩
    cases noFraction
    cases noExponent
    cases fractionPart
    cases exponentPart
    rw [List.append_nil, List.append_nil, length_digitBytes] at less
    exact inWhole (Nat.le_of_lt less)
  have afterWhole : (digitBytes whole ++ (fraction ++ exponent)).take count =
      digitBytes whole ++ (fraction ++ exponent).take (count - whole.length) := by
    rw [List.take_append, length_digitBytes,
      List.take_of_length_le (by rw [length_digitBytes]; omega)]
  rw [afterWhole]
  simp only [List.length_append, length_digitBytes] at less
  by_cases inFraction : count - whole.length ≤ fraction.length
  · rw [List.take_append_of_le_length inFraction]
    have place : whole.length + (count - whole.length) = count := by omega
    have part := Spelled.takeFraction negative wholePart fractionPart
      (by omega : 0 < count - whole.length) inFraction
    rw [place] at part
    rcases part with ⟨part, spelled⟩ | broken
    · exact .inl ⟨_, spelled, fun natural => absurd natural unnatural⟩
    · exact .inr ⟨broken, unnatural⟩
  · have afterFraction : (fraction ++ exponent).take (count - whole.length) =
        fraction ++ exponent.take (count - whole.length - fraction.length) := by
      rw [List.take_append, List.take_of_length_le (by omega)]
    rw [afterFraction]
    have place : whole.length + (fraction.length + (count - whole.length - fraction.length)) =
        count := by omega
    have part := Spelled.takeExponent negative wholePart fractionPart exponentPart
      (by omega : 0 < count - whole.length - fraction.length) (by omega)
    rw [place] at part
    rcases part with ⟨part, spelled⟩ | broken
    · exact .inl ⟨_, spelled, fun natural => absurd natural unnatural⟩
    · exact .inr ⟨broken, unnatural⟩

/-- What is left of a numeral is a numeral, and a whole number if it was one, or a
digit is due. -/
theorem Spelled.take {numeral : Numeral} {bytes : List UInt8} (spelled : numeral.Spelled bytes)
    {count : Nat} (positive : 0 < count) (less : count < bytes.length) :
    (Exists fun part : Numeral => part.Spelled (bytes.take count) ∧
      (numeral.Natural -> part.Natural)) ∨
    scan (bytes.take count) = .error count ∧ ¬ numeral.Natural := by
  rcases spelled with ⟨wholePart, fractionPart, exponentPart⟩
  rename_i fraction exponent
  rcases numeral with ⟨negative, whole, numeralFraction, numeralExponent⟩
  by_cases onlySign : count ≤ (minusBytes negative).length
  · cases negative with
    | false => exact absurd positive (Nat.not_lt.mpr onlySign)
    | true =>
        have single : count = 1 := Nat.le_antisymm onlySign positive
        subst single
        exact .inr ⟨rfl, fun natural => (nomatch natural.plain.1)⟩
  have signed : (minusBytes negative ++ (digitBytes whole ++ (fraction ++ exponent))).take count =
      minusBytes negative ++ (digitBytes whole ++ (fraction ++ exponent)).take
        (count - (minusBytes negative).length) := by
    rw [List.take_append, List.take_of_length_le (by omega)]
  replace less : count - (minusBytes negative).length <
      (digitBytes whole ++ (fraction ++ exponent)).length := by
    have sum : count < (minusBytes negative).length +
        (digitBytes whole ++ (fraction ++ exponent)).length := by
      rwa [List.length_append] at less
    omega
  have body := Spelled.takeBody negative wholePart fractionPart exponentPart
    (by omega : 0 < count - (minusBytes negative).length) less
  have whole : (minusBytes negative).length + (count - (minusBytes negative).length) = count := by
    omega
  rw [signed]
  rwa [whole] at body

end Numeral

/-- What is left of a keyword ends where its next letter is due. -/
theorem matchWord_take (index : Nat) (word : List UInt8) {count : Nat}
    (less : count < word.length) : matchWord index word (word.take count) = .ends := by
  induction word generalizing index count with
  | nil => exact absurd less (Nat.not_lt_zero _)
  | cons letter word inductionHypothesis =>
      cases count with
      | zero => rfl
      | succ count =>
          rw [List.take_succ_cons, matchWord, if_pos rfl]
          exact inductionHypothesis (index + 1) (Nat.lt_of_succ_lt_succ less)

/-- What is left of a text is cut off behind some of its pieces. -/
theorem Piece.AllSpelled.scan_take {pieces : List Piece} {bytes : List UInt8}
    (spelled : Piece.AllSpelled pieces bytes) {count : Nat} (most : count ≤ bytes.length) :
    Exists fun front => Spelling.scan none (bytes.take count) = ⟨front, .cut none⟩ ∧
      front <+: pieces := by
  induction spelled generalizing count with
  | nil => exact ⟨[], by rw [List.take_nil]; rfl, List.nil_prefix⟩
  | @cons piece pieces first rest head tail inductionHypothesis =>
      by_cases whole : first.length ≤ count
      · have mostBehind : count - first.length ≤ rest.length := by
          rw [List.length_append] at most
          omega
        rcases inductionHypothesis mostBehind with ⟨front, scanned, isFront⟩
        refine ⟨piece :: front, ?_, List.cons_prefix_cons.mpr ⟨rfl, isFront⟩⟩
        rw [List.take_append, List.take_of_length_le whole, Spelling.scan_piece none head, scanned]
        rfl
      · refine ⟨[], ?_, List.nil_prefix⟩
        rw [List.take_append_of_le_length (by omega)]
        have less := Nat.lt_of_not_le whole
        cases head with
        | raw =>
            match count with
            | 0 => rfl
        | short =>
            match count with
            | 0 | 1 => rfl
        | unit =>
            match count with
            | 0 | 1 | 2 | 3 | 4 | 5 => rfl

/-- A place inside a token. -/
def Token.Around (place : Nat) (token : Token) : Prop := token.start < place ∧ place < token.stop

/-- A number that is not a whole number of 64 bits. -/
def Token.Unnatural (token : Token) : Prop :=
  Exists fun numeral => token.lexeme = .number numeral ∧ ¬ numeral.Natural

/-- What is left of a token that breaks off at a place. -/
inductive Token.Breaks (place : Nat) (token last : Token) : Prop
  | keyword {fault : Fault} (isWord : token.lexeme = .null ∨ Exists fun b =>
      token.lexeme = .boolean b) (broken : last.lexeme = .malformed fault fault)
      (ended : fault.category = .ended)
  | number {read pass : Fault} (unnatural : token.Unnatural) (around : token.Around place)
      (broken : last.lexeme = .malformed read pass) (ended : read.category = .ended)
      (grammar : pass.category = .grammar)
  | text {pieces front : List Piece} (whole : token.lexeme = .closedText pieces)
      (broken : last.lexeme = .text ⟨front, .cut none⟩) (isFront : front <+: pieces)

/-- What is left of a number is a number, and a whole number if it was one. -/
inductive Token.Shortens (place : Nat) (token part : Token) : Prop
  | intro {numeral shorter : Numeral} (whole : token.lexeme = .number numeral)
      (around : token.Around place) (left : part.lexeme = .number shorter)
      (natural : numeral.Natural -> shorter.Natural) : Shortens place token part

/-- The token at the end of a document. -/
def Token.Finishes (token : Token) : Prop := token.lexeme = .finish none

/-- The tokens of a document that ends at a place, where `tokens` are those of one
that goes on. -/
inductive CutTokens (place : Nat) : List Token -> List Token -> Prop
  | ends {token finish : Token} {tokens : List Token} (finishes : finish.Finishes) :
      CutTokens place (token :: tokens) [finish]
  | breaks {token last : Token} {tokens : List Token} (breaks : token.Breaks place last) :
      CutTokens place (token :: tokens) [last]
  | shortens {token part finish : Token} {tokens : List Token}
      (shortens : token.Shortens place part) (finishes : finish.Finishes) :
      CutTokens place (token :: tokens) [part, finish]
  | later {token : Token} {tokens left : List Token} (rest : CutTokens place tokens left) :
      CutTokens place (token :: tokens) (token :: left)

/-- A cut of tokens in two parts falls into one of them. -/
theorem CutTokens.append {place : Nat} {first second left : List Token}
    (cut : CutTokens place (first ++ second) left) :
    CutTokens place first left ∨
      Exists fun rest => left = first ++ rest ∧ CutTokens place second rest := by
  induction first generalizing left with
  | nil => exact .inr ⟨left, rfl, cut⟩
  | cons token first inductionHypothesis =>
      cases cut with
      | ends finishes => exact .inl (.ends finishes)
      | breaks breaks => exact .inl (.breaks breaks)
      | shortens shortens finishes => exact .inl (.shortens shortens finishes)
      | later rest =>
          rcases inductionHypothesis rest with inFirst | ⟨behind, rfl, inSecond⟩
          · exact .inl (.later inFirst)
          · exact .inr ⟨behind, rfl, inSecond⟩

/-- A token after which nothing is looked at is the only one. -/
theorem Token.scan_only {limit start : Nat} {byte : UInt8} {bytes : List UInt8}
    (notBlank : isBlankByte byte = false) {lexeme : Lexeme} {width : Nat}
    (found : Lexeme.scan limit none start byte bytes = (lexeme, width))
    (isLast : lexeme.isLast = true) :
    Token.scan limit none start (byte :: bytes) = [⟨lexeme, start, start + width⟩] := by
  rw [Token.scan_cons notBlank found, if_pos isLast]

namespace Lexeme

variable {start count : Nat}

theorem keyword_take {limit : Nat} {word : List UInt8} (meaning : Lexeme)
    (less : count < word.length) :
    keyword limit none start word meaning (word.take count) =
      (.malformed (endFault .endInValue limit none) (endFault .endInValue limit none),
        1 + (word.take count).length) := by
  rw [keyword, matchWord_take 1 word less]

/-- A cut inside a keyword. -/
theorem cut_keyword {meaning : Lexeme} {byte : UInt8} {word : List UInt8}
    (isWord : meaning = .null ∨ Exists fun b => meaning = .boolean b)
    (notBlank : isBlankByte byte = false)
    (scanned : forall limit bytes,
      scan limit none start byte bytes = keyword limit none start word meaning bytes)
    (less : count < word.length) (stop : Nat) (tokens : List Token) :
    CutTokens (start + (count + 1)) (⟨meaning, start, stop⟩ :: tokens)
      (Token.scan (start + (count + 1)) none start (byte :: word.take count)) := by
  have found := (scanned (start + (count + 1)) (word.take count)).trans (keyword_take meaning less)
  rw [Token.scan_only notBlank found rfl]
  exact .breaks (.keyword isWord rfl rfl)

/-- A cut inside a number. -/
theorem cut_number {number : Numeral} {spelled : List UInt8} (spells : number.Spelled spelled)
    (less : count + 1 < spelled.length) (tokens : List Token) :
    CutTokens (start + (count + 1)) (⟨.number number, start, start + spelled.length⟩ :: tokens)
      (Token.scan (start + (count + 1)) none start (spelled.take (count + 1))) := by
  have around : Token.Around (start + (count + 1))
      ⟨.number number, start, start + spelled.length⟩ :=
    ⟨Nat.lt_add_of_pos_right (Nat.succ_pos count), Nat.add_lt_add_left less start⟩
  rcases spells.take (Nat.succ_pos count) less with
    ⟨part, partSpells, natural⟩ | ⟨broken, unnatural⟩
  · have placed : Placed start [⟨.number part, start, _⟩] (spelled.take (count + 1) ++ []) :=
      .token (.number partSpells) .nil
    rw [List.append_nil] at placed
    rw [placed.scan ⟨trivial, trivial⟩]
    exact .shortens (.intro rfl around rfl natural) rfl
  · rcases beginsNumeral_of_spelled spells with ⟨byte, rest, rfl, begins⟩
    rw [List.take_succ_cons] at broken ⊢
    have scanned := scan_numeral (start + (count + 1)) start none begins (rest.take count)
    have found := scanned.2
    rw [numeral, broken] at found
    simp only [Nat.le_refl, if_true] at found
    rw [Token.scan_only scanned.1 found rfl]
    exact .breaks (.number ⟨number, rfl, unnatural⟩ around rfl rfl rfl)

/-- A cut inside a text. -/
theorem cut_text {pieces : List Piece} {bytes : List UInt8}
    (spells : Piece.AllSpelled pieces bytes) (most : count ≤ bytes.length) (stop : Nat)
    (tokens : List Token) :
    CutTokens (start + (count + 1)) (⟨.closedText pieces, start, stop⟩ :: tokens)
      (Token.scan (start + (count + 1)) none start (quoteByte :: bytes.take count)) := by
  rcases spells.scan_take most with ⟨front, scanned, isFront⟩
  have found : scan (start + (count + 1)) none start quoteByte (bytes.take count) =
      (.text ⟨front, .cut none⟩, textWidth ⟨front, .cut none⟩ (bytes.take count).length) := by
    rw [← scanned]
    rfl
  rw [Token.scan_only rfl found rfl]
  exact .breaks (.text rfl rfl isFront)

/-- A cut inside the spelling of a lexeme. -/
theorem Spelled.cut {lexeme : Lexeme} {spelled : List UInt8} (spells : lexeme.Spelled spelled)
    (less : count + 1 < spelled.length) (tokens : List Token) :
    CutTokens (start + (count + 1)) (⟨lexeme, start, start + spelled.length⟩ :: tokens)
      (Token.scan (start + (count + 1)) none start (spelled.take (count + 1))) := by
  cases spells with
  | comma | colon | arrayStart | arrayEnd | objectStart | objectEnd =>
      exact absurd (Nat.lt_of_succ_lt_succ less) (Nat.not_lt_zero _)
  | null => exact cut_keyword (.inl rfl) rfl (fun _ _ => rfl) (Nat.lt_of_succ_lt_succ less) _ tokens
  | trueWord | falseWord =>
      exact cut_keyword (.inr ⟨_, rfl⟩) rfl (fun _ _ => rfl) (Nat.lt_of_succ_lt_succ less) _ tokens
  | number spellsNumeral => exact cut_number spellsNumeral less tokens
  | @text pieces bytes spellsPieces =>
      have most : count ≤ bytes.length := by
        rw [List.length_cons, List.length_append, List.length_singleton] at less
        omega
      rw [List.take_succ_cons, List.take_append_of_le_length most]
      exact cut_text spellsPieces most _ tokens

end Lexeme

/-- What ends a lexeme also does when it is cut itself. -/
theorem Lexeme.Ends.take {lexeme : Lexeme} {bytes : List UInt8} (ends : lexeme.Ends bytes)
    (count : Nat) : lexeme.Ends (bytes.take count) := by
  cases count with
  | zero => exact .nil lexeme
  | succ count => exact ends.of_head? (by cases bytes <;> rfl)

namespace Placed

variable {start : Nat} {tokens : List Token} {bytes : List UInt8}

/-- Nothing is left where a token is due. -/
theorem cut_start (placed : Placed start tokens bytes) (someByte : bytes ≠ [])
    (unpadded : ∀ byte ∈ bytes.getLast?, isBlankByte byte = false) (place : Nat) :
    CutTokens place tokens (Token.scan place none start []) := by
  cases tokens with
  | nil =>
      have isBlank := placed.blanks _ (List.getLast_mem someByte)
      rw [unpadded _ (List.getLast?_eq_some_getLast someByte)] at isBlank
      cases isBlank
  | cons token tokens =>
      rw [Token.scan]
      exact .ends rfl

/-- Cutting off the bytes of placed tokens cuts the tokens, unless only blanks are
cut off. -/
theorem cut (placed : Placed start tokens bytes)
    (separated : Separated (tokens.map Token.lexeme)) {count : Nat} (less : count < bytes.length)
    (unpadded : ∀ byte ∈ bytes.getLast?, isBlankByte byte = false) :
    CutTokens (start + count) tokens
      (Token.scan (start + count) none start (bytes.take count)) := by
  induction placed generalizing count with
  | nil => exact absurd less (Nat.not_lt_zero _)
  | @blank start byte tokens bytes isBlank rest inductionHypothesis =>
      cases count with
      | zero => exact (Placed.blank isBlank rest).cut_start (List.cons_ne_nil _ _) unpadded _
      | succ count =>
          have lessBehind := Nat.lt_of_succ_lt_succ less
          have unpaddedBehind : ∀ byte ∈ bytes.getLast?, isBlankByte byte = false := by
            cases bytes with
            | nil => exact fun _ => (nomatch ·)
            | cons => exact unpadded
          have further := inductionHypothesis separated lessBehind unpaddedBehind
          rw [List.take_succ_cons, Token.scan, if_pos isBlank]
          rwa [Nat.add_assoc, Nat.add_comm 1] at further
  | @token start lexeme spelled tokens bytes first rest inductionHypothesis =>
      cases count with
      | zero =>
          refine (Placed.token first rest).cut_start ?_ unpadded _
          intro empty
          rw [empty] at less
          exact absurd less (Nat.not_lt_zero _)
      | succ count =>
          by_cases inside : count + 1 < spelled.length
          · rw [List.take_append_of_le_length (Nat.le_of_lt inside)]
            exact first.cut inside tokens
          · have whole := Nat.le_of_not_lt inside
            have after := rest.ends separated
            have lessBehind : count + 1 - spelled.length < bytes.length := by
              rw [List.length_append] at less
              omega
            have unpaddedBehind : ∀ byte ∈ bytes.getLast?, isBlankByte byte = false := by
              intro byte isLast
              exact unpadded byte (by rw [List.getLast?_append, isLast]; rfl)
            have further := inductionHypothesis after.2 lessBehind unpaddedBehind
            have place : start + spelled.length + (count + 1 - spelled.length) =
                start + (count + 1) := by omega
            rw [place] at further
            rw [List.take_append, List.take_of_length_le whole,
              Token.scan_spelled first (after.1.take _)]
            exact .later further

end Placed

end Json
end RepoInspector
