import RepoInspector.Proofs.Json.Failures

namespace RepoInspector
namespace Json

/-!
# Supplies that go on

What was supplied before a failure can be supplied again, and more behind it.
The tokens are then the same up to the place of the failure.  The one that
stands there is cut off by the failure, or it is one that no further byte can
change, so a text that breaks off holds at least the pieces that were supplied.
-/

/-!
## Numerals

A part of a numeral that ends before the bytes do was ended by one of them.
-/

theorem leadingDigits_more {bytes : List UInt8}
    (inside : (leadingDigits bytes).length < bytes.length) (rest : List UInt8) :
    leadingDigits (bytes ++ rest) = leadingDigits bytes := by
  rcases digitBytes_leadingDigits bytes with ⟨after, split, stop⟩
  have someByte : after ≠ [] := by
    rintro rfl
    have whole := congrArg List.length split
    rw [List.append_nil, length_digitBytes] at whole
    exact absurd inside (whole ▸ Nat.lt_irrefl _)
  have stops : NoDigit (after ++ rest) := by
    rw [noDigit_iff, List.head?_append_of_ne_nil _ someByte]
    exact noDigit_iff.mp stop
  conv => lhs; rw [split, List.append_assoc, leadingDigits_append _ stops]

theorem leadingDigits_prefix (bytes rest : List UInt8) :
    leadingDigits bytes <+: leadingDigits (bytes ++ rest) := by
  induction bytes with
  | nil => exact List.nil_prefix
  | cons byte bytes inductionHypothesis =>
      rw [List.cons_append, leadingDigits, leadingDigits]
      cases digit? byte with
      | none => exact List.nil_prefix
      | some digit => exact List.cons_prefix_cons.mpr ⟨rfl, inductionHypothesis⟩

namespace Numeral

/-- The number of bytes that a scanner has taken, with success or not. -/
def reach (width : α -> Nat) : Except Nat α -> Nat
  | .ok a => width a
  | .error count => count

theorem scanWhole_more {bytes : List UInt8}
    (inside : reach List.length (scanWhole bytes) < bytes.length) (rest : List UInt8) :
    scanWhole (bytes ++ rest) = scanWhole bytes := by
  unfold scanWhole at inside ⊢
  cases digits : leadingDigits bytes with
  | nil =>
      simp only [digits, reach] at inside
      rw [leadingDigits_more (digits ▸ inside), digits]
  | cons digit others =>
      simp only [digits] at inside
      by_cases zero : (digit = 0 && !others.isEmpty) = true
      · -- A second digit stands behind a zero, whatever follows.
        rcases leadingDigits_prefix bytes rest with ⟨more, split⟩
        rw [digits, List.cons_append] at split
        rw [← split]
        cases others with
        | nil => simp at zero
        | cons second others =>
            simp only [Bool.and_eq_true, decide_eq_true_eq] at zero
            simp [zero.1]
      · rw [if_neg zero] at inside
        rw [leadingDigits_more (digits ▸ inside), digits]

theorem scanFraction_more {bytes : List UInt8}
    (inside : reach fractionWidth (scanFraction bytes) < bytes.length) (rest : List UInt8) :
    scanFraction (bytes ++ rest) = scanFraction bytes := by
  cases bytes with
  | nil => exact absurd inside (Nat.not_lt_zero _)
  | cons byte bytes =>
      simp only [List.cons_append, scanFraction] at inside ⊢
      by_cases point : byte = 0x2e
      · have shorter : (leadingDigits bytes).length < bytes.length := by
          rw [if_pos point] at inside
          cases digits : leadingDigits bytes with
          | nil =>
              simp only [digits, reach, List.length_cons] at inside
              exact Nat.lt_of_succ_lt_succ inside
          | cons digit digits' =>
              simp only [digits, reach, fractionWidth, Option.map_some, Option.getD_some,
                List.length_cons] at inside
              rw [List.length_cons]
              omega
        rw [leadingDigits_more shorter]
      · rw [if_neg point, if_neg point]

theorem scanExponent_more {bytes : List UInt8}
    (inside : reach exponentWidth (scanExponent bytes) < bytes.length) (rest : List UInt8) :
    scanExponent (bytes ++ rest) = scanExponent bytes := by
  cases bytes with
  | nil => exact absurd inside (Nat.not_lt_zero _)
  | cons byte bytes =>
      rw [List.cons_append, scanExponent_cons, scanExponent_cons]
      rw [scanExponent_cons] at inside
      by_cases letter : byte = 0x65 ∨ byte = 0x45
      · simp only [if_pos letter] at inside ⊢
        cases bytes with
        | nil => exact absurd inside (Nat.lt_irrefl 1)
        | cons next bytes =>
            have sameSign : leadingSign (next :: bytes ++ rest) = leadingSign (next :: bytes) := rfl
            rw [sameSign]
            generalize skip : (if (leadingSign (next :: bytes)).isSome then 1 else 0) = count
              at inside ⊢
            have shorter : count + (leadingDigits ((next :: bytes).drop count)).length <
                (next :: bytes).length := by
              cases digits : leadingDigits ((next :: bytes).drop count) with
              | nil =>
                  simp only [digits, reach, List.length_cons] at inside ⊢
                  rw [List.length_nil]
                  omega
              | cons digit others =>
                  simp only [digits, reach, exponentWidth, Option.map_some, Option.getD_some, skip,
                    List.length_cons] at inside ⊢
                  omega
            have within : (leadingDigits ((next :: bytes).drop count)).length <
                ((next :: bytes).drop count).length := by
              rw [List.length_drop]
              omega
            rw [List.drop_append_of_le_length (by omega), leadingDigits_more within]
      · rw [if_neg letter, if_neg letter]

/-- A part of a numeral that is scanned alike is so behind the parts before it. -/
theorem shiftError_more {scanPart : List UInt8 -> Except Nat α} {measure : α -> Nat}
    (more : forall {bytes : List UInt8}, reach measure (scanPart bytes) < bytes.length ->
      forall rest, scanPart (bytes ++ rest) = scanPart bytes)
    {width : Nat} {bytes : List UInt8}
    (inside : width + reach measure (scanPart (bytes.drop width)) < bytes.length)
    (rest : List UInt8) :
    scanPart ((bytes ++ rest).drop width) = scanPart (bytes.drop width) := by
  have within : reach measure (scanPart (bytes.drop width)) < (bytes.drop width).length := by
    rw [List.length_drop]
    omega
  rw [List.drop_append_of_le_length (by omega), more within]

/-- A numeral whose scan ends before the bytes do is scanned alike, whatever follows. -/
theorem scan_more {bytes : List UInt8} (inside : reach width (scan bytes) < bytes.length)
    (rest : List UInt8) : scan (bytes ++ rest) = scan bytes := by
  have sameSign : (bytes ++ rest).head? = bytes.head? := by
    cases bytes with
    | nil => exact absurd inside (Nat.not_lt_zero _)
    | cons byte bytes => rfl
  simp only [scan] at inside ⊢
  rw [sameSign]
  generalize (bytes.head? == some 0x2d) = negative at inside ⊢
  generalize skip : (if negative = true then 1 else 0) = sign at inside ⊢
  cases whole : scanWhole (bytes.drop sign) with
  | error count =>
      simp only [whole, shiftError, bind, Except.bind, reach] at inside
      rw [shiftError_more scanWhole_more (by rw [whole, reach]; exact inside), whole]
      rfl
  | ok digits =>
      cases fraction : scanFraction (bytes.drop (sign + digits.length)) with
      | error count =>
          simp only [whole, fraction, shiftError, bind, Except.bind, reach] at inside
          rw [shiftError_more scanWhole_more (by rw [whole, reach]; omega), whole]
          simp only [shiftError, bind, Except.bind]
          rw [shiftError_more scanFraction_more (by rw [fraction, reach]; exact inside), fraction]
      | ok point =>
          have reached : sign + digits.length + fractionWidth point + reach exponentWidth
              (scanExponent (bytes.drop (sign + digits.length + fractionWidth point))) <
                bytes.length := by
            simp only [whole, fraction, shiftError, bind, Except.bind] at inside
            rw [← fractionWidth] at inside
            cases exponent : scanExponent
                (bytes.drop (sign + digits.length + fractionWidth point)) with
            | error count =>
                simp only [exponent, reach] at inside
                exact inside
            | ok letter =>
                simp only [exponent, reach, width_eq, skip] at inside
                exact inside
          rw [shiftError_more scanWhole_more (by rw [whole, reach]; omega), whole]
          simp only [shiftError, bind, Except.bind]
          rw [shiftError_more scanFraction_more (by rw [fraction, reach]; omega), fraction]
          simp only
          rw [← fractionWidth, shiftError_more scanExponent_more reached]

end Numeral

/-!
## Lexemes
-/

/-- A keyword that is there, or departs from its word, does so whatever follows. -/
theorem matchWord_more {index : Nat} {word bytes : List UInt8}
    (settled : matchWord index word bytes ≠ .ends) (rest : List UInt8) :
    matchWord index word (bytes ++ rest) = matchWord index word bytes := by
  fun_induction matchWord index word bytes with
  | case1 => rw [matchWord]
  | case2 => exact absurd rfl settled
  | case3 index letter word bytes inductionHypothesis =>
      rw [List.cons_append, matchWord, if_pos rfl]
      exact inductionHypothesis settled
  | case4 index letter word byte bytes departs =>
      rw [List.cons_append, matchWord, if_neg departs]

/-- A text that breaks off where its supply did, against a text that holds what was
supplied; any other text is only itself. -/
inductive Spelling.Resumed : Spelling -> Spelling -> Prop
  | same (spelling : Spelling) : Resumed spelling spelling
  | cut {pieces : List Piece} (failure : Option String) {second : Spelling}
      (front : pieces <+: second.pieces) : Resumed ⟨pieces, .cut failure⟩ second

theorem Spelling.Resumed.add {first second : Spelling} (resumed : first.Resumed second)
    (piece : Piece) : (first.add piece).Resumed (second.add piece) := by
  cases resumed with
  | same => exact .same _
  | cut failure front => exact .cut failure (List.cons_prefix_cons.mpr ⟨rfl, front⟩)

theorem Spelling.scan_more (failure other : Option String) (bytes rest : List UInt8) :
    (scan failure bytes).Resumed (scan other (bytes ++ rest)) := by
  fun_induction scan failure bytes with
  | case1 | case3 | case6 => exact .cut failure List.nil_prefix
  | case2 bytes =>
      rw [List.cons_append, scan_quote]
      exact .same _
  | case4 a b c d bytes code isUnit _ inductionHypothesis =>
      have spelled := scan_piece other (.unit isUnit) (bytes ++ rest)
      exact spelled ▸ inductionHypothesis.add _
  | case7 letter bytes notUnit byte isShort _ inductionHypothesis =>
      have spelled := scan_piece other (.short isShort) (bytes ++ rest)
      exact spelled ▸ inductionHypothesis.add _
  | case10 byte bytes notQuote notBackslash notControl inductionHypothesis =>
      have spelled := scan_piece other (.raw notQuote notBackslash notControl) (bytes ++ rest)
      exact spelled ▸ inductionHypothesis.add _
  | case5 a b c d bytes noUnit notQuote =>
      simp only [List.cons_append, scan, if_neg notQuote, if_true, noUnit]
      exact .same _
  | case8 letter bytes notUnit noShort notQuote =>
      simp only [List.cons_append]
      rw [scan.eq_def]
      simp only [if_neg notQuote, if_neg notUnit, if_true, noShort]
      exact .same _
  | case9 byte bytes notQuote notBackslash control =>
      rw [List.cons_append, scan.eq_def]
      simp only [if_neg notQuote, if_neg notBackslash, if_pos control]
      exact .same _

/-- A text that breaks off, against what it goes on as. -/
inductive Lexeme.TextResumed : Lexeme -> Lexeme -> Prop
  | intro {first second : Spelling} (isOpen : first.ending ≠ .closed)
      (resumed : first.Resumed second) : TextResumed (.text first) (.text second)

theorem Lexeme.TextResumed.ne_null {first second : Lexeme} (resumed : first.TextResumed second) :
    first ≠ .null ∧ second ≠ .null := by
  cases resumed
  exact ⟨nofun, nofun⟩

/-- The end of the bytes, or a scalar that is cut off there: there is nothing to read, and it
is not the content that is at fault. -/
def Lexeme.Failed : Lexeme -> Prop
  | .finish _ => True
  | .malformed read pass => ¬ read.cause.OfContent ∧ ¬ pass.cause.OfContent
  | _ => False

/-- What stands where a supply failed, against what stands there when more is supplied.
Behind the bytes that were supplied anything can stand; what they begin remains begun. -/
inductive Lexeme.Resumed : Lexeme -> Lexeme -> Prop
  | finish (failure : Option String) (lexeme : Lexeme) : Resumed (.finish failure) lexeme
  | scalar {read pass : Fault} {lexeme : Lexeme}
      (failed : (Lexeme.malformed read pass).Failed) (plain : lexeme.Plain) :
      Resumed (.malformed read pass) lexeme
  | text {first second : Lexeme} (resumed : first.TextResumed second) : Resumed first second

namespace Lexeme

variable {limit start : Nat}

/-- One scan of a lexeme against a scan of more bytes: the two are the same, or the supply
of the first one failed before the lexeme was whole. -/
def ScannedOn (first second : Lexeme × Nat) : Prop :=
  second = first ∨ first.1.isLast = true ∧ first.1.Resumed second.1

theorem keyword_plain {meaning : Lexeme} (plain : meaning.Plain) (limit start : Nat)
    (failure : Option String) (word bytes : List UInt8) :
    (keyword limit failure start word meaning bytes).1.Plain := by
  unfold keyword
  split <;> first | exact plain | exact trivial

theorem numeral_plain (limit start : Nat) (failure : Option String) (bytes : List UInt8) :
    (numeral limit failure start bytes).1.Plain := by
  unfold numeral
  split <;> split <;> exact trivial

theorem keyword_more {meaning : Lexeme} (plain : meaning.Plain) (reason : String)
    (failure : Option String) (word bytes rest : List UInt8) :
    ScannedOn (keyword limit (some reason) start word meaning bytes)
      (keyword (limit + rest.length) failure start word meaning (bytes ++ rest)) := by
  have unblamed := Cause.not_ofContent_failure reason
  have later := keyword_plain plain (limit + rest.length) start failure word (bytes ++ rest)
  by_cases settled : matchWord 1 word bytes = .ends
  · right
    rw [keyword, settled]
    exact ⟨rfl, .scalar ⟨unblamed, unblamed⟩ later⟩
  · left
    rw [keyword, keyword, matchWord_more settled]
    cases same : matchWord 1 word bytes with
    | whole | departs => rfl
    | ends => exact absurd same settled

theorem numeral_more {bytes : List UInt8} (isLimit : start + bytes.length = limit)
    (reason : String) (failure : Option String) (rest : List UInt8) :
    ScannedOn (numeral limit (some reason) start bytes)
      (numeral (limit + rest.length) failure start (bytes ++ rest)) := by
  have unblamed := Cause.not_ofContent_failure reason
  have later := numeral_plain (limit + rest.length) start failure (bytes ++ rest)
  by_cases inside : Numeral.reach Numeral.width (Numeral.scan bytes) < bytes.length
  · left
    rw [numeral, numeral, Numeral.scan_more inside]
    cases scanned : Numeral.scan bytes with
    | ok found =>
        rw [scanned, Numeral.reach] at inside
        have before : ¬ limit ≤ start + found.width := by omega
        have stillBefore : ¬ limit + rest.length ≤ start + found.width := by omega
        simp [before, stillBefore]
    | error count =>
        rw [scanned, Numeral.reach] at inside
        have before : ¬ limit ≤ start + count := by omega
        have stillBefore : ¬ limit + rest.length ≤ start + count := by omega
        simp [before, stillBefore]
  · right
    rw [numeral]
    cases scanned : Numeral.scan bytes with
    | ok found =>
        rw [scanned, Numeral.reach] at inside
        have reached : limit ≤ start + found.width := by omega
        simp only [Option.isSome_some, Bool.true_and, decide_eq_true reached, if_true]
        exact ⟨rfl, .scalar ⟨unblamed, unblamed⟩ later⟩
    | error count =>
        rw [scanned, Numeral.reach] at inside
        have reached : limit ≤ start + count := by omega
        simp only [if_pos reached]
        exact ⟨rfl, .scalar ⟨unblamed, unblamed⟩ later⟩

theorem text_more (reason : String) (failure : Option String) (bytes rest : List UInt8) :
    ScannedOn
      (.text (Spelling.scan (some reason) bytes),
        textWidth (Spelling.scan (some reason) bytes) bytes.length)
      (.text (Spelling.scan failure (bytes ++ rest)),
        textWidth (Spelling.scan failure (bytes ++ rest)) (bytes ++ rest).length) := by
  have resumed := Spelling.scan_more (some reason) failure bytes rest
  by_cases closed : (Spelling.scan (some reason) bytes).ending = .closed
  · left
    generalize Spelling.scan (some reason) bytes = first at resumed closed
    generalize Spelling.scan failure (bytes ++ rest) = second at resumed
    cases resumed with
    | same => simp only [textWidth, closed]
    | cut => cases closed
  · right
    refine ⟨?_, .text (.intro closed resumed)⟩
    simpa [isLast] using closed

theorem scan_more (isLimit : start + 1 + bytes.length = limit) (reason : String)
    (failure : Option String) (byte : UInt8) (rest : List UInt8) :
    ScannedOn (scan limit (some reason) start byte bytes)
      (scan (limit + rest.length) failure start byte (bytes ++ rest)) := by
  have scans := scan_scans byte
  generalize scanner : (fun limit failure start bytes => scan limit failure start byte bytes) =
    scanned at scans
  have isScan : forall limit failure start bytes,
      scan limit failure start byte bytes = scanned limit failure start bytes := by
    rw [← scanner]
    exact fun _ _ _ _ => rfl
  rw [isScan, isScan]
  cases scans with
  | sign => exact .inl rfl
  | keyword _ _ plain _ => exact keyword_more plain reason failure _ bytes rest
  | text => exact text_more reason failure bytes rest
  | numeral =>
      have isLimit : start + (byte :: bytes).length = limit := by
        rw [List.length_cons]
        omega
      exact numeral_more isLimit reason failure rest
  | stray => exact .inl rfl

end Lexeme

/-!
## Tokens
-/

/-- The tokens of a supply that fails, against those of one that goes on. -/
inductive TokensResumed : List Token -> List Token -> Prop
  | same (tokens : List Token) : TokensResumed tokens tokens
  | last {first second : Token} (resumed : first.lexeme.Resumed second.lexeme)
      (later : List Token) : TokensResumed [first] (second :: later)
  | cons (token : Token) {firsts seconds : List Token} (others : TokensResumed firsts seconds) :
      TokensResumed (token :: firsts) (token :: seconds)

/-- The first token of bytes is that of their first lexeme. -/
theorem Token.scan_first (limit start : Nat) (failure : Option String) {byte : UInt8}
    (bytes : List UInt8) (notBlank : isBlankByte byte = false) :
    Exists fun later => Token.scan limit failure start (byte :: bytes) =
      ⟨(Lexeme.scan limit failure start byte bytes).1, start,
        start + (Lexeme.scan limit failure start byte bytes).2⟩ :: later := by
  rcases found : Lexeme.scan limit failure start byte bytes with ⟨lexeme, width⟩
  rw [Token.scan_cons notBlank found]
  cases lexeme.isLast with
  | true => exact ⟨[], rfl⟩
  | false => exact ⟨_, rfl⟩

/-- The tokens are the same up to the place where the supply failed. -/
theorem Token.scan_more (reason : String) (failure : Option String) {limit start : Nat}
    {bytes : List UInt8} (isLimit : start + bytes.length = limit) (rest : List UInt8) :
    TokensResumed (Token.scan limit (some reason) start bytes)
      (Token.scan (limit + rest.length) failure start (bytes ++ rest)) := by
  fun_induction Token.scan limit (some reason) start bytes with
  | case1 start =>
      rcases Token.scan_ends (limit + rest.length) start failure ([] ++ rest) with
        ⟨before, token, split, _⟩
      rw [split]
      cases before with
      | nil => exact .last (.finish _ _) []
      | cons first before => exact .last (.finish _ _) (before ++ [token])
  | case2 start byte bytes isBlank inductionHypothesis =>
      rw [List.cons_append, Token.scan, if_pos isBlank]
      rw [List.length_cons] at isLimit
      exact inductionHypothesis (by omega)
  | case3 start byte bytes notBlank found single isLast =>
      have blank : isBlankByte byte = false := Bool.eq_false_iff.mpr notBlank
      rw [List.length_cons] at isLimit
      have fits : start + 1 + bytes.length = limit := by omega
      have more := Lexeme.scan_more fits reason failure byte rest
      rcases more with same | ⟨_, resumed⟩
      · replace same : Lexeme.scan (limit + rest.length) failure start byte (bytes ++ rest) =
            (found.1, found.2) := same
        rw [List.cons_append, Token.scan_cons blank same, if_pos isLast]
        exact .same _
      · rcases Token.scan_first (limit + rest.length) start failure (bytes ++ rest) blank with
          ⟨later, split⟩
        rw [List.cons_append, split]
        exact .last resumed later
  | case4 start byte bytes notBlank found single goesOn inductionHypothesis =>
      have blank : isBlankByte byte = false := Bool.eq_false_iff.mpr notBlank
      rw [List.length_cons] at isLimit
      have fits : start + 1 + bytes.length = limit := by omega
      have more := Lexeme.scan_more fits reason failure byte rest
      rcases more with same | ⟨isLast, _⟩
      · replace same : Lexeme.scan (limit + rest.length) failure start byte (bytes ++ rest) =
            (found.1, found.2) := same
        rcases Lexeme.scan_ok (show Lexeme.scan limit (some reason) start byte bytes =
          (found.1, found.2) from rfl) (Bool.eq_false_iff.mpr goesOn) with
          ⟨spelled, after, split, _, width, _⟩
        have fits := congrArg List.length split
        rw [List.length_cons, List.length_append, width] at fits
        rw [List.cons_append, Token.scan_cons blank same, if_neg goesOn,
          List.drop_append_of_le_length (by omega)]
        exact .cons _ (inductionHypothesis (by rw [List.length_drop]; omega))
      · exact absurd isLast goesOn

end Json
end RepoInspector
