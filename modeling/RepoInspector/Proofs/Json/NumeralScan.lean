import RepoInspector.Proofs.Json.Layout

namespace RepoInspector
namespace Json

/-!
# Scanning numerals

The scanner takes a numeral whole: it finds a numeral exactly where the
grammar spells one, provided that the byte after it cannot belong to it.
-/

theorem digit?_digitByte (digit : Digit) : digit? (UInt8.ofNat (48 + digit.val)) = some digit := by
  revert digit
  decide

theorem digitByte_of_digit? {byte : UInt8} {digit : Digit} (known : digit? byte = some digit) :
    byte = UInt8.ofNat (48 + digit.val) := by
  unfold digit? at known
  split at known
  case isTrue range =>
    cases known
    simp only [Bool.and_eq_true, decide_eq_true_eq, UInt8.le_iff_toNat_le] at range
    have low : 48 ≤ byte.toNat := range.1
    have high : byte.toNat ≤ 57 := range.2
    apply UInt8.toNat_inj.mp
    simp only [UInt8.toNat_ofNat', Fin.val_ofNat]
    omega
  case isFalse => cases known

@[simp] theorem length_digitBytes (digits : List Digit) :
    (digitBytes digits).length = digits.length :=
  List.length_map _

/-- The bytes do not begin with a digit. -/
def NoDigit (bytes : List UInt8) : Prop :=
  leadingDigits bytes = []

theorem noDigit_cons {byte : UInt8} {bytes : List UInt8} (other : digit? byte = none) :
    NoDigit (byte :: bytes) := by
  simp only [NoDigit, leadingDigits, other]

theorem noDigit_iff {bytes : List UInt8} :
    NoDigit bytes ↔ ∀ byte ∈ bytes.head?, digit? byte = none := by
  cases bytes with
  | nil => exact ⟨fun _ _ => (nomatch ·), fun _ => rfl⟩
  | cons byte bytes =>
      refine ⟨fun stop first isFirst => ?_, fun others => noDigit_cons (others byte rfl)⟩
      cases isFirst
      cases found : digit? byte with
      | none => rfl
      | some digit => simp only [NoDigit, leadingDigits, found, List.cons_ne_nil] at stop

theorem leadingDigits_append (digits : List Digit) {rest : List UInt8} (stop : NoDigit rest) :
    leadingDigits (digitBytes digits ++ rest) = digits := by
  induction digits with
  | nil => exact stop
  | cons digit digits inductionHypothesis =>
      change leadingDigits (UInt8.ofNat (48 + digit.val) :: (digitBytes digits ++ rest)) = _
      rw [leadingDigits, digit?_digitByte]
      simp only [inductionHypothesis]

/-- What the scanner takes as digits is there as their bytes, and no digit follows. -/
theorem digitBytes_leadingDigits (bytes : List UInt8) :
    Exists fun rest => bytes = digitBytes (leadingDigits bytes) ++ rest ∧ NoDigit rest := by
  induction bytes with
  | nil => exact ⟨[], rfl, rfl⟩
  | cons byte bytes inductionHypothesis =>
      cases found : digit? byte with
      | none =>
          simp only [leadingDigits, found]
          exact ⟨byte :: bytes, rfl, noDigit_cons found⟩
      | some digit =>
          rcases inductionHypothesis with ⟨rest, split, stop⟩
          refine ⟨rest, ?_, stop⟩
          simp only [leadingDigits, found]
          change byte :: bytes =
            UInt8.ofNat (48 + digit.val) :: (digitBytes (leadingDigits bytes) ++ rest)
          rw [← digitByte_of_digit? found, ← split]

namespace Numeral

/-- The bytes cannot go on with a numeral. -/
def Stops : List UInt8 -> Prop
  | [] => True
  | byte :: _ => digit? byte = none ∧ byte ≠ 0x2e ∧ byte ≠ 0x65 ∧ byte ≠ 0x45

theorem Stops.noDigit {rest : List UInt8} (stops : Stops rest) : NoDigit rest := by
  cases rest with
  | nil => rfl
  | cons byte rest => exact noDigit_cons stops.1

/-- The bytes do not go on with this numeral, so it is not a part of a longer one. -/
structure Ended (numeral : Numeral) (rest : List UInt8) : Prop where
  noDigit : NoDigit rest
  noLetter : numeral.exponent = none -> rest.head? ≠ some 0x65 ∧ rest.head? ≠ some 0x45
  noPoint : numeral.exponent = none -> numeral.fraction = none -> rest.head? ≠ some 0x2e

theorem Stops.ended {rest : List UInt8} (stops : Stops rest) (numeral : Numeral) :
    numeral.Ended rest := by
  refine ⟨stops.noDigit, fun _ => ?_, fun _ _ => ?_⟩
  · cases rest with
    | nil => exact ⟨nofun, nofun⟩
    | cons byte rest =>
        exact ⟨fun same => stops.2.2.1 (Option.some.inj same),
          fun same => stops.2.2.2 (Option.some.inj same)⟩
  · cases rest with
    | nil => exact nofun
    | cons byte rest => exact fun same => stops.2.1 (Option.some.inj same)

/-- Whether a numeral goes on is decided by one byte. -/
theorem Ended.of_head? {numeral : Numeral} {rest other : List UInt8} (ended : numeral.Ended rest)
    (same : rest.head? = other.head?) : numeral.Ended other := by
  rcases ended with ⟨noDigit, noLetter, noPoint⟩
  rw [same] at noLetter noPoint
  exact ⟨noDigit_iff.mpr (same ▸ noDigit_iff.mp noDigit), noLetter, noPoint⟩

theorem Ended.nil (numeral : Numeral) : numeral.Ended [] :=
  (show Stops [] from trivial).ended numeral

theorem scanWhole_append {digits : List Digit} {rest : List UInt8}
    (proper : ProperWhole digits) (stop : NoDigit rest) :
    scanWhole (digitBytes digits ++ rest) = .ok digits := by
  unfold scanWhole
  rw [leadingDigits_append digits stop]
  rcases proper with ⟨notEmpty, alone⟩
  cases digits with
  | nil => exact absurd rfl notEmpty
  | cons digit digits =>
      by_cases zero : digit = 0
      · have single : (digit :: digits).length = 1 := alone (by rw [zero]; rfl)
        have none_left : digits = [] := List.length_eq_zero_iff.mp (Nat.succ.inj single)
        simp [none_left]
      · simp [zero]

theorem scanWhole_ok {bytes : List UInt8} {digits : List Digit}
    (scanned : scanWhole bytes = .ok digits) :
    ProperWhole digits ∧
      Exists fun rest => bytes = digitBytes digits ++ rest ∧ NoDigit rest := by
  have taken := digitBytes_leadingDigits bytes
  unfold scanWhole at scanned
  split at scanned
  case h_1 => cases scanned
  case h_2 digit others found =>
    split at scanned
    case isTrue => cases scanned
    case isFalse alone =>
      cases scanned
      rw [found] at taken
      refine ⟨⟨List.cons_ne_nil _ _, ?_⟩, taken⟩
      intro zero
      have isZero : digit = 0 := Option.some.inj zero
      simpa [isZero] using alone

theorem scanFraction_append {fraction : Option (List Digit)} {bytes rest : List UInt8}
    (spelled : FractionSpelled fraction bytes) (stop : NoDigit rest)
    (noPoint : fraction = none -> rest.head? ≠ some 0x2e) :
    scanFraction (bytes ++ rest) = .ok fraction := by
  cases spelled with
  | absent =>
      cases rest with
      | nil => rfl
      | cons byte rest =>
          have other : byte ≠ 0x2e := fun same => noPoint rfl (by rw [same]; rfl)
          simp [scanFraction, other]
  | present someDigit =>
      rename_i digits
      simp only [List.cons_append, scanFraction, if_true, leadingDigits_append digits stop]

theorem scanFraction_ok {bytes : List UInt8} {fraction : Option (List Digit)}
    (scanned : scanFraction bytes = .ok fraction) :
    Exists fun spelled => Exists fun rest =>
      bytes = spelled ++ rest ∧ FractionSpelled fraction spelled ∧
        (fraction = none -> rest.head? ≠ some 0x2e) ∧ (NoDigit bytes -> NoDigit rest) := by
  unfold scanFraction at scanned
  split at scanned
  case h_1 =>
    cases scanned
    exact ⟨[], [], rfl, .absent, fun _ => (Option.some_ne_none _).symm, id⟩
  case h_2 byte bytes =>
    split at scanned
    case isTrue point =>
      have taken := digitBytes_leadingDigits bytes
      split at scanned
      case h_1 => cases scanned
      case h_2 notEmpty =>
        cases scanned
        rcases taken with ⟨rest, split, stop⟩
        refine ⟨_, rest, ?_, .present notEmpty, (absurd · (Option.some_ne_none _)), fun _ => stop⟩
        rw [point, List.cons_append, ← split]
    case isFalse noPoint =>
      cases scanned
      exact ⟨[], byte :: bytes, rfl, .absent, fun _ same => noPoint (Option.some.inj same), id⟩

/-- The sign that the scanner sees at the front of an exponent. -/
def leadingSign : List UInt8 -> Option Sign
  | [] => none
  | byte :: _ => if byte = 0x2b then some .plus else if byte = 0x2d then some .minus else none

theorem leadingSign_append {digits : List Digit} (someDigit : digits ≠ []) (sign : Option Sign)
    (rest : List UInt8) :
    leadingSign (signBytes sign ++ digitBytes digits ++ rest) = sign := by
  cases sign with
  | none =>
      cases digits with
      | nil => exact absurd rfl someDigit
      | cons digit digits =>
          have notSign : forall digit : Digit, UInt8.ofNat (48 + digit.val) ≠ 0x2b ∧
              UInt8.ofNat (48 + digit.val) ≠ 0x2d := by decide
          simp only [signBytes, digitBytes, List.nil_append, List.map_cons, List.cons_append,
            leadingSign, if_neg (notSign digit).1, if_neg (notSign digit).2]
  | some sign => cases sign <;> rfl

theorem signBytes_leadingSign (bytes : List UInt8) :
    bytes = signBytes (leadingSign bytes) ++
      bytes.drop (if (leadingSign bytes).isSome then 1 else 0) := by
  cases bytes with
  | nil => rfl
  | cons byte bytes =>
      by_cases plus : byte = 0x2b
      · simp [leadingSign, plus, signBytes]
      · by_cases minus : byte = 0x2d
        · simp [leadingSign, minus, signBytes]
        · simp [leadingSign, plus, minus, signBytes]

theorem length_signBytes (sign : Option Sign) :
    (signBytes sign).length = if sign.isSome then 1 else 0 := by
  cases sign with
  | none => rfl
  | some sign => cases sign <;> rfl

/-- The scanner of an exponent, with its sign set apart. -/
theorem scanExponent_cons (byte : UInt8) (bytes : List UInt8) :
    scanExponent (byte :: bytes) =
      if byte = 0x65 ∨ byte = 0x45 then
        match leadingDigits (bytes.drop (if (leadingSign bytes).isSome then 1 else 0)) with
        | [] => .error (1 + if (leadingSign bytes).isSome then 1 else 0)
        | digits => .ok (some { sign := leadingSign bytes, digits })
      else .ok none := by
  simp only [scanExponent, Bool.or_eq_true, decide_eq_true_eq]
  cases bytes with
  | nil => rfl
  | cons next bytes => rfl

theorem scanExponent_append {exponent : Option Exponent} {bytes rest : List UInt8}
    (spelled : ExponentSpelled exponent bytes) (stop : NoDigit rest)
    (noLetter : exponent = none -> rest.head? ≠ some 0x65 ∧ rest.head? ≠ some 0x45) :
    scanExponent (bytes ++ rest) = .ok exponent := by
  cases spelled with
  | absent =>
      cases rest with
      | nil => rfl
      | cons byte rest =>
          rw [List.nil_append, scanExponent_cons, if_neg]
          intro isLetter
          rcases isLetter with rfl | rfl
          · exact (noLetter rfl).1 rfl
          · exact (noLetter rfl).2 rfl
  | present isLetter someDigit =>
      rename_i letter exponent
      rcases exponent with ⟨sign, digits⟩
      rw [List.cons_append, scanExponent_cons, if_pos isLetter,
        leadingSign_append someDigit sign rest]
      have afterSign : (signBytes sign ++ digitBytes digits ++ rest).drop
          (if sign.isSome then 1 else 0) = digitBytes digits ++ rest := by
        rw [← length_signBytes sign, List.append_assoc, List.drop_left]
      rw [afterSign, leadingDigits_append digits stop]
      cases digits with
      | nil => exact absurd rfl someDigit
      | cons digit digits => rfl

theorem scanExponent_ok {bytes : List UInt8} {exponent : Option Exponent}
    (scanned : scanExponent bytes = .ok exponent) :
    Exists fun spelled => Exists fun rest =>
      bytes = spelled ++ rest ∧ ExponentSpelled exponent spelled ∧
        (exponent = none -> rest.head? ≠ some 0x65 ∧ rest.head? ≠ some 0x45) ∧
        (exponent = none -> spelled = []) ∧ (NoDigit bytes -> NoDigit rest) := by
  cases bytes with
  | nil =>
      cases scanned
      exact ⟨[], [], rfl, .absent, fun _ => ⟨nofun, nofun⟩, fun _ => rfl, id⟩
  | cons byte bytes =>
      rw [scanExponent_cons] at scanned
      split at scanned
      case isTrue isLetter =>
        have taken := digitBytes_leadingDigits
          (bytes.drop (if (leadingSign bytes).isSome then 1 else 0))
        split at scanned
        case h_1 => cases scanned
        case h_2 notEmpty =>
          cases scanned
          rcases taken with ⟨rest, split, stop⟩
          refine ⟨_, rest, ?_, .present isLetter notEmpty, nofun, nofun, fun _ => stop⟩
          rw [List.cons_append, List.append_assoc, ← split, ← signBytes_leadingSign]
      case isFalse noLetter =>
        cases scanned
        refine ⟨[], byte :: bytes, rfl, .absent, fun _ => ⟨?_, ?_⟩, fun _ => rfl, id⟩
        · exact fun same => noLetter (.inl (Option.some.inj same))
        · exact fun same => noLetter (.inr (Option.some.inj same))

/-- The number of bytes of a fraction, with its point. -/
def fractionWidth (fraction : Option (List Digit)) : Nat :=
  (fraction.map fun digits => 1 + digits.length).getD 0

/-- The number of bytes of an exponent, with its letter. -/
def exponentWidth (exponent : Option Exponent) : Nat :=
  (exponent.map fun exponent =>
    1 + (if exponent.sign.isSome then 1 else 0) + exponent.digits.length).getD 0

theorem width_eq (numeral : Numeral) :
    numeral.width = (if numeral.negative = true then 1 else 0) + numeral.whole.length +
      fractionWidth numeral.fraction + exponentWidth numeral.exponent := by
  rcases numeral with ⟨negative, whole, fraction, exponent⟩
  cases fraction <;> cases exponent <;> rfl

theorem length_minusBytes (negative : Bool) :
    (minusBytes negative).length = if negative then 1 else 0 := by
  cases negative <;> rfl

theorem FractionSpelled.length {fraction : Option (List Digit)} {bytes : List UInt8}
    (spelled : FractionSpelled fraction bytes) :
    bytes.length = (fraction.map fun digits => 1 + digits.length).getD 0 := by
  cases spelled with
  | absent => rfl
  | present =>
      simp only [List.length_cons, length_digitBytes, Option.map_some, Option.getD_some]
      omega

theorem ExponentSpelled.length {exponent : Option Exponent} {bytes : List UInt8}
    (spelled : ExponentSpelled exponent bytes) :
    bytes.length = (exponent.map fun exponent =>
      1 + (if exponent.sign.isSome then 1 else 0) + exponent.digits.length).getD 0 := by
  cases spelled with
  | absent => rfl
  | present =>
      simp only [List.length_cons, List.length_append, length_signBytes, length_digitBytes,
        Option.map_some, Option.getD_some]
      omega

theorem Spelled.length {numeral : Numeral} {bytes : List UInt8}
    (spelled : numeral.Spelled bytes) : bytes.length = numeral.width := by
  rcases spelled with ⟨_, fractionPart, exponentPart⟩
  rename_i fraction exponent _
  rcases numeral with ⟨negative, whole, numeralFraction, numeralExponent⟩
  have fractionWidth := fractionPart.length
  have exponentWidth := exponentPart.length
  simp only [List.length_append, length_minusBytes, length_digitBytes, width]
  cases numeralFraction <;> cases numeralExponent <;>
    simp only [Option.map_some, Option.map_none, Option.getD_some, Option.getD_none]
      at fractionWidth exponentWidth ⊢ <;> omega

section Bytes

variable {holds : UInt8 -> Prop}

theorem digitBytes_each (digit : forall digit : Digit, holds (UInt8.ofNat (48 + digit.val)))
    (digits : List Digit) : ∀ byte ∈ digitBytes digits, holds byte := by
  intro byte listed
  rcases List.mem_map.mp listed with ⟨d, _, rfl⟩
  exact digit d

theorem FractionSpelled.each
    (digit : forall digit : Digit, holds (UInt8.ofNat (48 + digit.val))) (point : holds 0x2e)
    {fraction : Option (List Digit)} {bytes : List UInt8}
    (spelled : FractionSpelled fraction bytes) : ∀ byte ∈ bytes, holds byte := by
  cases spelled with
  | absent => exact fun _ => (nomatch ·)
  | present => exact List.forall_mem_cons.mpr ⟨point, digitBytes_each digit _⟩

theorem ExponentSpelled.each
    (digit : forall digit : Digit, holds (UInt8.ofNat (48 + digit.val)))
    (mark : ∀ byte ∈ [0x2b, 0x2d, 0x65, 0x45], holds byte) {exponent : Option Exponent}
    {bytes : List UInt8} (spelled : ExponentSpelled exponent bytes) :
    ∀ byte ∈ bytes, holds byte := by
  simp only [List.forall_mem_cons] at mark
  rcases mark with ⟨plus, minus, lower, upper, _⟩
  cases spelled with
  | absent => exact fun _ => (nomatch ·)
  | @present letter exponent isLetter =>
      have letterHolds : holds letter := by
        rcases isLetter with rfl | rfl
        · exact lower
        · exact upper
      have signHolds : ∀ byte ∈ signBytes exponent.sign, holds byte := by
        rcases exponent.sign with _ | _ | _
        · exact fun _ => (nomatch ·)
        · exact List.forall_mem_singleton.mpr plus
        · exact List.forall_mem_singleton.mpr minus
      exact List.forall_mem_cons.mpr
        ⟨letterHolds, List.forall_mem_append.mpr ⟨signHolds, digitBytes_each digit _⟩⟩

/-- What holds of digits and of the marks between them holds of all bytes of a numeral. -/
theorem Spelled.each (digit : forall digit : Digit, holds (UInt8.ofNat (48 + digit.val)))
    (point : holds 0x2e) (mark : ∀ byte ∈ [0x2b, 0x2d, 0x65, 0x45], holds byte)
    {numeral : Numeral} {bytes : List UInt8} (spelled : numeral.Spelled bytes) :
    ∀ byte ∈ bytes, holds byte := by
  rcases spelled with ⟨_, fractionPart, exponentPart⟩
  have minus : ∀ byte ∈ minusBytes numeral.negative, holds byte := by
    cases numeral.negative with
    | false => exact fun _ => (nomatch ·)
    | true => exact List.forall_mem_singleton.mpr (mark _ (by decide))
  simp only [List.forall_mem_append]
  exact ⟨minus, digitBytes_each digit _, fractionPart.each digit point,
    exponentPart.each digit mark⟩

end Bytes

theorem head?_ne_minus {digits : List Digit} (proper : ProperWhole digits) (rest : List UInt8) :
    (digitBytes digits ++ rest).head? ≠ some 0x2d := by
  cases digits with
  | nil => exact absurd rfl proper.1
  | cons digit digits =>
      have notMinus : forall digit : Digit, UInt8.ofNat (48 + digit.val) ≠ 0x2d := by decide
      intro same
      exact notMinus digit (Option.some.inj same)

theorem ExponentSpelled.noDigit {exponent : Option Exponent} {bytes rest : List UInt8}
    (spelled : ExponentSpelled exponent bytes) (stop : NoDigit rest) : NoDigit (bytes ++ rest) := by
  cases spelled with
  | absent => exact stop
  | present isLetter => rcases isLetter with rfl | rfl <;> exact noDigit_cons rfl

theorem ExponentSpelled.noPoint {exponent : Option Exponent} {bytes rest : List UInt8}
    (spelled : ExponentSpelled exponent bytes)
    (noPoint : exponent = none -> rest.head? ≠ some 0x2e) :
    (bytes ++ rest).head? ≠ some 0x2e := by
  cases spelled with
  | absent => exact noPoint rfl
  | present isLetter => rcases isLetter with rfl | rfl <;> simp

theorem FractionSpelled.noDigit {fraction : Option (List Digit)} {bytes rest : List UInt8}
    (spelled : FractionSpelled fraction bytes) (stop : NoDigit rest) : NoDigit (bytes ++ rest) := by
  cases spelled with
  | absent => exact stop
  | present => exact noDigit_cons rfl

/-- Scanning goes on behind the whole part of a numeral. -/
theorem scan_whole {negative : Bool} {whole : List Digit} (proper : ProperWhole whole)
    {rest : List UInt8} (stop : NoDigit rest) :
    scan (minusBytes negative ++ (digitBytes whole ++ rest)) = (do
      let width := (minusBytes negative).length + whole.length
      let fraction ← shiftError width (scanFraction rest)
      let fractionWidth := (fraction.map fun digits => 1 + digits.length).getD 0
      let exponent ← shiftError (width + fractionWidth) (scanExponent (rest.drop fractionWidth))
      .ok ⟨negative, whole, fraction, exponent⟩) := by
  have isNegative : ((minusBytes negative ++ (digitBytes whole ++ rest)).head? == some 0x2d) =
      negative := by
    cases negative with
    | true => rfl
    | false =>
        apply beq_eq_false_iff_ne.mpr
        rw [minusBytes, if_neg Bool.false_ne_true, List.nil_append]
        exact head?_ne_minus proper _
  -- Each part begins where the widths of the parts before it add up to.
  have dropMinus : (minusBytes negative ++ (digitBytes whole ++ rest)).drop
      (if negative then 1 else 0) = digitBytes whole ++ rest := by
    rw [← length_minusBytes, List.drop_left]
  have dropWhole : (minusBytes negative ++ (digitBytes whole ++ rest)).drop
      ((if negative then 1 else 0) + whole.length) = rest := by
    rw [← List.drop_drop, dropMinus, ← length_digitBytes, List.drop_left]
  have dropFraction : forall width, (minusBytes negative ++ (digitBytes whole ++ rest)).drop
      ((if negative then 1 else 0) + whole.length + width) = rest.drop width := by
    intro width
    rw [← List.drop_drop, dropWhole]
  simp only [scan, isNegative, dropMinus, scanWhole_append proper stop, shiftError, bind,
    Except.bind, dropWhole, dropFraction, length_minusBytes]

/-- Scanning goes on behind the fraction of a numeral. -/
theorem scan_fraction {negative : Bool} {whole : List Digit} (proper : ProperWhole whole)
    {fraction : Option (List Digit)} {spelled : List UInt8}
    (fractionPart : FractionSpelled fraction spelled) {rest : List UInt8} (stop : NoDigit rest)
    (noPoint : fraction = none -> rest.head? ≠ some 0x2e) :
    scan (minusBytes negative ++ (digitBytes whole ++ (spelled ++ rest))) = (do
      let width := (minusBytes negative).length + whole.length + spelled.length
      let exponent ← shiftError width (scanExponent rest)
      .ok ⟨negative, whole, fraction, exponent⟩) := by
  rw [scan_whole proper (fractionPart.noDigit stop), scanFraction_append fractionPart stop noPoint]
  simp only [shiftError, bind, Except.bind, ← fractionPart.length, List.drop_left]

/-- A spelled numeral is scanned as such where it does not go on. -/
theorem scan_append {numeral : Numeral} {bytes rest : List UInt8}
    (spelled : numeral.Spelled bytes) (ended : numeral.Ended rest) :
    scan (bytes ++ rest) = .ok numeral := by
  rcases spelled with ⟨wholePart, fractionPart, exponentPart⟩
  rw [List.append_assoc, List.append_assoc, List.append_assoc,
    scan_fraction wholePart fractionPart (exponentPart.noDigit ended.noDigit)
      (fun noFraction => exponentPart.noPoint fun noExponent =>
        ended.noPoint noExponent noFraction),
    scanExponent_append exponentPart ended.noDigit ended.noLetter]
  rfl

/-- What is scanned as a numeral is spelled as one, and does not go on. -/
theorem scan_ok {bytes : List UInt8} {numeral : Numeral} (scanned : scan bytes = .ok numeral) :
    Exists fun spelled => Exists fun rest =>
      bytes = spelled ++ rest ∧ numeral.Spelled spelled ∧ numeral.Ended rest := by
  simp only [scan, bind, Except.bind] at scanned
  split at scanned
  case h_1 => cases scanned
  case h_2 whole wholeScanned =>
  split at scanned
  case h_1 => cases scanned
  case h_2 fraction fractionScanned =>
  split at scanned
  case h_1 => cases scanned
  case h_2 exponent exponentScanned =>
  cases scanned
  have minus : bytes = minusBytes (bytes.head? == some 0x2d) ++
      bytes.drop (if bytes.head? == some 0x2d then 1 else 0) := by
    cases bytes with
    | nil => rfl
    | cons byte bytes =>
        by_cases isMinus : byte = 0x2d
        · simp [isMinus, minusBytes]
        · simp [isMinus, minusBytes]
  have unshifted : forall {α : Type} {width : Nat} {result : Except Nat α} {a : α},
      shiftError width result = .ok a -> result = .ok a := by
    intro α width result a shifted
    cases result with
    | error count => cases shifted
    | ok found => exact shifted
  rcases scanWhole_ok (unshifted wholeScanned) with
    ⟨proper, afterWhole, wholeSplit, wholeStop⟩
  rw [← List.drop_drop, wholeSplit, ← length_digitBytes, List.drop_left] at fractionScanned
  rcases scanFraction_ok (unshifted fractionScanned) with
    ⟨fractionBytes, afterFraction, fractionSplit, fractionPart, noPoint, fractionStop⟩
  rw [← List.drop_drop, ← List.drop_drop, wholeSplit, ← length_digitBytes, List.drop_left,
    fractionSplit, ← fractionPart.length, List.drop_left] at exponentScanned
  rcases scanExponent_ok (unshifted exponentScanned) with
    ⟨exponentBytes, rest, exponentSplit, exponentPart, noLetter, noBytes, exponentStop⟩
  have ended : Numeral.Ended ⟨bytes.head? == some 0x2d, whole, fraction, exponent⟩ rest := by
    refine ⟨exponentStop (fractionStop wholeStop), noLetter, fun noExponent noFraction => ?_⟩
    rw [noBytes noExponent, List.nil_append] at exponentSplit
    exact exponentSplit ▸ noPoint noFraction
  refine ⟨_, rest, ?_, .intro proper fractionPart exponentPart, ended⟩
  calc
    bytes = minusBytes (bytes.head? == some 0x2d) ++
        (digitBytes whole ++ (fractionBytes ++ (exponentBytes ++ rest))) := by
      rw [← exponentSplit, ← fractionSplit, ← wholeSplit, ← minus]
    _ = _ := by simp only [List.append_assoc]

end Numeral
end Json
end RepoInspector
