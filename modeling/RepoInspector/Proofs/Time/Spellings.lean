import Mathlib.Algebra.Group.Nat.Defs
import Mathlib.Data.List.Induction
import Mathlib.Data.List.TakeWhile
import RepoInspector.Proofs.Time.Timeline

namespace RepoInspector
namespace Time

open Text

/-!
# Spellings of timestamps

One timestamp can be spelled in many ways.  The grammar below has all of them
and says nothing about how they are read.  It is loose about numbers: a month
is any number of one or two digits, and whether such a month exists is for
`Written.Denotes` to say.  So it also spells timestamps that denote nothing,
and it can be shown that these are refused.
-/

/-!
## The grammar
-/

/-- Any number of blanks. -/
def Blank (text : List Char) : Prop := ∀ c ∈ text, isBlank c = true

/-- Any positive number of digits. -/
structure IsRun (digits : List Char) : Prop where
  some_digit : digits ≠ []
  all : ∀ c ∈ digits, c.isDigit = true

/-- A number of one or two digits, behind blanks. -/
inductive PartSpelled : List Char -> Nat -> Prop
  | intro {blanks digits : List Char} (blank : Blank blanks) (isRun : IsRun digits)
      (short : digits.length ≤ 2) : PartSpelled (blanks ++ digits) (Decimal.ofDigits digits)

/-- A mark behind blanks. -/
inductive MarkSpelled (mark : Char) : List Char -> Prop
  | intro {blanks : List Char} (blank : Blank blanks) : MarkSpelled mark (blanks ++ [mark])

/-- A year has up to four digits, or a sign and any number of them. -/
inductive YearSpelled : List Char -> Int -> Prop
  | plain {blanks digits : List Char} (blank : Blank blanks) (isRun : IsRun digits)
      (short : digits.length ≤ 4) : YearSpelled (blanks ++ digits) (Decimal.ofDigits digits)
  | plus {blanks digits : List Char} (blank : Blank blanks) (isRun : IsRun digits) :
      YearSpelled (blanks ++ '+' :: digits) (Decimal.ofDigits digits)
  | minus {blanks digits : List Char} (blank : Blank blanks) (isRun : IsRun digits) :
      YearSpelled (blanks ++ '-' :: digits) (-(Decimal.ofDigits digits : Int))

/-- The join of date and time. -/
inductive JoinSpelled : List Char -> Prop
  | upper : JoinSpelled ['T']
  | lower : JoinSpelled ['t']
  | space : JoinSpelled [' ']

/-- A fraction of a second in whole nanoseconds.  It has any number of digits,
and what is less than a nanosecond is cut off. -/
inductive FractionSpelled : List Char -> Nat -> Prop
  | absent : FractionSpelled [] 0
  | present {digits : List Char} (isRun : IsRun digits) :
      FractionSpelled ('.' :: digits)
        (Decimal.ofDigits digits * 10 ^ 9 / 10 ^ digits.length)

inductive SignSpelled : Char -> Bool -> Prop
  | plus : SignSpelled '+' false
  | minus : SignSpelled '-' true
  | longMinus : SignSpelled '\u2212' true

/-- An offset in minutes: universal time by name, or hours and minutes of two
digits each, with any colons and blanks between them. -/
inductive OffsetSpelled : List Char -> Int -> Prop
  | letter {c : Char} (isLetter : c = 'Z' ∨ c = 'z') : OffsetSpelled [c] 0
  | name {u t c : Char} (isName : (u = 'U' ∨ u = 'u') ∧ (t = 'T' ∨ t = 't') ∧ (c = 'C' ∨ c = 'c')) :
      OffsetSpelled [u, t, c] 0
  | signed {sign : Char} {negative : Bool} {hours separator minutes : List Char}
      (isSign : SignSpelled sign negative) (hourRun : IsRun hours) (hourPair : hours.length = 2)
      (apart : ∀ c ∈ separator, c = ':' ∨ isBlank c = true) (minuteRun : IsRun minutes)
      (minutePair : minutes.length = 2) (fits : Decimal.ofDigits minutes < 60) :
      OffsetSpelled (sign :: (hours ++ (separator ++ minutes)))
        (let offset : Int := Decimal.ofDigits hours * 60 + Decimal.ofDigits minutes
         if negative then -offset else offset)

/-- An offset behind blanks. -/
inductive ZoneSpelled : List Char -> Int -> Prop
  | intro {blanks text : List Char} {offset : Int} (blank : Blank blanks)
      (spelled : OffsetSpelled text offset) : ZoneSpelled (blanks ++ text) offset

/-- A timestamp is spelled by its parts one after another, with blanks around
many of them.  No blanks may stand before the join and before a fraction. -/
inductive Written.Spelled : Written -> List Char -> Prop
  | intro {written : Written} {year dash month hyphen day join hour colon minute mark second
        fraction zone blanks : List Char}
      (isYear : YearSpelled year written.year) (isDash : MarkSpelled '-' dash)
      (isMonth : PartSpelled month written.month) (isHyphen : MarkSpelled '-' hyphen)
      (isDay : PartSpelled day written.day) (isJoin : JoinSpelled join)
      (isHour : PartSpelled hour written.hour) (isColon : MarkSpelled ':' colon)
      (isMinute : PartSpelled minute written.minute) (isMark : MarkSpelled ':' mark)
      (isSecond : PartSpelled second written.second)
      (isFraction : FractionSpelled fraction written.nanosecond)
      (isZone : ZoneSpelled zone written.offset) (blank : Blank blanks) :
      Spelled written (year ++ (dash ++ (month ++ (hyphen ++ (day ++ (join ++ (hour ++ (colon ++
        (minute ++ (mark ++ (second ++ (fraction ++ (zone ++ blanks)))))))))))))

/-!
## Digits and blanks
-/

section Pieces

variable {digits blanks rest text : List Char}

theorem ofDigits_append_run (front back : List Char) :
    Decimal.ofDigits (front ++ back) =
      Decimal.ofDigits front * 10 ^ back.length + Decimal.ofDigits back := by
  induction back using List.reverseRecOn with
  | nil => rw [List.append_nil, List.length_nil, Nat.pow_zero, Nat.mul_one]; rfl
  | append_singleton back c inductionHypothesis =>
      rw [← List.append_assoc, ofDigits_append, inductionHypothesis, ofDigits_append,
        List.length_append, List.length_singleton, Nat.pow_succ, ← Nat.mul_assoc]
      omega

theorem ofDigits_lt (all : ∀ c ∈ digits, c.isDigit = true) :
    Decimal.ofDigits digits < 10 ^ digits.length := by
  induction digits using List.reverseRecOn with
  | nil => decide
  | append_singleton digits c inductionHypothesis =>
      rcases List.forall_mem_append.mp all with ⟨front, last⟩
      have value := inductionHypothesis front
      have range : 48 ≤ c.toNat ∧ c.toNat ≤ 57 :=
        Char.isDigit_iff_toNat.mp (last c List.mem_cons_self)
      rw [ofDigits_append, List.length_append, List.length_singleton, Nat.pow_succ]
      omega

theorem skipBlanks_blank (blank : Blank blanks) (solid : ∀ c ∈ text.head?, isBlank c = false) :
    skipBlanks (blanks ++ text) = text := by
  rw [skipBlanks, List.dropWhile_append_of_pos blank]
  cases text with
  | nil => rfl
  | cons c text => exact skipBlanks_cons (solid c rfl) text

theorem skipBlanks_run (blank : Blank blanks) (isRun : IsRun digits) :
    skipBlanks (blanks ++ (digits ++ rest)) = digits ++ rest := by
  refine skipBlanks_blank blank fun c isHead => ?_
  rcases digits with _ | ⟨digit, digits⟩
  · exact absurd rfl isRun.some_digit
  · cases isHead
    exact isBlank_digit (isRun.all c List.mem_cons_self)

theorem skipBlanks_mark {mark : Char} (notBlank : isBlank mark = false) (blank : Blank blanks) :
    skipBlanks (blanks ++ mark :: rest) = mark :: rest := by
  refine skipBlanks_blank blank fun c isHead => ?_
  cases isHead
  exact notBlank

/-- What is skipped is blank. -/
theorem skipBlanks_split (text : List Char) :
    Exists fun blanks => Blank blanks ∧ text = blanks ++ skipBlanks text :=
  ⟨text.takeWhile isBlank, fun _ listed => List.mem_takeWhile_imp listed,
    List.takeWhile_append_dropWhile.symm⟩

theorem Stops.take (stops : Stops text) (n : Nat) : Stops (text.take n) := by
  intro c isHead
  cases n with
  | zero => cases isHead
  | succ n =>
      cases text with
      | nil => cases isHead
      | cons d text => exact stops c isHead

theorem stops_blank (blank : Blank blanks) (stops : Stops text) : Stops (blanks ++ text) := by
  intro c isHead
  cases blanks with
  | nil => exact stops c isHead
  | cons b blanks =>
      cases isHead
      cases digit : c.isDigit with
      | false => rfl
      | true =>
          have isBlank := blank c List.mem_cons_self
          rw [isBlank_digit digit] at isBlank
          cases isBlank

end Pieces

/-!
## Readers that take a piece

Each reader takes its piece off a text, whatever follows, and fails only if it
does not accept what the piece says.
-/

section Readers

variable {α β : Type}

/-- A reader takes a piece off a text, and accepts what it says on a condition. -/
def Takes (read : List Char -> Except Fault (α × List Char)) (piece rest : List Char) (a : α)
    (accepted : Prop) : Prop :=
  forall result, read (piece ++ rest) = .ok result ↔ accepted ∧ result = (a, rest)

/-- What follows a piece is read next. -/
theorem Takes.then_iff {read : List Char -> Except Fault (α × List Char)}
    {piece rest : List Char} {a : α} {accepted : Prop} (takes : Takes read piece rest a accepted)
    {next : α × List Char -> Except Fault β} {b : β} :
    (read (piece ++ rest) >>= next) = .ok b ↔ accepted ∧ next (a, rest) = .ok b := by
  rw [bind_eq_ok_iff]
  constructor
  · intro given
    rcases given with ⟨result, isRead, later⟩
    rcases (takes result).mp isRead with ⟨isAccepted, rfl⟩
    exact ⟨isAccepted, later⟩
  · intro given
    rcases given with ⟨isAccepted, later⟩
    exact ⟨(a, rest), (takes _).mpr ⟨isAccepted, rfl⟩, later⟩

variable {piece rest digits : List Char}

theorem takes_of_eq {read : List Char -> Except Fault (α × List Char)} {a : α}
    (isRead : read (piece ++ rest) = .ok (a, rest)) : Takes read piece rest a True := by
  intro result
  rw [isRead, Except.ok.injEq, true_and]
  exact eq_comm

theorem readNumber_run (limit : Option Nat) (isRun : IsRun digits)
    (fits : Decimal.ofDigits digits ≤ greatestNumber) (stops : RunStops limit digits rest) :
    readNumber limit (digits ++ rest) = .ok (Decimal.ofDigits digits, rest) := by
  rw [readNumber, readDigits_run isRun.all isRun.some_digit fits stops, ok_bind]

/-- A short number is counted. -/
theorem fits_of_short {limit : Nat} (isRun : IsRun digits) (short : digits.length ≤ limit)
    (small : limit ≤ 18) : Decimal.ofDigits digits ≤ greatestNumber := by
  have value := ofDigits_lt isRun.all
  have power : 10 ^ digits.length ≤ 10 ^ 18 :=
    Nat.pow_le_pow_right (by decide) (Nat.le_trans short small)
  have bound : 10 ^ 18 ≤ greatestNumber := by decide
  omega

theorem takes_part {low high n : Nat} (spelled : PartSpelled piece n) (stops : Stops rest) :
    Takes (readPart low high) piece rest n (low ≤ n ∧ n ≤ high) := by
  cases spelled with
  | @intro blanks digits blank isRun short =>
      intro result
      rw [readPart, List.append_assoc, skipBlanks_run blank isRun,
        readNumber_run (some 2) isRun (fits_of_short isRun short (by decide))
          ⟨short, stops.take _⟩, ok_bind]
      simp only [Bool.and_eq_true, decide_eq_true_eq]
      split
      case isTrue within =>
        rw [Except.ok.injEq, and_iff_right within]
        exact eq_comm
      case isFalse without =>
        simp only [reduceCtorEq, without, false_and]

theorem takes_mark {mark : Char} (notBlank : isBlank mark = false)
    (spelled : MarkSpelled mark piece) : Takes (readMark mark) piece rest () True := by
  cases spelled with
  | @intro blanks blank =>
      apply takes_of_eq
      rw [readMark, List.append_assoc, List.singleton_append, skipBlanks_mark notBlank blank]
      simp only [if_true]

theorem takes_join (spelled : JoinSpelled piece) : Takes readJoin piece rest () True := by
  cases spelled <;> exact takes_of_eq rfl

theorem isYear_iff {value : Int} : IsYear value ↔ -yearLimit ≤ value ∧ value < yearLimit := by
  rw [IsYear, Bool.and_eq_true, decide_eq_true_eq, decide_eq_true_eq]

/-- A year that is counted is of a number that is. -/
theorem fits_of_isYear {value : Int} (isYear : IsYear value) : value.natAbs ≤ greatestNumber := by
  have bound : 2147483648 ≤ greatestNumber := by decide
  have within : value.natAbs ≤ 2147483648 := by
    rw [isYear_iff] at isYear
    simp only [yearLimit] at isYear
    omega
  exact Nat.le_trans within bound

/-- A number that is read is what its digits denote, and is counted. -/
theorem readNumber_run_iff (isRun : IsRun digits) (stops : Stops rest)
    {result : Nat × List Char} :
    readNumber none (digits ++ rest) = .ok result ↔
      Decimal.ofDigits digits ≤ greatestNumber ∧ result = (Decimal.ofDigits digits, rest) := by
  have taken : (digits ++ rest).takeWhile Char.isDigit = digits := takeWhile_run isRun.all stops
  by_cases fits : Decimal.ofDigits digits ≤ greatestNumber
  · rw [readNumber_run none isRun fits stops, Except.ok.injEq, and_iff_right fits]
    exact eq_comm
  · refine ⟨fun isRead => ?_, fun given => absurd given.1 fits⟩
    rcases bind_eq_ok_iff.mp isRead with ⟨run, isRead, _⟩
    simp only [readDigits, taken] at isRead
    split at isRead
    case isTrue => cases isRead
    case isFalse =>
      split at isRead
      case isTrue => cases isRead
      case isFalse =>
        rw [if_pos (Nat.not_le.mp fits)] at isRead
        cases isRead

/-- A number is a year when it is counted as one. -/
theorem asYear_iff {value : Int} {result : Int × List Char} :
    (if -yearLimit ≤ value && value < yearLimit then Except.ok (value, rest)
      else .error Fault.outOfRange) = .ok result ↔ IsYear value ∧ result = (value, rest) := by
  split
  case isTrue counted =>
    rw [Except.ok.injEq, IsYear, and_iff_right counted]
    exact eq_comm
  case isFalse unsupported =>
    simp only [reduceCtorEq, IsYear, unsupported, false_and]

/-- A year is read as a number, with a sign or without. -/
theorem asSigned_iff {number : Except Fault (Nat × List Char)} (sign : Nat -> Int) {n : Nat}
    {fits : Prop} (isNumber : forall result, number = .ok result ↔ fits ∧ result = (n, rest))
    (small : IsYear (sign n) -> fits) {result : Int × List Char} :
    (do
      let (value, rest) ← number
      let (value, rest) ← Except.ok (sign value, rest)
      if -yearLimit ≤ value && value < yearLimit then .ok (value, rest)
        else .error .outOfRange) = Except.ok (ε := Fault) result ↔
      IsYear (sign n) ∧ result = (sign n, rest) := by
  constructor
  · intro given
    rcases bind_eq_ok_iff.mp given with ⟨_, isRead, counted⟩
    rcases (isNumber _).mp isRead with ⟨_, rfl⟩
    exact asYear_iff.mp counted
  · intro given
    exact bind_eq_ok_iff.mpr ⟨(n, rest), (isNumber _).mpr ⟨small given.1, rfl⟩,
      asYear_iff.mpr given⟩

theorem takes_year {year : Int} (spelled : YearSpelled piece year) (stops : Stops rest) :
    Takes readYear piece rest year (IsYear year) := by
  intro result
  cases spelled with
  | @plain blanks digits blank isRun short =>
      have isNumber : forall result, readNumber (some 4) (digits ++ rest) = .ok result ↔
          True ∧ result = (Decimal.ofDigits digits, rest) := by
        intro result
        rw [readNumber_run (some 4) isRun (fits_of_short isRun short (by decide))
          ⟨short, stops.take _⟩, Except.ok.injEq, true_and]
        exact eq_comm
      rw [readYear, List.append_assoc, skipBlanks_run blank isRun]
      rcases digits with _ | ⟨c, digits⟩
      · exact absurd rfl isRun.some_digit
      · have isDigit := isRun.all c List.mem_cons_self
        split
        case h_1 same =>
          rw [(List.cons.inj same).1] at isDigit
          cases isDigit
        case h_2 same =>
          rw [(List.cons.inj same).1] at isDigit
          cases isDigit
        case h_3 => exact asSigned_iff (fun n => (n : Int)) isNumber fun _ => trivial
  | @plus blanks digits blank isRun =>
      rw [readYear, List.append_assoc, List.cons_append, skipBlanks_mark (by decide) blank]
      exact asSigned_iff (fun n => (n : Int)) (fun _ => readNumber_run_iff isRun stops)
        fun isYear => fits_of_isYear isYear
  | @minus blanks digits blank isRun =>
      rw [readYear, List.append_assoc, List.cons_append, skipBlanks_mark (by decide) blank]
      refine asSigned_iff (fun n => -(n : Int)) (fun _ => readNumber_run_iff isRun stops)
        fun isYear => ?_
      have small := fits_of_isYear isYear
      rw [Int.natAbs_neg] at small
      exact small

/-- Nine digits tell the whole nanoseconds, and further ones nothing. -/
theorem nanosecond_of_digits (isRun : IsRun digits) :
    Decimal.ofDigits (digits.take 9) * 10 ^ (9 - (digits.take 9).length) =
      Decimal.ofDigits digits * 10 ^ 9 / 10 ^ digits.length := by
  rcases Nat.le_total digits.length 9 with short | long
  · rw [List.take_of_length_le short]
    have powers : 10 ^ 9 = 10 ^ (9 - digits.length) * 10 ^ digits.length := by
      rw [← Nat.pow_add, Nat.sub_add_cancel short]
    rw [powers, ← Nat.mul_assoc, Nat.mul_div_cancel _ (Nat.pow_pos (by decide))]
  · have taken : (digits.take 9).length = 9 := List.length_take_of_le long
    have dropped : Decimal.ofDigits (digits.drop 9) < 10 ^ (digits.drop 9).length :=
      ofDigits_lt fun c listed => isRun.all c (List.mem_of_mem_drop listed)
    have powers : 10 ^ digits.length = 10 ^ (digits.drop 9).length * 10 ^ 9 := by
      rw [← Nat.pow_add, List.length_drop, Nat.sub_add_cancel long]
    have value : Decimal.ofDigits digits =
        Decimal.ofDigits (digits.drop 9) +
          Decimal.ofDigits (digits.take 9) * 10 ^ (digits.drop 9).length := by
      rw [Nat.add_comm, ← ofDigits_append_run, List.take_append_drop]
    rw [taken, Nat.sub_self, Nat.pow_zero, Nat.mul_one, powers,
      Nat.mul_div_mul_right _ _ (Nat.pow_pos (by decide)), value,
      Nat.add_mul_div_right _ _ (Nat.pow_pos (by decide)), Nat.div_eq_of_lt dropped, Nat.zero_add]

theorem takes_fraction {nanosecond : Nat} (spelled : FractionSpelled piece nanosecond)
    (stops : Stops rest) (noPoint : piece = [] -> rest.head? ≠ some '.') :
    Takes readFraction piece rest nanosecond True := by
  apply takes_of_eq
  cases spelled with
  | absent =>
      rw [List.nil_append, readFraction.eq_2]
      exact fun _ same => noPoint rfl (same ▸ rfl)
  | @present digits isRun =>
      have front : IsRun (digits.take 9) := by
        refine ⟨fun empty => ?_, fun c listed => isRun.all c (List.mem_of_mem_take listed)⟩
        rcases List.take_eq_nil_iff.mp empty with zero | none
        · cases zero
        · exact isRun.some_digit none
      have short : (digits.take 9).length ≤ 9 := List.length_take_le 9 digits
      have later : (digits.drop 9 ++ rest).dropWhile Char.isDigit = rest := by
        rw [List.dropWhile_append_of_pos
          fun c listed => isRun.all c (List.mem_of_mem_drop listed)]
        cases rest with
        | nil => rfl
        | cons c rest => exact List.dropWhile_cons_of_neg (Bool.eq_false_iff.mp (stops c rfl))
      have ends : Stops ((digits.drop 9 ++ rest).take (9 - (digits.take 9).length)) := by
        rcases Nat.le_total digits.length 9 with few | many
        · rw [List.drop_eq_nil_of_le few]
          exact stops.take _
        · rw [List.length_take_of_le many]
          intro c isHead
          cases isHead
      have isRead : readDigits (some 9) (digits.take 9 ++ (digits.drop 9 ++ rest)) =
          .ok (digits.take 9, digits.drop 9 ++ rest) :=
        readDigits_run front.all front.some_digit (fits_of_short front short (by decide))
          ⟨short, ends⟩
      rw [← List.append_assoc, List.take_append_drop] at isRead
      rw [List.cons_append, readFraction, isRead, ok_bind]
      simp only [later]
      exact congrArg Except.ok (congrArg (·, rest) (nanosecond_of_digits isRun))

theorem readOffset_letter {c : Char} (isLetter : c = 'Z' ∨ c = 'z') (rest : List Char) :
    readOffset (c :: rest) = .ok (0, rest) := by
  rcases isLetter with rfl | rfl <;> rcases rest with _ | ⟨_, _ | ⟨_, _⟩⟩ <;> rfl

theorem readOffset_name {u t c : Char}
    (isName : (u = 'U' ∨ u = 'u') ∧ (t = 'T' ∨ t = 't') ∧ (c = 'C' ∨ c = 'c'))
    (rest : List Char) : readOffset (u :: t :: c :: rest) = .ok (0, rest) := by
  rcases isName with ⟨rfl | rfl, rfl | rfl, rfl | rfl⟩ <;> rfl

/-- Two digits of which the first is not too high. -/
theorem readDigitPair_run {highest : Char} (isRun : IsRun digits) (pair : digits.length = 2)
    (within : ∀ c ∈ digits.head?, c ≤ highest) :
    readDigitPair highest (digits ++ rest) = .ok (Decimal.ofDigits digits, rest) := by
  match digits with
  | [a, b] =>
      have first := isRun.all a List.mem_cons_self
      have second := isRun.all b (List.mem_cons_of_mem _ List.mem_cons_self)
      simp only [List.cons_append, List.nil_append, readDigitPair, first, second, Bool.and_true,
        if_true, within a rfl]

theorem head_le_nine (isRun : IsRun digits) : ∀ c ∈ digits.head?, c ≤ '9' := by
  intro c isHead
  have range := Char.isDigit_iff_toNat.mp (isRun.all c (List.mem_of_mem_head? isHead))
  exact UInt32.le_iff_toNat_le.mpr range.2

/-- The first digit of a number of minutes is five at most. -/
theorem head_le_five (isRun : IsRun digits) (pair : digits.length = 2)
    (fits : Decimal.ofDigits digits < 60) : ∀ c ∈ digits.head?, c ≤ '5' := by
  match digits with
  | [a, b] =>
      rintro _ ⟨⟩
      have first : 48 ≤ a.toNat ∧ a.toNat ≤ 57 :=
        Char.isDigit_iff_toNat.mp (isRun.all a List.mem_cons_self)
      have value : 10 * (10 * 0 + (a.toNat - 48)) + (b.toNat - 48) < 60 := fits
      exact UInt32.le_iff_toNat_le.mpr (show a.toNat ≤ 53 by omega)

/-- Hours and minutes, with any colons and blanks between them. -/
theorem readDigitPairs_run {hours separator minutes : List Char} (hourRun : IsRun hours)
    (hourPair : hours.length = 2) (apart : ∀ c ∈ separator, c = ':' ∨ isBlank c = true)
    (minuteRun : IsRun minutes) (minutePair : minutes.length = 2)
    (fits : Decimal.ofDigits minutes < 60) (next : Nat -> Nat -> Int) (rest : List Char) :
    (do
      let (hours, rest) ← readDigitPair '9' (hours ++ (separator ++ (minutes ++ rest)))
      let (minutes, rest) ← readDigitPair '5' (rest.dropWhile fun c => c = ':' || isBlank c)
      .ok (next hours minutes, rest)) =
        Except.ok (next (Decimal.ofDigits hours) (Decimal.ofDigits minutes), rest) := by
  have skipped : (separator ++ (minutes ++ rest)).dropWhile
      (fun c => decide (c = ':') || isBlank c) = minutes ++ rest := by
    rw [List.dropWhile_append_of_pos fun c listed => by simpa using apart c listed]
    rcases minutes with _ | ⟨m, minutes⟩
    · exact absurd rfl minuteRun.some_digit
    · have isDigit := minuteRun.all m List.mem_cons_self
      have notColon : m ≠ ':' := fun same => by rw [same] at isDigit; cases isDigit
      apply List.dropWhile_cons_of_neg
      rw [isBlank_digit isDigit, Bool.or_false, decide_eq_true_eq]
      exact notColon
  refine bind_eq_ok_iff.mpr ⟨_, readDigitPair_run hourRun hourPair (head_le_nine hourRun), ?_⟩
  simp only [skipped]
  exact bind_eq_ok_iff.mpr
    ⟨_, readDigitPair_run minuteRun minutePair (head_le_five minuteRun minutePair fits), rfl⟩

theorem OffsetSpelled.read {offset : Int} (spelled : OffsetSpelled piece offset)
    (rest : List Char) : readOffset (piece ++ rest) = .ok (offset, rest) := by
  cases spelled with
  | letter isLetter => exact readOffset_letter isLetter rest
  | name isName => exact readOffset_name isName rest
  | @signed sign negative hours separator minutes isSign hourRun hourPair apart minuteRun minutePair
      fits =>
      have signed : readSignedOffset (sign :: (hours ++ (separator ++ (minutes ++ rest)))) =
          .ok (let offset : Int := Decimal.ofDigits hours * 60 + Decimal.ofDigits minutes
            if negative then -offset else offset, rest) := by
        have pairs := readDigitPairs_run hourRun hourPair apart minuteRun minutePair fits
          (fun hours minutes =>
            let offset : Int := hours * 60 + minutes
            if negative then -offset else offset) rest
        cases isSign <;> exact pairs
      match hours with
      | [a, b] =>
          simp only [List.cons_append, List.append_assoc, List.nil_append] at signed ⊢
          cases isSign <;> exact signed

/-- An offset begins with a letter or a sign. -/
theorem OffsetSpelled.head {offset : Int} (spelled : OffsetSpelled piece offset)
    {rest : List Char} : ∀ c ∈ (piece ++ rest).head?,
      c ∈ ['Z', 'z', 'U', 'u', '+', '-', '−'] := by
  intro c isHead
  cases spelled with
  | letter isLetter =>
      cases isHead
      rcases isLetter with rfl | rfl <;> decide
  | name isName =>
      cases isHead
      rcases isName with ⟨rfl | rfl, _⟩ <;> decide
  | signed isSign =>
      cases isHead
      cases isSign <;> decide

theorem takes_zone {offset : Int} (spelled : ZoneSpelled piece offset) :
    Takes (fun text => readOffset (skipBlanks text)) piece rest offset True := by
  cases spelled with
  | @intro blanks text _ blank spelled =>
      have solid : forall c, c ∈ ['Z', 'z', 'U', 'u', '+', '-', '−'] ->
          isBlank c = false := by
        simp only [List.forall_mem_cons, List.not_mem_nil, false_implies, implies_true, and_true]
        decide
      apply takes_of_eq
      rw [List.append_assoc, skipBlanks_blank blank fun c isHead => solid c (spelled.head c isHead),
        spelled.read]

theorem MarkSpelled.stops {mark : Char} (notDigit : mark.isDigit = false)
    (spelled : MarkSpelled mark piece) (rest : List Char) : Stops (piece ++ rest) := by
  cases spelled with
  | @intro blanks blank =>
      rw [List.append_assoc]
      exact stops_blank blank (stops_cons notDigit rest)

theorem JoinSpelled.stops (spelled : JoinSpelled piece) (rest : List Char) :
    Stops (piece ++ rest) := by
  cases spelled <;> exact stops_cons rfl rest

theorem ZoneSpelled.stops {offset : Int} (spelled : ZoneSpelled piece offset) (rest : List Char) :
    Stops (piece ++ rest) := by
  cases spelled with
  | @intro blanks text _ blank spelled =>
      have notDigit : forall c, c ∈ ['Z', 'z', 'U', 'u', '+', '-', '−'] ->
          c.isDigit = false := by
        simp only [List.forall_mem_cons, List.not_mem_nil, false_implies, implies_true, and_true]
        decide
      rw [List.append_assoc]
      exact stops_blank blank fun c isHead => notDigit c (spelled.head c isHead)

theorem ZoneSpelled.noPoint {offset : Int} (spelled : ZoneSpelled piece offset)
    (rest : List Char) : (piece ++ rest).head? ≠ some '.' := by
  cases spelled with
  | @intro blanks text _ blank spelled =>
      intro isPoint
      rcases blanks with _ | ⟨b, blanks⟩
      · exact absurd (spelled.head '.' isPoint) (by decide)
      · have isBlank := blank b List.mem_cons_self
        rw [show b = '.' from Option.some.inj isPoint] at isBlank
        exact absurd isBlank (by decide)

theorem FractionSpelled.stops {nanosecond : Nat} (spelled : FractionSpelled piece nanosecond)
    (stops : Stops rest) : Stops (piece ++ rest) := by
  cases spelled with
  | absent => exact stops
  | present => exact stops_cons rfl _

end Readers

end Time
end RepoInspector
