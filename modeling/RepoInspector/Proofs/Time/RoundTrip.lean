import RepoInspector.Proofs.Json.Form
import RepoInspector.Time.Reading
import RepoInspector.Time.Writing

namespace RepoInspector
namespace Time

open Text

/-!
# Timestamps that are written and read

The reader of timestamps is far more lenient than the writer, so all that is
shown here is that what is written is read in one way: each number ends where
the next mark begins, and the width of a year tells whether it has a sign.
-/

section Digits

/-- The text goes on with something else than a digit. -/
def Stops (text : List Char) : Prop := ∀ c ∈ text.head?, c.isDigit = false

theorem stops_cons {c : Char} (notDigit : c.isDigit = false) (text : List Char) :
    Stops (c :: text) := by
  intro other isHead
  cases isHead
  exact notDigit

theorem takeWhile_run {run rest : List Char} (digits : ∀ c ∈ run, c.isDigit = true)
    (stops : Stops rest) : (run ++ rest).takeWhile Char.isDigit = run := by
  rw [List.takeWhile_append_of_pos digits]
  cases rest with
  | nil => exact List.append_nil run
  | cons c rest =>
      rw [List.takeWhile_cons_of_neg (by rw [stops c rfl]; exact Bool.false_ne_true),
        List.append_nil]

theorem ofDigits_append (digits : List Char) (c : Char) :
    Decimal.ofDigits (digits ++ [c]) = 10 * Decimal.ofDigits digits + (c.toNat - 48) := by
  rw [Decimal.ofDigits, List.foldl_append]
  rfl

theorem ofDigits_toDigits (n : Nat) : Decimal.ofDigits (Nat.toDigits 10 n) = n := by
  induction n using Nat.strongRecOn with
  | ind n inductionHypothesis =>
      rw [Nat.toDigits_eq_if (by decide)]
      split
      case isTrue small =>
        rw [← List.nil_append [n.digitChar], ofDigits_append,
          Nat.toNat_digitChar_sub_48_of_lt_ten small]
        exact Nat.zero_add n
      case isFalse =>
        have digit : n % 10 < 10 := Nat.mod_lt n (by decide)
        rw [ofDigits_append, inductionHypothesis (n / 10) (by omega),
          Nat.toNat_digitChar_sub_48_of_lt_ten digit]
        exact Nat.div_add_mod n 10

theorem ofDigits_padded (width n : Nat) : Decimal.ofDigits (padded width n) = n := by
  have zeros : forall count (digits : List Char),
      Decimal.ofDigits (List.replicate count '0' ++ digits) = Decimal.ofDigits digits := by
    intro count digits
    induction count with
    | zero => rfl
    | succ count inductionHypothesis => exact inductionHypothesis
  rw [padded, zeros, ofDigits_toDigits]

theorem isDigit_padded (width n : Nat) : ∀ c ∈ padded width n, c.isDigit = true := by
  intro c listed
  rcases List.mem_append.mp listed with isZero | isDigit
  · rw [List.eq_of_mem_replicate isZero]
    rfl
  · exact Nat.isDigit_of_mem_toDigits (by decide) (by decide) isDigit

theorem padded_ne_nil (width n : Nat) : padded width n ≠ [] := by
  intro empty
  exact Nat.toDigits_ne_nil (List.append_eq_nil_iff.mp empty).2

theorem length_padded {width n : Nat} (some_digit : 0 < width) (small : n < Nat.pow 10 width) :
    (padded width n).length = width := by
  have short := (Nat.length_toDigits_le_iff (by decide) some_digit).mpr small
  rw [padded, List.length_append, List.length_replicate]
  omega

/-- Digits are no blanks. -/
theorem isBlank_digit {c : Char} (isDigit : c.isDigit = true) : isBlank c = false := by
  have range : 48 ≤ c.toNat ∧ c.toNat ≤ 57 := Char.isDigit_iff_toNat.mp isDigit
  simp [isBlank, blankRanges]
  omega

theorem skipBlanks_cons {c : Char} (notBlank : isBlank c = false) (text : List Char) :
    skipBlanks (c :: text) = c :: text := by
  rw [skipBlanks, List.dropWhile_cons_of_neg (by rw [notBlank]; exact Bool.false_ne_true)]

theorem skipBlanks_padded (width n : Nat) (rest : List Char) :
    skipBlanks (padded width n ++ rest) = padded width n ++ rest := by
  rcases run : padded width n with _ | ⟨c, others⟩
  · exact absurd run (padded_ne_nil width n)
  · have isDigit := isDigit_padded width n c (run ▸ List.mem_cons_self)
    exact skipBlanks_cons (isBlank_digit isDigit) (others ++ rest)

end Digits

/-!
## Numbers
-/

section Numbers

/-- A run of digits ends where something else follows, or where a limit is. -/
def RunStops (limit : Option Nat) (run rest : List Char) : Prop :=
  match limit with
  | none => Stops rest
  | some limit => run.length ≤ limit ∧ Stops (rest.take (limit - run.length))

theorem readDigits_run {limit : Option Nat} {run rest : List Char}
    (digits : ∀ c ∈ run, c.isDigit = true) (some_digit : run ≠ [])
    (fits : Decimal.ofDigits run ≤ greatestNumber) (stops : RunStops limit run rest) :
    readDigits limit (run ++ rest) = .ok (run, rest) := by
  have notEmpty : (run ++ rest).isEmpty = false := by
    cases run with
    | nil => exact absurd rfl some_digit
    | cons => rfl
  have runNotEmpty : run.isEmpty = false := by
    cases run with
    | nil => exact absurd rfl some_digit
    | cons => rfl
  cases limit with
  | none =>
      have taken : (run ++ rest).takeWhile Char.isDigit = run := takeWhile_run digits stops
      simp only [readDigits, taken, notEmpty, runNotEmpty, Bool.false_eq_true, if_false,
        Nat.not_lt.mpr fits, List.drop_left]
  | some limit =>
      have taken : ((run ++ rest).take limit).takeWhile Char.isDigit = run := by
        rw [List.take_append, List.take_of_length_le stops.1]
        exact takeWhile_run digits stops.2
      simp only [readDigits, taken, notEmpty, runNotEmpty, Bool.false_eq_true, if_false,
        Nat.not_lt.mpr fits, List.drop_left]

theorem readDigits_padded {limit : Option Nat} {width n : Nat} {rest : List Char}
    (fits : n ≤ greatestNumber) (stops : RunStops limit (padded width n) rest) :
    readDigits limit (padded width n ++ rest) = .ok (padded width n, rest) :=
  readDigits_run (isDigit_padded width n) (padded_ne_nil width n)
    (by rw [ofDigits_padded]; exact fits) stops

theorem readNumber_padded {limit : Option Nat} {width n : Nat} {rest : List Char}
    (fits : n ≤ greatestNumber) (stops : RunStops limit (padded width n) rest) :
    readNumber limit (padded width n ++ rest) = .ok (n, rest) := by
  rw [readNumber, readDigits_padded fits stops, ok_bind]
  simp only [ofDigits_padded]

/-- A number of the full width of its part needs nothing behind it. -/
theorem readNumber_full {width n : Nat} (some_digit : 0 < width) (small : n < Nat.pow 10 width)
    (fits : n ≤ greatestNumber) (rest : List Char) :
    readNumber (some width) (padded width n ++ rest) = .ok (n, rest) := by
  have length := length_padded some_digit small
  refine readNumber_padded fits ⟨Nat.le_of_eq length, ?_⟩
  rw [length, Nat.sub_self]
  exact fun _ => nofun

theorem readPart_padded {low high n : Nat} (least : low ≤ n) (most : n ≤ high) (small : n < 100)
    (rest : List Char) : readPart low high (padded 2 n ++ rest) = .ok (n, rest) := by
  have fits : n ≤ greatestNumber := Nat.le_trans (Nat.le_of_lt small) (by decide)
  rw [readPart, skipBlanks_padded, readNumber_full (by decide) small fits, ok_bind]
  simp only [least, most, decide_true, Bool.and_true, if_true]

theorem readMark_mark {mark : Char} (notBlank : isBlank mark = false) (rest : List Char) :
    readMark mark (mark :: rest) = .ok ((), rest) := by
  rw [readMark, skipBlanks_cons notBlank]
  simp only [if_true]

theorem natAbs_le_greatestNumber {year : Int} (least : leastYear ≤ year)
    (most : year ≤ greatestYear) : year.natAbs ≤ greatestNumber := by
  have bound : 262143 ≤ greatestNumber := by decide
  have within : year.natAbs ≤ 262143 := by
    simp only [leastYear, greatestYear] at least most
    omega
  exact Nat.le_trans within bound

/-- Years are counted so far. -/
def IsYear (value : Int) : Prop :=
  (decide (-yearLimit ≤ value) && decide (value < yearLimit)) = true

theorem isYear_of_supported {year : Int} (least : leastYear ≤ year) (most : year ≤ greatestYear) :
    IsYear year := by
  simp only [leastYear, greatestYear] at least most
  rw [IsYear, Bool.and_eq_true, decide_eq_true_eq, decide_eq_true_eq, yearLimit]
  omega

theorem readYear_minus {n : Nat} {text rest : List Char}
    (read : readNumber none text = .ok (n, rest)) (counted : IsYear (-(n : Int))) :
    readYear ('-' :: text) = .ok (-(n : Int), rest) := by
  rw [readYear, skipBlanks_cons (show isBlank '-' = false by decide)]
  refine bind_eq_ok_iff.mpr ⟨(n, rest), read, bind_eq_ok_iff.mpr ⟨(-(n : Int), rest), rfl, ?_⟩⟩
  exact if_pos counted

theorem readYear_plus {n : Nat} {text rest : List Char}
    (read : readNumber none text = .ok (n, rest)) (counted : IsYear n) :
    readYear ('+' :: text) = .ok ((n : Int), rest) := by
  rw [readYear, skipBlanks_cons (show isBlank '+' = false by decide)]
  refine bind_eq_ok_iff.mpr ⟨(n, rest), read, bind_eq_ok_iff.mpr ⟨((n : Int), rest), rfl, ?_⟩⟩
  exact if_pos counted

theorem readYear_digits {n : Nat} {c : Char} {text rest : List Char} (isDigit : c.isDigit = true)
    (read : readNumber (some 4) (c :: text) = .ok (n, rest)) (counted : IsYear n) :
    readYear (c :: text) = .ok ((n : Int), rest) := by
  have notMinus : c ≠ '-' := fun same => by rw [same] at isDigit; cases isDigit
  have notPlus : c ≠ '+' := fun same => by rw [same] at isDigit; cases isDigit
  rw [readYear, skipBlanks_cons (isBlank_digit isDigit)]
  split
  case h_1 same => exact absurd (List.cons.inj same).1 notMinus
  case h_2 same => exact absurd (List.cons.inj same).1 notPlus
  case h_3 =>
    refine bind_eq_ok_iff.mpr ⟨(n, rest), read, bind_eq_ok_iff.mpr ⟨((n : Int), rest), rfl, ?_⟩⟩
    exact if_pos counted

theorem readYear_text {year : Int} (least : leastYear ≤ year) (most : year ≤ greatestYear)
    (rest : List Char) : readYear (yearText year ++ '-' :: rest) = .ok (year, '-' :: rest) := by
  have fits := natAbs_le_greatestNumber least most
  have counted := isYear_of_supported least most
  have signed : readNumber none (padded 4 year.natAbs ++ '-' :: rest) = _ :=
    readNumber_padded fits (stops_cons rfl rest)
  unfold yearText
  split
  case isTrue negative =>
    have magnitude : -(year.natAbs : Int) = year := by omega
    have read := readYear_minus signed (magnitude.symm ▸ counted)
    rw [magnitude] at read
    exact read
  case isFalse natural =>
    have magnitude : (year.natAbs : Int) = year := by omega
    split
    case isTrue short =>
      have small : year.natAbs < 10 ^ 4 := by omega
      have unsigned := readNumber_full (by decide) small fits ('-' :: rest)
      rcases run : padded 4 year.natAbs with _ | ⟨c, others⟩
      · exact absurd run (padded_ne_nil 4 year.natAbs)
      · rw [run] at unsigned
        have isDigit := isDigit_padded 4 year.natAbs c (run ▸ List.mem_cons_self)
        have read := readYear_digits isDigit unsigned (magnitude.symm ▸ counted)
        rw [magnitude] at read
        exact read
    case isFalse long =>
      have read := readYear_plus signed (magnitude.symm ▸ counted)
      rw [magnitude] at read
      exact read

/-- A fraction of some width is read in units of that width. -/
theorem readFraction_padded {width n : Nat} (some_digit : 0 < width) (short : width ≤ 9)
    (small : n < Nat.pow 10 width) (rest : List Char) :
    readFraction ('.' :: (padded width n ++ 'Z' :: rest)) =
      .ok (n * Nat.pow 10 (9 - width), 'Z' :: rest) := by
  have length := length_padded some_digit small
  have fits : n ≤ greatestNumber := by
    have most : Nat.pow 10 width ≤ Nat.pow 10 9 := Nat.pow_le_pow_right (by decide) short
    exact Nat.le_trans (Nat.le_of_lt (Nat.lt_of_lt_of_le small most)) (by decide)
  have stops : RunStops (some 9) (padded width n) ('Z' :: rest) := by
    refine ⟨Nat.le_trans (Nat.le_of_eq length) short, ?_⟩
    cases 9 - (padded width n).length with
    | zero => exact fun _ => nofun
    | succ count => exact stops_cons rfl _
  rw [readFraction, readDigits_padded fits stops, ok_bind]
  simp only [ofDigits_padded, length]
  rfl

theorem readFraction_text {nanosecond : Nat} (small : nanosecond < 1000000000)
    (rest : List Char) :
    readFraction (fractionText nanosecond ++ 'Z' :: rest) = .ok (nanosecond, 'Z' :: rest) := by
  unfold fractionText
  split
  case isTrue zero => rw [zero]; rfl
  case isFalse =>
    split
    case isTrue millis =>
      have whole : nanosecond / 1000000 * Nat.pow 10 (9 - 3) = nanosecond := by
        change nanosecond / 1000000 * 1000000 = nanosecond
        omega
      have read := readFraction_padded (by decide) (by decide)
        (by omega : nanosecond / 1000000 < 10 ^ 3) rest
      rw [whole] at read
      exact read
    case isFalse =>
      split
      case isTrue micros =>
        have whole : nanosecond / 1000 * Nat.pow 10 (9 - 6) = nanosecond := by
          change nanosecond / 1000 * 1000 = nanosecond
          omega
        have read := readFraction_padded (by decide) (by decide)
          (by omega : nanosecond / 1000 < 10 ^ 6) rest
        rw [whole] at read
        exact read
      case isFalse =>
        have read := readFraction_padded (by decide) (by decide)
          (by omega : nanosecond < 10 ^ 9) rest
        rw [show nanosecond * Nat.pow 10 (9 - 9) = nanosecond from Nat.mul_one nanosecond] at read
        exact read

end Numbers

/-!
## Whole timestamps
-/

theorem daysInMonth_bounds {year : Int} {month : Nat} (some_day : 0 < daysInMonth year month) :
    1 ≤ month ∧ month ≤ 12 ∧ daysInMonth year month ≤ 31 := by
  unfold daysInMonth at *
  split at some_day
  case h_13 => exact absurd some_day (Nat.lt_irrefl 0)
  case h_12 =>
    refine ⟨by decide, by decide, ?_⟩
    split <;> decide
  all_goals exact ⟨by decide, by decide, by decide⟩

/-- What a date is, as numbers. -/
theorem Date.bounds (date : Date) :
    leastYear ≤ date.year ∧ date.year ≤ greatestYear ∧ 1 ≤ date.month ∧ date.month ≤ 12 ∧
      1 ≤ date.day ∧ date.day ≤ 31 := by
  have known := date.exists_day
  simp only [isDate, Bool.and_eq_true, decide_eq_true_eq] at known
  rcases known with ⟨⟨⟨least, most⟩, first⟩, last⟩
  have month := daysInMonth_bounds (Nat.lt_of_lt_of_le first last)
  exact ⟨least, most, month.1, month.2.1, first, Nat.le_trans last month.2.2⟩

/-- The parts of a timestamp in universal time. -/
def Instant.written (instant : Instant) : Written :=
  { year := instant.date.year
    month := instant.date.month
    day := instant.date.day
    hour := instant.clock.hour
    minute := instant.clock.minute
    second := instant.clock.second
    nanosecond := instant.clock.nanosecond
    offset := 0 }

theorem Instant.toList_text (instant : Instant) :
    instant.text.toList =
      yearText instant.date.year ++ '-' :: (padded 2 instant.date.month ++
        '-' :: (padded 2 instant.date.day ++ 'T' :: (padded 2 instant.clock.hour ++
          ':' :: (padded 2 instant.clock.minute ++ ':' :: (padded 2 instant.clock.second ++
            (fractionText instant.clock.nanosecond ++ ['Z'])))))) := by
  rw [Instant.text, String.toList_ofList]
  simp only [Date.text, Clock.text, List.append_assoc, List.cons_append]

/-- What is written is read part by part. -/
theorem Written.ofText_text (instant : Instant) :
    Written.ofText instant.text.toList = .ok instant.written := by
  rcases instant.date.bounds with ⟨least, most, january, december, first, last⟩
  have hour := instant.clock.hour.isLt
  have minute := instant.clock.minute.isLt
  have second := instant.clock.second.isLt
  have dash : isBlank '-' = false := by decide
  have colon : isBlank ':' = false := by decide
  rw [Instant.toList_text, Written.ofText]
  refine bind_eq_ok_iff.mpr ⟨_, readYear_text least most _, ?_⟩
  refine bind_eq_ok_iff.mpr ⟨_, readMark_mark dash _, ?_⟩
  refine bind_eq_ok_iff.mpr ⟨_, readPart_padded january december (by omega) _, ?_⟩
  refine bind_eq_ok_iff.mpr ⟨_, readMark_mark dash _, ?_⟩
  refine bind_eq_ok_iff.mpr ⟨_, readPart_padded first last (by omega) _, ?_⟩
  refine bind_eq_ok_iff.mpr ⟨_, rfl, ?_⟩
  refine bind_eq_ok_iff.mpr ⟨_, readPart_padded (Nat.zero_le _) (by omega) (by omega) _, ?_⟩
  refine bind_eq_ok_iff.mpr ⟨_, readMark_mark colon _, ?_⟩
  refine bind_eq_ok_iff.mpr ⟨_, readPart_padded (Nat.zero_le _) (by omega) (by omega) _, ?_⟩
  refine bind_eq_ok_iff.mpr ⟨_, readMark_mark colon _, ?_⟩
  refine bind_eq_ok_iff.mpr ⟨_, readPart_padded (Nat.zero_le _) (by omega) (by omega) _, ?_⟩
  refine bind_eq_ok_iff.mpr ⟨_, readFraction_text instant.clock.nanosecond.isLt [], ?_⟩
  refine bind_eq_ok_iff.mpr ⟨(0, []), rfl, ?_⟩
  rfl

/-- Clocks that show universal time show the instant. -/
theorem Instant.ofLocal?_zero (date : Date) (clock : Clock) :
    Instant.ofLocal? date clock 0 = some ⟨date, clock⟩ := by
  rcases clock with ⟨⟨hour, hourFits⟩, ⟨minute, minuteFits⟩, second, nanosecond⟩
  have notBefore : ¬ (hour : Int) * 60 + minute - 0 < 0 := by omega
  have notAfter : ¬ 1440 ≤ (hour : Int) * 60 + minute - 0 := by omega
  have ofDay : (((hour : Int) * 60 + minute - 0) % 1440).toNat = hour * 60 + minute := by omega
  have sameHour : (hour * 60 + minute) / 60 % 24 = hour := by omega
  have sameMinute : (hour * 60 + minute) % 60 = minute := by omega
  simp only [ofLocal?, if_neg notBefore, if_neg notAfter, ofDay, sameHour, sameMinute,
    Option.map_some]

theorem Written.instant_of {written : Written} {date : Date}
    (isDate : Date.of? written.year written.month written.day = some date)
    (fits : written.hour < 24 ∧ written.minute < 60 ∧ written.second < 61 ∧
      written.nanosecond < 1000000000 ∧ written.offset.natAbs < 1440)
    (universal : written.offset = 0) :
    written.instant = .ok ⟨date, ⟨⟨written.hour, fits.1⟩, ⟨written.minute, fits.2.1⟩,
      ⟨written.second, fits.2.2.1⟩, ⟨written.nanosecond, fits.2.2.2.1⟩⟩⟩ := by
  rw [instant]
  simp only [isDate]
  rw [dif_pos fits]
  simp only [universal, Instant.ofLocal?_zero]

theorem Written.instant_written (instant : Instant) : instant.written.instant = .ok instant := by
  have isDate : Date.of? instant.date.year instant.date.month instant.date.day =
      some instant.date := by
    rw [Date.of?, dif_pos instant.date.exists_day]
  have noOffset : (0 : Int).natAbs < 1440 := by decide
  exact Written.instant_of isDate ⟨instant.clock.hour.isLt, instant.clock.minute.isLt,
    instant.clock.second.isLt, instant.clock.nanosecond.isLt, noOffset⟩ rfl

/-- A timestamp that is written is read as the same instant. -/
theorem Instant.ofText_text (instant : Instant) : Instant.ofText instant.text = .ok instant := by
  rw [Instant.ofText, Written.ofText_text, ok_bind, Written.instant_written]

end Time
end RepoInspector
