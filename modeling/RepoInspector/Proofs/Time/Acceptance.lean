import RepoInspector.Proofs.Time.Spellings

namespace RepoInspector
namespace Time

open Text

/-!
# Timestamps that are accepted

A text is read as a timestamp just when it spells one, and then as that one.
It denotes the instant whose minutes in universal time are those that its
clock shows less its offset.  The carrying of minutes into days, months and
years has no say in this, and neither have leap seconds, which stay as they
are.  What is refused is a date or a time of day that does not exist, an offset
of a day or more, and an instant beyond the calendar.
-/

/-!
## Pieces that were taken

Conversely, whatever a reader takes off a text is a piece that the grammar has.
-/

section Taken

variable {text rest : List Char}

/-- Digits that are read begin the text. -/
theorem readDigits_front {front run : List Char} {limit : Option Nat} (begins : front <+: text)
    (isRead : (if text.isEmpty then Except.error Fault.tooShort
      else if (front.takeWhile Char.isDigit).isEmpty then .error .invalid
      else if greatestNumber < Decimal.ofDigits (front.takeWhile Char.isDigit) then
        .error .outOfRange
      else .ok (front.takeWhile Char.isDigit,
        text.drop (front.takeWhile Char.isDigit).length)) = .ok (run, rest))
    (short : ∀ most ∈ limit, front.length ≤ most) :
    text = run ++ rest ∧ IsRun run ∧ ∀ most ∈ limit, run.length ≤ most := by
  have taken := List.takeWhile_prefix (l := front) Char.isDigit
  split at isRead
  case isTrue => cases isRead
  case isFalse =>
    split at isRead
    case isTrue => cases isRead
    case isFalse some_digit =>
      split at isRead
      case isTrue => cases isRead
      case isFalse =>
        cases isRead
        refine ⟨(List.prefix_iff_eq_append.mp (taken.trans begins)).symm, ⟨?_, ?_⟩, ?_⟩
        · exact fun empty => some_digit (List.isEmpty_iff.mpr empty)
        · exact fun c listed => List.mem_takeWhile_imp listed
        · exact fun most isLimit => Nat.le_trans taken.length_le (short most isLimit)

theorem readDigits_taken {limit : Option Nat} {run : List Char}
    (isRead : readDigits limit text = .ok (run, rest)) :
    text = run ++ rest ∧ IsRun run ∧ ∀ most ∈ limit, run.length ≤ most := by
  cases limit with
  | none => exact readDigits_front (List.prefix_refl text) isRead fun _ => nofun
  | some limit =>
      refine readDigits_front (List.take_prefix limit text) isRead ?_
      rintro most ⟨⟩
      exact List.length_take_le limit text

theorem readNumber_taken {limit : Option Nat} {n : Nat}
    (isRead : readNumber limit text = .ok (n, rest)) :
    Exists fun digits => text = digits ++ rest ∧ IsRun digits ∧ n = Decimal.ofDigits digits ∧
      ∀ most ∈ limit, digits.length ≤ most := by
  rcases bind_eq_ok_iff.mp isRead with ⟨⟨run, others⟩, isRun, same⟩
  cases same
  rcases readDigits_taken isRun with ⟨split, isRun, short⟩
  exact ⟨run, split, isRun, rfl, short⟩

theorem readPart_taken {low high n : Nat} (isRead : readPart low high text = .ok (n, rest)) :
    Exists fun piece => text = piece ++ rest ∧ PartSpelled piece n := by
  rcases skipBlanks_split text with ⟨blanks, blank, split⟩
  rcases bind_eq_ok_iff.mp isRead with ⟨⟨value, others⟩, isNumber, within⟩
  rcases readNumber_taken isNumber with ⟨digits, isText, isRun, rfl, short⟩
  simp only at within
  split at within
  case isTrue =>
    cases within
    exact ⟨blanks ++ digits, by rw [split, isText, List.append_assoc],
      .intro blank isRun (short 2 rfl)⟩
  case isFalse => cases within

theorem readMark_taken {mark : Char} (isRead : readMark mark text = .ok ((), rest)) :
    Exists fun piece => text = piece ++ rest ∧ MarkSpelled mark piece := by
  rcases skipBlanks_split text with ⟨blanks, blank, isSplit⟩
  unfold readMark at isRead
  split at isRead
  case h_1 => cases isRead
  case h_2 c others isText =>
    split at isRead
    case isTrue same =>
      cases isRead
      refine ⟨blanks ++ [mark], ?_, .intro blank⟩
      rw [isSplit, isText, same, List.append_assoc, List.singleton_append]
    case isFalse => cases isRead

theorem readJoin_taken (isRead : readJoin text = .ok ((), rest)) :
    Exists fun piece => text = piece ++ rest ∧ JoinSpelled piece := by
  unfold readJoin at isRead
  split at isRead
  case h_1 => cases isRead
  case h_2 c others =>
    split at isRead
    case isTrue known =>
      cases isRead
      simp only [Bool.or_eq_true, decide_eq_true_eq] at known
      refine ⟨[c], rfl, ?_⟩
      rcases known with (rfl | rfl) | rfl
      · exact .upper
      · exact .lower
      · exact .space
    case isFalse => cases isRead

theorem asSigned_taken {number : Except Fault (Nat × List Char)} (sign : Nat -> Int) {year : Int}
    (isRead : (do
      let (value, rest) ← number
      let (value, rest) ← Except.ok (sign value, rest)
      if -yearLimit ≤ value && value < yearLimit then .ok (value, rest)
        else .error .outOfRange) = Except.ok (ε := Fault) (year, rest)) :
    Exists fun n => number = .ok (n, rest) ∧ year = sign n := by
  rcases bind_eq_ok_iff.mp isRead with ⟨⟨n, others⟩, isNumber, counted⟩
  have counted : IsYear (sign n) ∧ (year, rest) = (sign n, others) := asYear_iff.mp counted
  cases counted.2
  exact ⟨n, isNumber, rfl⟩

theorem readYear_taken {year : Int} (isRead : readYear text = .ok (year, rest)) :
    Exists fun piece => text = piece ++ rest ∧ YearSpelled piece year := by
  rcases skipBlanks_split text with ⟨blanks, blank, isSplit⟩
  unfold readYear at isRead
  split at isRead
  case h_1 others isText =>
    rcases asSigned_taken (fun n => -(n : Int)) isRead with ⟨n, isNumber, rfl⟩
    rcases readNumber_taken isNumber with ⟨digits, isOthers, isRun, rfl, _⟩
    refine ⟨blanks ++ '-' :: digits, ?_, .minus blank isRun⟩
    rw [isSplit, isText, isOthers, List.append_assoc, List.cons_append]
  case h_2 others isText =>
    rcases asSigned_taken (fun n => (n : Int)) isRead with ⟨n, isNumber, rfl⟩
    rcases readNumber_taken isNumber with ⟨digits, isOthers, isRun, rfl, _⟩
    refine ⟨blanks ++ '+' :: digits, ?_, .plus blank isRun⟩
    rw [isSplit, isText, isOthers, List.append_assoc, List.cons_append]
  case h_3 =>
    rcases asSigned_taken (fun n => (n : Int)) isRead with ⟨n, isNumber, rfl⟩
    rcases readNumber_taken isNumber with ⟨digits, isText, isRun, rfl, short⟩
    refine ⟨blanks ++ digits, ?_, .plain blank isRun (short 4 rfl)⟩
    rw [isSplit, isText, List.append_assoc]

theorem readFraction_taken {nanosecond : Nat}
    (isRead : readFraction text = .ok (nanosecond, rest)) :
    Exists fun piece => text = piece ++ rest ∧ FractionSpelled piece nanosecond := by
  unfold readFraction at isRead
  split at isRead
  case h_1 others =>
    have whole : others.takeWhile Char.isDigit ++ others.dropWhile Char.isDigit = others :=
      List.takeWhile_append_dropWhile
    have isRun : IsRun (others.takeWhile Char.isDigit) := by
      rcases bind_eq_ok_iff.mp isRead with ⟨⟨run, later⟩, isRun, _⟩
      rcases readDigits_taken isRun with ⟨isText, ⟨some_digit, all⟩, _⟩
      refine ⟨?_, fun c listed => List.mem_takeWhile_imp listed⟩
      rw [isText, List.takeWhile_append_of_pos all]
      exact fun empty => some_digit (List.append_eq_nil_iff.mp empty).1
    have stops : Stops (others.dropWhile Char.isDigit) := by
      intro c isHead
      have ends := List.head?_dropWhile_not Char.isDigit others
      rw [Option.mem_def.mp isHead] at ends
      exact ends
    have taken := (takes_fraction (.present isRun) stops (fun empty => nomatch empty)
      (nanosecond, rest)).mp (by rw [List.cons_append, whole]; exact isRead)
    cases taken.2
    exact ⟨_, by rw [List.cons_append, whole], .present isRun⟩
  case h_2 =>
    cases isRead
    exact ⟨[], rfl, .absent⟩

theorem toUpper_eq {c upper : Char} (same : c.toUpper = upper) :
    c = upper ∨ c.toNat = upper.toNat + 32 := by
  unfold Char.toUpper at same
  split at same
  case isTrue lower =>
    have least := UInt32.le_iff_toNat_le.mp lower.1
    have most := UInt32.le_iff_toNat_le.mp lower.2
    subst same
    right
    simp only [Char.toNat, UInt32.toNat_add]
    simp at least most ⊢
    omega
  case isFalse => exact .inl same

theorem readDigitPair_taken {highest : Char} {n : Nat}
    (isRead : readDigitPair highest text = .ok (n, rest)) :
    Exists fun digits => text = digits ++ rest ∧ IsRun digits ∧ digits.length = 2 ∧
      n = Decimal.ofDigits digits ∧ ∀ c ∈ digits.head?, c ≤ highest := by
  unfold readDigitPair at isRead
  split at isRead
  case h_1 => cases isRead
  case h_2 => split at isRead <;> cases isRead
  case h_3 a b others =>
    split at isRead
    case isTrue digits =>
      split at isRead
      case isTrue within =>
        cases isRead
        rw [Bool.and_eq_true] at digits
        refine ⟨[a, b], rfl, ⟨nofun, ?_⟩, rfl, rfl, ?_⟩
        · exact List.forall_mem_cons.mpr ⟨digits.1, List.forall_mem_singleton.mpr digits.2⟩
        · rintro _ ⟨⟩
          exact within
      case isFalse => cases isRead
    case isFalse => cases isRead

/-- Two digits of which the first is at most five are less than sixty. -/
theorem fits_of_head {digits : List Char} (isRun : IsRun digits) (pair : digits.length = 2)
    (within : ∀ c ∈ digits.head?, c ≤ '5') : Decimal.ofDigits digits < 60 := by
  match digits with
  | [a, b] =>
      have first : a.toNat ≤ 53 := UInt32.le_iff_toNat_le.mp (within a rfl)
      have second : 48 ≤ b.toNat ∧ b.toNat ≤ 57 :=
        Char.isDigit_iff_toNat.mp (isRun.all b (List.mem_cons_of_mem _ List.mem_cons_self))
      change 10 * (10 * 0 + (a.toNat - 48)) + (b.toNat - 48) < 60
      omega

theorem readDigitPairs_taken (next : Nat -> Nat -> Int) {offset : Int}
    (isRead : (do
      let (hours, rest) ← readDigitPair '9' text
      let (minutes, rest) ← readDigitPair '5' (rest.dropWhile fun c => c = ':' || isBlank c)
      .ok (next hours minutes, rest)) = Except.ok (offset, rest)) :
    Exists fun hours => Exists fun separator => Exists fun minutes =>
      text = hours ++ (separator ++ (minutes ++ rest)) ∧ IsRun hours ∧ hours.length = 2 ∧
        (∀ c ∈ separator, c = ':' ∨ isBlank c = true) ∧ IsRun minutes ∧ minutes.length = 2 ∧
        Decimal.ofDigits minutes < 60 ∧
        offset = next (Decimal.ofDigits hours) (Decimal.ofDigits minutes) := by
  rcases bind_eq_ok_iff.mp isRead with ⟨⟨_, others⟩, isHours, isRead⟩
  rcases bind_eq_ok_iff.mp isRead with ⟨⟨_, later⟩, isMinutes, same⟩
  cases same
  rcases readDigitPair_taken isHours with ⟨hours, isText, hourRun, hourPair, rfl, _⟩
  rcases readDigitPair_taken isMinutes with
    ⟨minutes, isOthers, minuteRun, minutePair, rfl, within⟩
  refine ⟨hours, others.takeWhile fun c => c = ':' || isBlank c, minutes, ?_, hourRun, hourPair,
    fun c listed => ?_, minuteRun, minutePair, fits_of_head minuteRun minutePair within, rfl⟩
  · rw [isText, ← isOthers, List.takeWhile_append_dropWhile]
  · have apart := List.mem_takeWhile_imp listed
    rw [Bool.or_eq_true, decide_eq_true_eq] at apart
    exact apart

theorem readSignedOffset_taken {offset : Int}
    (isRead : readSignedOffset text = .ok (offset, rest)) :
    Exists fun piece => text = piece ++ rest ∧ OffsetSpelled piece offset := by
  have signed : Exists fun sign => Exists fun negative => Exists fun others =>
      SignSpelled sign negative ∧ text = sign :: others ∧ (do
        let (hours, rest) ← readDigitPair '9' others
        let (minutes, rest) ← readDigitPair '5' (rest.dropWhile fun c => c = ':' || isBlank c)
        let offset : Int := hours * 60 + minutes
        .ok (if negative then -offset else offset, rest)) = Except.ok (offset, rest) := by
    unfold readSignedOffset at isRead
    split at isRead
    case h_1 => cases isRead
    case h_2 c others =>
      split at isRead
      case isTrue isPlus => exact ⟨c, false, others, isPlus ▸ .plus, rfl, isRead⟩
      case isFalse =>
        split at isRead
        case isTrue isMinus =>
          rw [Bool.or_eq_true, decide_eq_true_eq, decide_eq_true_eq] at isMinus
          refine ⟨c, true, others, ?_, rfl, isRead⟩
          rcases isMinus with rfl | rfl
          · exact .minus
          · exact .longMinus
        case isFalse => cases isRead
  rcases signed with ⟨sign, negative, others, isSign, isText, isRead⟩
  rcases readDigitPairs_taken (fun hours minutes =>
    let offset : Int := hours * 60 + minutes
    if negative then -offset else offset) isRead with
    ⟨hours, separator, minutes, isOthers, hourRun, hourPair, apart, minuteRun, minutePair, fits,
      rfl⟩
  refine ⟨sign :: (hours ++ (separator ++ minutes)), ?_,
    .signed isSign hourRun hourPair apart minuteRun minutePair fits⟩
  rw [isText, isOthers, List.cons_append, List.append_assoc, List.append_assoc]

theorem readOffset_taken {offset : Int} (isRead : readOffset text = .ok (offset, rest)) :
    Exists fun piece => text = piece ++ rest ∧ OffsetSpelled piece offset := by
  unfold readOffset at isRead
  split at isRead
  case h_1 u t c others =>
    split at isRead
    case isTrue isName =>
      cases isRead
      simp only [Bool.and_eq_true, decide_eq_true_eq] at isName
      have letters : forall {c upper lower : Char}, c.toUpper = upper ->
          lower.toNat = upper.toNat + 32 -> c = upper ∨ c = lower := fun same isLower =>
        (toUpper_eq same).imp_right fun isCode => Char.toNat_inj.mp (isCode.trans isLower.symm)
      exact ⟨[u, t, c], rfl, .name ⟨letters isName.1.1 rfl, letters isName.1.2 rfl,
        letters isName.2 rfl⟩⟩
    case isFalse =>
      split at isRead
      case isTrue isLetter =>
        cases isRead
        exact ⟨[u], rfl, .letter (by simpa using isLetter)⟩
      case isFalse => exact readSignedOffset_taken isRead
  case h_2 c others _ =>
    split at isRead
    case isTrue isLetter =>
      cases isRead
      exact ⟨[c], rfl, .letter (by simpa using isLetter)⟩
    case isFalse => exact readSignedOffset_taken isRead
  case h_3 => cases isRead

theorem readZone_taken {offset : Int} (isRead : readOffset (skipBlanks text) = .ok (offset, rest)) :
    Exists fun piece => text = piece ++ rest ∧ ZoneSpelled piece offset := by
  rcases skipBlanks_split text with ⟨blanks, blank, isSplit⟩
  rcases readOffset_taken isRead with ⟨piece, isText, spelled⟩
  exact ⟨blanks ++ piece, by rw [isSplit, isText, List.append_assoc], .intro blank spelled⟩

end Taken

/-!
## Whole timestamps
-/

namespace Written

/-- All numbers fit their parts.  Nothing is said yet about the length of the
month and about the offset. -/
structure InRange (written : Written) : Prop where
  year : IsYear written.year
  month : 1 ≤ written.month ∧ written.month ≤ 12
  day : 1 ≤ written.day ∧ written.day ≤ 31
  hour : 0 ≤ written.hour ∧ written.hour ≤ 23
  minute : 0 ≤ written.minute ∧ written.minute ≤ 59
  second : 0 ≤ written.second ∧ written.second ≤ 60

/-- A text that spells a timestamp is read as just that one. -/
theorem ofText_spelled {written : Written} {text : List Char} (spelled : written.Spelled text)
    {result : Written} : ofText text = .ok result ↔ written.InRange ∧ result = written := by
  cases spelled with
  | @intro year dash month hyphen day join hour colon minute mark second fraction zone blanks isYear
      isDash isMonth isHyphen isDay isJoin isHour isColon isMinute isMark isSecond isFraction isZone
      blank =>
      have dashSolid : isBlank '-' = false := by decide
      have colonSolid : isBlank ':' = false := by decide
      have finish : (if (skipBlanks blanks).isEmpty then Except.ok written
          else .error Fault.tooLong) = .ok result ↔ result = written := by
        have ended : skipBlanks (blanks ++ []) = [] := skipBlanks_blank blank fun _ => nofun
        rw [List.append_nil] at ended
        rw [ended]
        exact (Except.ok.injEq written result).to_iff.trans eq_comm
      have step : forall {α β : Type} {read : List Char -> Except Fault (α × List Char)}
          {piece rest : List Char} {a : α} {accepted others : Prop}
          {next : α × List Char -> Except Fault β} {b : β}, Takes read piece rest a accepted ->
            (next (a, rest) = .ok b ↔ others) ->
              ((read (piece ++ rest) >>= next) = .ok b ↔ accepted ∧ others) :=
        fun takes later => takes.then_iff.trans (and_congr_right fun _ => later)
      have parts : ofText (year ++ (dash ++ (month ++ (hyphen ++ (day ++ (join ++ (hour ++ (colon ++
          (minute ++ (mark ++ (second ++ (fraction ++ (zone ++ blanks))))))))))))) = .ok result ↔ _ :=
        step (takes_year isYear (isDash.stops rfl _)) <|
        step (takes_mark dashSolid isDash) <|
        step (takes_part isMonth (isHyphen.stops rfl _)) <|
        step (takes_mark dashSolid isHyphen) <|
        step (takes_part isDay (isJoin.stops _)) <|
        step (takes_join isJoin) <|
        step (takes_part isHour (isColon.stops rfl _)) <|
        step (takes_mark colonSolid isColon) <|
        step (takes_part isMinute (isMark.stops rfl _)) <|
        step (takes_mark colonSolid isMark) <|
        step (takes_part isSecond (isFraction.stops (isZone.stops _))) <|
        step (takes_fraction isFraction (isZone.stops _) fun _ => isZone.noPoint _) <|
        step (takes_zone isZone) finish
      rw [parts]
      constructor
      · rintro ⟨year, _, month, _, day, _, hour, _, minute, _, second, _, _, same⟩
        exact ⟨⟨year, month, day, hour, minute, second⟩, same⟩
      · rintro ⟨⟨year, month, day, hour, minute, second⟩, same⟩
        exact ⟨year, trivial, month, trivial, day, trivial, hour, trivial, minute, trivial, second,
          trivial, trivial, same⟩

/-- A text that is read as a timestamp spells it. -/
theorem spelled_of_ofText {written : Written} {text : List Char}
    (isRead : ofText text = .ok written) : written.Spelled text := by
  rcases bind_eq_ok_iff.mp isRead with ⟨⟨year, rest⟩, isYear, isRead⟩
  rcases bind_eq_ok_iff.mp isRead with ⟨⟨_, rest⟩, isDash, isRead⟩
  rcases bind_eq_ok_iff.mp isRead with ⟨⟨month, rest⟩, isMonth, isRead⟩
  rcases bind_eq_ok_iff.mp isRead with ⟨⟨_, rest⟩, isHyphen, isRead⟩
  rcases bind_eq_ok_iff.mp isRead with ⟨⟨day, rest⟩, isDay, isRead⟩
  rcases bind_eq_ok_iff.mp isRead with ⟨⟨_, rest⟩, isJoin, isRead⟩
  rcases bind_eq_ok_iff.mp isRead with ⟨⟨hour, rest⟩, isHour, isRead⟩
  rcases bind_eq_ok_iff.mp isRead with ⟨⟨_, rest⟩, isColon, isRead⟩
  rcases bind_eq_ok_iff.mp isRead with ⟨⟨minute, rest⟩, isMinute, isRead⟩
  rcases bind_eq_ok_iff.mp isRead with ⟨⟨_, rest⟩, isMark, isRead⟩
  rcases bind_eq_ok_iff.mp isRead with ⟨⟨second, rest⟩, isSecond, isRead⟩
  rcases bind_eq_ok_iff.mp isRead with ⟨⟨nanosecond, rest⟩, isFraction, isRead⟩
  rcases bind_eq_ok_iff.mp isRead with ⟨⟨offset, rest⟩, isZone, finish⟩
  rcases readYear_taken isYear with ⟨_, rfl, yearSpelled⟩
  rcases readMark_taken isDash with ⟨_, rfl, dashSpelled⟩
  rcases readPart_taken isMonth with ⟨_, rfl, monthSpelled⟩
  rcases readMark_taken isHyphen with ⟨_, rfl, hyphenSpelled⟩
  rcases readPart_taken isDay with ⟨_, rfl, daySpelled⟩
  rcases readJoin_taken isJoin with ⟨_, rfl, joinSpelled⟩
  rcases readPart_taken isHour with ⟨_, rfl, hourSpelled⟩
  rcases readMark_taken isColon with ⟨_, rfl, colonSpelled⟩
  rcases readPart_taken isMinute with ⟨_, rfl, minuteSpelled⟩
  rcases readMark_taken isMark with ⟨_, rfl, markSpelled⟩
  rcases readPart_taken isSecond with ⟨_, rfl, secondSpelled⟩
  rcases readFraction_taken isFraction with ⟨_, rfl, fractionSpelled⟩
  rcases readZone_taken isZone with ⟨_, rfl, zoneSpelled⟩
  rcases skipBlanks_split rest with ⟨blanks, blank, isRest⟩
  simp only at finish
  split at finish
  case isTrue empty =>
    cases finish
    rw [List.isEmpty_iff.mp empty, List.append_nil] at isRest
    cases isRest
    exact .intro yearSpelled dashSpelled monthSpelled hyphenSpelled daySpelled joinSpelled
      hourSpelled colonSpelled minuteSpelled markSpelled secondSpelled fractionSpelled zoneSpelled
      blank
  case isFalse => cases finish

/-!
## What timestamps denote
-/

/-- The date exists, the time of day does, and the offset is less than a day. -/
structure Valid (written : Written) : Prop where
  year : leastYear ≤ written.year ∧ written.year ≤ greatestYear
  day : IsDay written.year written.month written.day
  hour : written.hour ≤ 23
  minute : written.minute ≤ 59
  second : written.second ≤ 60
  offset : written.offset.natAbs < 1440

/-- The minutes in universal time: those that clocks show, less the offset. -/
def minutes (written : Written) : Int :=
  minutesAt (dayNumber written.year written.month written.day) written.hour written.minute -
    written.offset

/-- A timestamp denotes an instant. -/
structure Denotes (written : Written) (instant : Instant) : Prop where
  valid : written.Valid
  minutes : instant.minutes = written.minutes
  second : instant.clock.second = written.second
  nanosecond : instant.clock.nanosecond = written.nanosecond

theorem Denotes.unique {written : Written} {first second : Instant} (left : written.Denotes first)
    (right : written.Denotes second) : first = second :=
  Instant.eq_of_minutes (left.minutes.trans right.minutes.symm)
    (Fin.ext (left.second.trans right.second.symm))
    (Fin.ext (left.nanosecond.trans right.nanosecond.symm))

/-- A fraction is less than a second. -/
theorem Spelled.nanosecond_lt {written : Written} {text : List Char}
    (spelled : written.Spelled text) : written.nanosecond < 1000000000 := by
  cases spelled with
  | @intro _ _ _ _ _ _ _ _ _ _ _ fraction _ _ _ _ _ _ _ _ _ _ _ _ _ isFraction _ _ =>
      generalize written.nanosecond = nanosecond at isFraction
      cases isFraction with
      | absent => decide
      | present isRun =>
          apply Nat.div_lt_of_lt_mul
          exact Nat.mul_lt_mul_of_pos_right (ofDigits_lt isRun.all) (by decide)

theorem Valid.inRange {written : Written} (valid : written.Valid) : written.InRange where
  year := isYear_of_supported valid.year.1 valid.year.2
  month := valid.day.month_bounds
  day := ⟨valid.day.1, Nat.le_trans valid.day.2
    (daysInMonth_bounds (Nat.lt_of_lt_of_le valid.day.1 valid.day.2)).2.2⟩
  hour := ⟨Nat.zero_le _, valid.hour⟩
  minute := ⟨Nat.zero_le _, valid.minute⟩
  second := ⟨Nat.zero_le _, valid.second⟩

/-- The parts are put together just when they are valid and the instant lies in
the calendar. -/
theorem instant_eq_ok_iff {written : Written} (fraction : written.nanosecond < 1000000000)
    {instant : Instant} : written.instant = .ok instant ↔ written.Denotes instant := by
  unfold Written.instant
  split
  case h_1 unknown =>
    refine ⟨nofun, fun denotes => ?_⟩
    have valid := denotes.valid
    rcases Date.exists_of? valid.year.1 valid.year.2 valid.day with ⟨date, isDate⟩
    rw [unknown] at isDate
    cases isDate
  case h_2 date isDate =>
    rcases Date.of?_eq_some_iff.mp isDate with ⟨year, month, day⟩
    have number : date.number = dayNumber written.year written.month written.day := by
      rw [← year, ← month, ← day]
      rfl
    split
    case isTrue fits =>
      have valid : written.Valid :=
        { year := year ▸ ⟨date.bounds.1, date.bounds.2.1⟩
          day := year ▸ month ▸ day ▸ date.isDay
          hour := Nat.le_of_lt_succ fits.1
          minute := Nat.le_of_lt_succ fits.2.1
          second := Nat.le_of_lt_succ fits.2.2.1
          offset := fits.2.2.2.2 }
      let clock : Clock := ⟨⟨written.hour, fits.1⟩, ⟨written.minute, fits.2.1⟩,
        ⟨written.second, fits.2.2.1⟩, ⟨written.nanosecond, fits.2.2.2.1⟩⟩
      have denotes_iff : Instant.ofLocal? date clock written.offset = some instant ↔
          written.Denotes instant := by
        rw [Instant.ofLocal?_eq_some_iff fits.2.2.2.2, number]
        constructor
        · rintro ⟨minutes, second, nanosecond⟩
          exact ⟨valid, minutes, congrArg Fin.val second, congrArg Fin.val nanosecond⟩
        · rintro ⟨_, minutes, second, nanosecond⟩
          exact ⟨minutes, Fin.ext second, Fin.ext nanosecond⟩
      rw [← denotes_iff]
      simp only
      split
      case h_1 found isLocal => rw [isLocal, Except.ok.injEq, Option.some.injEq]
      case h_2 isLocal =>
        rw [isLocal]
        exact ⟨nofun, nofun⟩
    case isFalse unfit =>
      refine ⟨nofun, fun denotes => absurd ?_ unfit⟩
      have valid := denotes.valid
      exact ⟨Nat.lt_succ_of_le valid.hour, Nat.lt_succ_of_le valid.minute,
        Nat.lt_succ_of_le valid.second, fraction, valid.offset⟩

/-- The minutes of the calendar in universal time. -/
def Representable (minutes : Int) : Prop :=
  Date.firstNumber * 1440 ≤ minutes ∧ minutes < (Date.lastNumber + 1) * 1440

/-- A valid timestamp denotes an instant unless its offset moves it out of the
calendar. -/
theorem exists_denotes_iff {written : Written} (fraction : written.nanosecond < 1000000000) :
    (Exists fun instant => written.Denotes instant) ↔
      written.Valid ∧ Representable written.minutes := by
  constructor
  · intro given
    rcases given with ⟨instant, valid, minutes, _, _⟩
    have bounds := instant.date.number_bounds
    have hour := instant.clock.hour.isLt
    have minute := instant.clock.minute.isLt
    refine ⟨valid, ?_⟩
    rw [← minutes, Representable, Instant.minutes, minutesAt]
    omega
  · intro given
    rcases given with ⟨valid, least, most⟩
    rcases Date.exists_number (n := written.minutes / 1440) (by omega) (by omega) with
      ⟨date, number⟩
    refine ⟨⟨date, ⟨(written.minutes % 1440 / 60).toNat, by omega⟩,
      ⟨(written.minutes % 60).toNat, by omega⟩, ⟨written.second, Nat.lt_succ_of_le valid.second⟩,
      ⟨written.nanosecond, fraction⟩⟩, valid, ?_, rfl, rfl⟩
    rw [Instant.minutes, minutesAt, number]
    simp only
    omega

end Written

/-- What a text that spells a timestamp is read as. -/
theorem Instant.ofText_spelled {written : Written} {text : String}
    (spelled : written.Spelled text.toList) {instant : Instant} :
    Instant.ofText text = .ok instant ↔ written.Denotes instant := by
  rw [Instant.ofText, bind_eq_ok_iff]
  constructor
  · intro given
    rcases given with ⟨found, isRead, isInstant⟩
    rcases (Written.ofText_spelled spelled).mp isRead with ⟨_, rfl⟩
    exact (Written.instant_eq_ok_iff spelled.nanosecond_lt).mp isInstant
  · intro denotes
    exact ⟨written, (Written.ofText_spelled spelled).mpr ⟨denotes.valid.inRange, rfl⟩,
      (Written.instant_eq_ok_iff spelled.nanosecond_lt).mpr denotes⟩

/-- Only texts that spell timestamps are read. -/
theorem Instant.exists_spelled {text : String} {instant : Instant}
    (isRead : Instant.ofText text = .ok instant) :
    Exists fun written : Written => written.Spelled text.toList ∧ written.Denotes instant := by
  rcases bind_eq_ok_iff.mp isRead with ⟨written, isWritten, _⟩
  have spelled := Written.spelled_of_ofText isWritten
  exact ⟨written, spelled, (Instant.ofText_spelled spelled).mp isRead⟩

end Time
end RepoInspector
