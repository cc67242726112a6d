import RepoInspector.Proofs.Time.RoundTrip

namespace RepoInspector
namespace Time

/-!
# The calendar as a line of days

The days of the calendar are counted from the last day before the year 1, by
the rules for leap years alone.  A count says which day is next without any
carrying of days into months and years.  It is shown here that the carrying
agrees with it: the neighbours of a date are the dates whose count is one more
and one less, so moving a time of day by an offset moves the instant by just
that many minutes.
-/

/-!
## Counting days
-/

/-- The days before a year: 365 for each year since the year 1, and one for
each leap year among them. -/
def daysBeforeYear (year : Int) : Int :=
  365 * (year - 1) + (year - 1) / 4 - (year - 1) / 100 + (year - 1) / 400

/-- The days of a year before a month. -/
def daysBeforeMonth (year : Int) : Nat -> Nat
  | 0 => 0
  | month + 1 => daysBeforeMonth year month + daysInMonth year month

/-- The count of a day. -/
def dayNumber (year : Int) (month day : Nat) : Int :=
  daysBeforeYear year + daysBeforeMonth year month + day

def Date.number (date : Date) : Int := dayNumber date.year date.month date.day

def daysInYear (year : Int) : Nat := if isLeapYear year then 366 else 365

/-- A leap year is every fourth, but of the full centuries only every fourth. -/
theorem isLeapYear_iff (year : Int) :
    isLeapYear year = true ↔ year % 4 = 0 ∧ (year % 100 ≠ 0 ∨ year % 400 = 0) := by
  simp only [isLeapYear, Bool.and_eq_true, Bool.or_eq_true, beq_iff_eq, bne_iff_ne]

theorem daysBeforeYear_succ (year : Int) :
    daysBeforeYear (year + 1) = daysBeforeYear year + daysInYear year := by
  unfold daysBeforeYear daysInYear
  split
  case isTrue leap =>
    rw [isLeapYear_iff] at leap
    omega
  case isFalse common =>
    rw [isLeapYear_iff] at common
    omega

theorem daysBeforeMonth_thirteen (year : Int) : daysBeforeMonth year 13 = daysInYear year := by
  unfold daysInYear
  split
  case isTrue leap => simp only [daysBeforeMonth, daysInMonth, leap, if_true]
  case isFalse common => simp only [daysBeforeMonth, daysInMonth, common]; rfl

/-- Years follow one another without overlap. -/
theorem daysBeforeYear_mono {year other : Int} (least : year ≤ other) :
    daysBeforeYear year ≤ daysBeforeYear other := by
  unfold daysBeforeYear
  omega

theorem daysBeforeMonth_mono (year : Int) {month other : Nat} (least : month ≤ other) :
    daysBeforeMonth year month ≤ daysBeforeMonth year other := by
  induction least with
  | refl => exact Nat.le_refl _
  | step _ inductionHypothesis => exact Nat.le_trans inductionHypothesis (Nat.le_add_right _ _)

/-- A month has a day, in a year that need not be supported. -/
def IsDay (year : Int) (month day : Nat) : Prop := 1 ≤ day ∧ day ≤ daysInMonth year month

section Days

variable {year other : Int} {month otherMonth day otherDay : Nat}

theorem IsDay.month_bounds (isDay : IsDay year month day) : 1 ≤ month ∧ month ≤ 12 :=
  have bounds := daysInMonth_bounds (Nat.lt_of_lt_of_le isDay.1 isDay.2)
  ⟨bounds.1, bounds.2.1⟩

theorem dayNumber_in_month (isDay : IsDay year month day) :
    daysBeforeYear year + daysBeforeMonth year month < dayNumber year month day ∧
      dayNumber year month day ≤ daysBeforeYear year + daysBeforeMonth year (month + 1) := by
  rcases isDay with ⟨first, last⟩
  rw [dayNumber, daysBeforeMonth]
  omega

theorem dayNumber_in_year (isDay : IsDay year month day) :
    daysBeforeYear year < dayNumber year month day ∧
      dayNumber year month day ≤ daysBeforeYear (year + 1) := by
  have inMonth := dayNumber_in_month isDay
  have later := daysBeforeMonth_mono year (Nat.add_le_add_right isDay.month_bounds.2 1)
  rw [daysBeforeMonth_thirteen] at later
  rw [daysBeforeYear_succ]
  omega

theorem dayNumber_lt_of_year (isDay : IsDay year month day)
    (isOther : IsDay other otherMonth otherDay) (earlier : year < other) :
    dayNumber year month day < dayNumber other otherMonth otherDay := by
  have first := (dayNumber_in_year isDay).2
  have second := (dayNumber_in_year isOther).1
  have between := daysBeforeYear_mono (Int.add_one_le_of_lt earlier)
  omega

theorem dayNumber_lt_of_month (isDay : IsDay year month day)
    (isOther : IsDay year otherMonth otherDay) (earlier : month < otherMonth) :
    dayNumber year month day < dayNumber year otherMonth otherDay := by
  have first := (dayNumber_in_month isDay).2
  have second := (dayNumber_in_month isOther).1
  have between := daysBeforeMonth_mono year (show month + 1 ≤ otherMonth from earlier)
  omega

/-- No two days have one count. -/
theorem dayNumber_injective (isDay : IsDay year month day)
    (isOther : IsDay other otherMonth otherDay)
    (same : dayNumber year month day = dayNumber other otherMonth otherDay) :
    year = other ∧ month = otherMonth ∧ day = otherDay := by
  rcases Int.lt_trichotomy year other with earlier | rfl | later
  · exact absurd same (Int.ne_of_lt (dayNumber_lt_of_year isDay isOther earlier))
  · rcases Nat.lt_trichotomy month otherMonth with earlier | rfl | later
    · exact absurd same (Int.ne_of_lt (dayNumber_lt_of_month isDay isOther earlier))
    · refine ⟨rfl, rfl, ?_⟩
      rw [dayNumber, dayNumber] at same
      omega
    · exact absurd same.symm (Int.ne_of_lt (dayNumber_lt_of_month isOther isDay later))
  · exact absurd same.symm (Int.ne_of_lt (dayNumber_lt_of_year isOther isDay later))

/-- The last day of a month is followed by the first of the next one. -/
theorem dayNumber_next_month (isDay : IsDay year month day)
    (last : daysInMonth year month ≤ day) :
    dayNumber year (month + 1) 1 = dayNumber year month day + 1 := by
  rw [dayNumber, dayNumber, daysBeforeMonth, Nat.le_antisymm isDay.2 last]
  omega

/-- So is the last day of a year. -/
theorem dayNumber_next_year (isDay : IsDay year 12 day) (last : daysInMonth year 12 ≤ day) :
    dayNumber (year + 1) 1 1 = dayNumber year 12 day + 1 := by
  have whole : daysBeforeMonth year 12 + daysInMonth year 12 = daysInYear year :=
    daysBeforeMonth_thirteen year
  have january : daysBeforeMonth (year + 1) 1 = 0 := rfl
  rw [dayNumber, dayNumber, daysBeforeYear_succ, january, Nat.le_antisymm isDay.2 last]
  omega

end Days

/-- A month has a day, and has 28 of them. -/
theorem daysInMonth_pos (year : Int) {month : Nat} (january : 1 ≤ month) (december : month ≤ 12) :
    1 ≤ daysInMonth year month := by
  unfold daysInMonth
  split
  case h_12 => split <;> decide
  case h_13 =>
    simp only [imp_false] at *
    omega
  all_goals decide

namespace Date

theorem isDay (date : Date) : IsDay date.year date.month date.day := by
  have known := date.exists_day
  simp only [isDate, Bool.and_eq_true, decide_eq_true_eq] at known
  exact ⟨known.1.2, known.2⟩

theorem of?_eq_some_iff {year : Int} {month day : Nat} {date : Date} :
    of? year month day = some date ↔
      date.year = year ∧ date.month = month ∧ date.day = day := by
  unfold of?
  split
  case isTrue known =>
    constructor
    · intro same
      cases same
      exact ⟨rfl, rfl, rfl⟩
    · rintro ⟨rfl, rfl, rfl⟩
      rfl
  case isFalse unknown =>
    refine ⟨nofun, ?_⟩
    rintro ⟨rfl, rfl, rfl⟩
    exact absurd date.exists_day unknown

/-- A date is found by its count. -/
theorem of?_eq_some_iff_number {year : Int} {month day : Nat} (isDay : IsDay year month day)
    {date : Date} : of? year month day = some date ↔ date.number = dayNumber year month day := by
  rw [of?_eq_some_iff]
  constructor
  · rintro ⟨rfl, rfl, rfl⟩
    rfl
  · exact dayNumber_injective date.isDay isDay

theorem number_injective {date other : Date} (same : date.number = other.number) :
    date = other := by
  have found := (of?_eq_some_iff_number other.isDay).mpr same
  rw [of?, dif_pos other.exists_day] at found
  exact (Option.some.inj found).symm

/-!
## Neighbours
-/

/-- The next date is the one with the next count. -/
theorem next?_eq_some_iff {date next : Date} :
    date.next? = some next ↔ next.number = date.number + 1 := by
  have isDay := date.isDay
  have month := isDay.month_bounds
  unfold next?
  split
  case isTrue early =>
    have count : dayNumber date.year date.month (date.day + 1) = date.number + 1 := by
      rw [number, dayNumber, dayNumber]
      omega
    rw [of?_eq_some_iff_number ⟨Nat.le_add_left _ _, early⟩, count]
  case isFalse late =>
    have last := Nat.not_lt.mp late
    split
    case isTrue inYear =>
      have some_day := daysInMonth_pos date.year (Nat.le_add_left 1 _) inYear
      rw [of?_eq_some_iff_number ⟨Nat.le_refl 1, some_day⟩, dayNumber_next_month isDay last]
      rfl
    case isFalse atEnd =>
      have december : date.month = 12 := by omega
      have some_day : 1 ≤ daysInMonth (date.year + 1) 1 := daysInMonth_pos _ (by decide) (by decide)
      rw [december] at isDay last
      have own : date.number = dayNumber date.year 12 date.day := by rw [number, december]
      rw [of?_eq_some_iff_number ⟨Nat.le_refl 1, some_day⟩, dayNumber_next_year isDay last, own]

/-- The date before is the one with the count before. -/
theorem previous?_eq_some_iff {date previous : Date} :
    date.previous? = some previous ↔ previous.number = date.number - 1 := by
  have isDay := date.isDay
  have month := isDay.month_bounds
  unfold previous?
  split
  case isTrue late =>
    have count : dayNumber date.year date.month (date.day - 1) = date.number - 1 := by
      rw [number, dayNumber, dayNumber]
      omega
    have within : IsDay date.year date.month (date.day - 1) :=
      ⟨Nat.le_sub_one_of_lt late, Nat.le_trans (Nat.sub_le _ _) isDay.2⟩
    rw [of?_eq_some_iff_number within, count]
  case isFalse early =>
    have first : date.day = 1 := by
      have := isDay.1
      omega
    split
    case isTrue inYear =>
      have some_day := daysInMonth_pos date.year (Nat.le_sub_one_of_lt inYear)
        (Nat.le_trans (Nat.sub_le _ 1) month.2)
      have before : IsDay date.year (date.month - 1) _ := ⟨some_day, Nat.le_refl _⟩
      have count := dayNumber_next_month before (Nat.le_refl _)
      rw [Nat.sub_add_cancel month.1] at count
      have own : date.number = dayNumber date.year date.month 1 := by rw [number, first]
      rw [of?_eq_some_iff_number before, own, count]
      omega
    case isFalse atStart =>
      have january : date.month = 1 := by omega
      have before : IsDay (date.year - 1) 12 31 := ⟨by decide, Nat.le_refl 31⟩
      have count := dayNumber_next_year before (Nat.le_refl _)
      rw [Int.sub_add_cancel] at count
      have own : date.number = dayNumber date.year 1 1 := by rw [number, first, january]
      rw [of?_eq_some_iff_number before, own, count]
      omega

/-!
## The ends of the calendar
-/

/-- The count of the first supported day. -/
def firstNumber : Int := dayNumber leastYear 1 1

/-- The count of the last supported day. -/
def lastNumber : Int := dayNumber greatestYear 12 31

theorem number_bounds (date : Date) : firstNumber ≤ date.number ∧ date.number ≤ lastNumber := by
  rcases date.bounds with ⟨least, most, _⟩
  have inYear := dayNumber_in_year date.isDay
  have first := daysBeforeYear_mono least
  have last := daysBeforeYear_mono (Int.add_le_add_right most 1)
  have start : firstNumber = daysBeforeYear leastYear + 1 := by decide
  have stop : lastNumber = daysBeforeYear (greatestYear + 1) := by decide
  rw [number]
  omega

/-- A day of a supported year is a date. -/
theorem exists_of? {year : Int} {month day : Nat} (least : leastYear ≤ year)
    (most : year ≤ greatestYear) (isDay : IsDay year month day) :
    Exists fun date => of? year month day = some date := by
  have known : isDate year month day = true := by
    simp only [isDate, Bool.and_eq_true, decide_eq_true_eq]
    exact ⟨⟨⟨least, most⟩, isDay.1⟩, isDay.2⟩
  exact ⟨_, dif_pos known⟩

/-- Only the last date has no next one. -/
theorem exists_next? {date : Date} (early : date.number < lastNumber) :
    Exists fun next => date.next? = some next := by
  rcases date.bounds with ⟨least, most, _⟩
  have isDay := date.isDay
  have month := isDay.month_bounds
  unfold next?
  split
  case isTrue within => exact exists_of? least most ⟨Nat.le_add_left _ _, within⟩
  case isFalse late =>
    split
    case isTrue inYear =>
      exact exists_of? least most
        ⟨Nat.le_refl 1, daysInMonth_pos _ (Nat.le_add_left 1 _) inYear⟩
    case isFalse atEnd =>
      have december : date.month = 12 := by omega
      rw [december] at isDay late
      have day : date.day = 31 := Nat.le_antisymm isDay.2 (Nat.not_lt.mp late)
      have supported : date.year + 1 ≤ greatestYear := by
        rcases Int.lt_or_eq_of_le most with inside | last
        · exact inside
        · rw [number, last, december, day] at early
          exact absurd early (Int.lt_irrefl _)
      exact exists_of? (Int.le_trans least (Int.le_add_one (Int.le_refl _))) supported
        ⟨Nat.le_refl 1, daysInMonth_pos _ (by decide) (by decide)⟩

/-- Every count between the two ends is that of a date. -/
theorem exists_number {n : Int} (least : firstNumber ≤ n) (most : n ≤ lastNumber) :
    Exists fun date : Date => date.number = n := by
  -- From the first date on, day by day.
  have reached : forall days : Nat, firstNumber + days ≤ lastNumber ->
      Exists fun date : Date => date.number = firstNumber + days := by
    intro days
    induction days with
    | zero => exact fun _ => ⟨⟨leastYear, 1, 1, by decide⟩, (Int.add_zero _).symm⟩
    | succ days inductionHypothesis =>
        intro within
        rcases inductionHypothesis (by omega) with ⟨date, count⟩
        rcases date.exists_next? (by omega) with ⟨next, isNext⟩
        have later := next?_eq_some_iff.mp isNext
        exact ⟨next, by omega⟩
  rcases reached (n - firstNumber).toNat (by omega) with ⟨date, count⟩
  exact ⟨date, by omega⟩

end Date

/-!
## Instants on the line
-/

/-- The minutes of a day and a time of day, as clocks there count them. -/
def minutesAt (day : Int) (hour minute : Nat) : Int := day * 1440 + hour * 60 + minute

/-- The minutes of an instant in universal time. -/
def Instant.minutes (instant : Instant) : Int :=
  minutesAt instant.date.number instant.clock.hour instant.clock.minute

/-- Instants differ in their minutes, seconds or nanoseconds. -/
theorem Instant.eq_of_minutes {instant other : Instant} (minutes : instant.minutes = other.minutes)
    (second : instant.clock.second = other.clock.second)
    (nanosecond : instant.clock.nanosecond = other.clock.nanosecond) : instant = other := by
  rcases instant with ⟨date, ⟨⟨hour, hourFits⟩, ⟨minute, minuteFits⟩, _, _⟩⟩
  rcases other with ⟨otherDate, ⟨⟨otherHour, otherHourFits⟩, ⟨otherMinute, otherMinuteFits⟩, _, _⟩⟩
  cases second
  cases nanosecond
  simp only [Instant.minutes, minutesAt] at minutes
  have days : date = otherDate := Date.number_injective (by omega)
  subst days
  have hours : hour = otherHour := by omega
  have rest : minute = otherMinute := by omega
  subst hours
  subst rest
  rfl

/-- The date is moved by as many days as there are in the minutes. -/
theorem Date.moved_eq_some_iff (date moved : Date) {minutes : Int} (least : -1440 ≤ minutes)
    (most : minutes < 2880) :
    (if minutes < 0 then date.previous? else if 1440 ≤ minutes then date.next? else some date) =
      some moved ↔ moved.number = date.number + minutes / 1440 := by
  split
  case isTrue before =>
    rw [previous?_eq_some_iff, show minutes / 1440 = -1 by omega]
    rfl
  case isFalse notBefore =>
    split
    case isTrue after => rw [next?_eq_some_iff, show minutes / 1440 = 1 by omega]
    case isFalse notAfter =>
      rw [show minutes / 1440 = 0 by omega, Int.add_zero, Option.some.injEq]
      exact ⟨fun same => same ▸ rfl, fun same => (number_injective same).symm⟩

/-- Clocks that are ahead by an offset show an instant just when its minutes
in universal time are that much less.  Seconds stay as they are. -/
theorem Instant.ofLocal?_eq_some_iff {date : Date} {clock : Clock} {offset : Int}
    (short : offset.natAbs < 1440) {instant : Instant} :
    Instant.ofLocal? date clock offset = some instant ↔
      instant.minutes = minutesAt date.number clock.hour clock.minute - offset ∧
        instant.clock.second = clock.second ∧ instant.clock.nanosecond = clock.nanosecond := by
  have hour := clock.hour.isLt
  have minute := clock.minute.isLt
  have least : -1440 ≤ (clock.hour : Int) * 60 + clock.minute - offset := by omega
  have most : (clock.hour : Int) * 60 + clock.minute - offset < 2880 := by omega
  have moved_iff := fun moved => date.moved_eq_some_iff moved least most
  simp only [ofLocal?, Option.map_eq_some_iff, moved_iff]
  constructor
  · intro given
    rcases given with ⟨moved, count, rfl⟩
    refine ⟨?_, rfl, rfl⟩
    simp only [minutes, minutesAt, count]
    omega
  · intro given
    rcases given with ⟨sameMinutes, second, nanosecond⟩
    have ownHour := instant.clock.hour.isLt
    have ownMinute := instant.clock.minute.isLt
    simp only [minutes, minutesAt] at sameMinutes
    refine ⟨instant.date, by omega, Instant.eq_of_minutes ?_ second.symm nanosecond.symm⟩
    simp only [minutes, minutesAt]
    omega

end Time
end RepoInspector
