import RepoInspector.Time.Calendar

namespace RepoInspector
namespace Time

/-!
# Instants

An instant is a date and a time of day in universal time.  Second 60 is kept
as it is given, at any minute: it denotes a leap second, and folding it into
the next minute would lose that.  Offsets from universal time are whole
minutes, so moving to universal time touches neither the second nor the
fraction.
-/

/-- A time of day.  Second 60 is a leap second. -/
structure Clock where
  hour : Fin 24
  minute : Fin 60
  second : Fin 61
  nanosecond : Fin 1000000000
deriving DecidableEq

structure Instant where
  date : Date
  clock : Clock
deriving DecidableEq

namespace Instant

/-- The instant at which clocks that are `offset` minutes ahead of universal
time show this date and time of day.  An offset is less than a day, so the
date moves by at most one day; there is none when it leaves the calendar. -/
def ofLocal? (date : Date) (clock : Clock) (offset : Int) : Option Instant :=
  let minutes := (clock.hour : Int) * 60 + clock.minute - offset
  let day : Option Date :=
    if minutes < 0 then date.previous?
    else if 1440 ≤ minutes then date.next?
    else some date
  let ofDay := (minutes % 1440).toNat
  day.map fun day =>
    { date := day
      clock :=
        { clock with
          hour := ⟨ofDay / 60 % 24, Nat.mod_lt _ (by decide)⟩
          minute := ⟨ofDay % 60, Nat.mod_lt _ (by decide)⟩ } }

end Instant
end Time
end RepoInspector
