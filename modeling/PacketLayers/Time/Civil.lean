/-!
Dates of the Gregorian calendar, extended to all years, counted in days from 1970-01-01. Years
are counted from March, so that the day that a leap year adds is the last one of its year, its
century and its four hundred years.
-/
namespace PacketLayers

structure Civil where
  year : Int
  month : Nat
  day : Nat
deriving DecidableEq, Repr

namespace Civil

/-- The days from 0000-03-01 to 1970-01-01. -/
def epochDay : Int := 719468

def daysPerEra : Int := 146097

/-- The year within four hundred years that begin in March, and the day of that year. -/
def yearOfEra (day : Nat) : Nat × Nat :=
  let century := min (day / 36524) 3
  let inCentury := day - 36524 * century
  let quad := inCentury / 1461
  let inQuad := inCentury - 1461 * quad
  let year := min (inQuad / 365) 3
  (100 * century + 4 * quad + year, inQuad - 365 * year)

/-- The month, with March as 0, and the day of the month of a day of such a year. Five months
have 153 days. -/
def monthOfYear (day : Nat) : Nat × Nat :=
  let month := (5 * day + 2) / 153
  (month, day - (153 * month + 2) / 5 + 1)

def ofDay (day : Int) : Civil :=
  let shifted := day + epochDay
  let (yearOfEra, dayOfYear) := yearOfEra (shifted % daysPerEra).toNat
  let (month, dayOfMonth) := monthOfYear dayOfYear
  let year := 400 * (shifted / daysPerEra) + (yearOfEra : Int)
  if month < 10 then ⟨year, month + 3, dayOfMonth⟩ else ⟨year + 1, month - 9, dayOfMonth⟩

def toDay (c : Civil) : Int :=
  let (year, month) := if 3 ≤ c.month then (c.year, c.month - 3) else (c.year - 1, c.month + 9)
  let yearOfEra := year % 400
  daysPerEra * (year / 400) + 365 * yearOfEra + yearOfEra / 4 - yearOfEra / 100 +
    ((153 * month + 2) / 5 + c.day - 1 : Nat) - epochDay

end Civil

end PacketLayers
