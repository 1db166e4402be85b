import PacketLayers.Time.Civil

/-!
The Gregorian calendar by its rules: which years are leap years, how long months are, which date
follows a date, and the number of a date when days are counted from 1970-01-01. Main statements:
each day has exactly one valid date with its number, which is the date that is computed for it; and
the next day has the next date.
-/
namespace PacketLayers.Civil

/-! ### The rules -/

/-- Every fourth year is a leap year, but of the centuries only every fourth. -/
def IsLeap (year : Int) : Prop := year % 4 = 0 ∧ (year % 100 ≠ 0 ∨ year % 400 = 0)

instance (year : Int) : Decidable (IsLeap year) := inferInstanceAs (Decidable (_ ∧ _))

def leapDays (year : Int) : Nat := if IsLeap year then 1 else 0

def yearLength (year : Int) : Nat := 365 + leapDays year

def monthLength (year : Int) : Nat → Nat
  | 2 => 28 + leapDays year
  | 4 | 6 | 9 | 11 => 30
  | 1 | 3 | 5 | 7 | 8 | 10 | 12 => 31
  | _ => 0

def Valid (c : Civil) : Prop := 1 ≤ c.day ∧ c.day ≤ monthLength c.year c.month

instance (c : Civil) : Decidable c.Valid := inferInstanceAs (Decidable (_ ∧ _))

def next (c : Civil) : Civil :=
  if c.day < monthLength c.year c.month then ⟨c.year, c.month, c.day + 1⟩
  else if c.month < 12 then ⟨c.year, c.month + 1, 1⟩
  else ⟨c.year + 1, 1, 1⟩

/-- The days from the first one of year 0 to the first one of a year: 365 for each year between,
and one for each leap year between. -/
def daysBeforeYear (year : Int) : Int :=
  365 * year + (year + 3) / 4 - (year + 99) / 100 + (year + 399) / 400

def daysBeforeMonth (year : Int) : Nat → Nat
  | 0 => 0
  | month + 1 => daysBeforeMonth year month + monthLength year month

/-- The days from 1970-01-01 to a date. -/
def number (c : Civil) : Int :=
  daysBeforeYear c.year - daysBeforeYear 1970 + daysBeforeMonth c.year c.month + (c.day - 1)

/-! ### Years and months in a row -/

theorem leapDays_cases (year : Int) :
    leapDays year = 1 ∧ year % 4 = 0 ∧ (year % 100 ≠ 0 ∨ year % 400 = 0) ∨
      leapDays year = 0 ∧ (year % 4 ≠ 0 ∨ year % 100 = 0 ∧ year % 400 ≠ 0) := by
  unfold leapDays
  split
  · rename_i leap
    exact .inl ⟨rfl, leap⟩
  · rename_i plain
    simp only [IsLeap] at plain
    exact .inr ⟨rfl, by omega⟩

theorem daysBeforeYear_add_one (year : Int) :
    daysBeforeYear (year + 1) = daysBeforeYear year + yearLength year := by
  have leap := leapDays_cases year
  simp only [daysBeforeYear, yearLength]
  omega

theorem month_of_monthLength {year : Int} {month : Nat} (days : 1 ≤ monthLength year month) :
    1 ≤ month ∧ month ≤ 12 := by
  unfold monthLength at days
  split at days
  case h_13 => exact absurd days (by decide)
  all_goals omega

theorem Valid.month {c : Civil} (valid : c.Valid) : 1 ≤ c.month ∧ c.month ≤ 12 :=
  month_of_monthLength (Nat.le_trans valid.1 valid.2)

theorem month_cases {month : Nat} (first : 1 ≤ month) (last : month ≤ 12) :
    month = 1 ∨ month = 2 ∨ month = 3 ∨ month = 4 ∨ month = 5 ∨ month = 6 ∨ month = 7 ∨
      month = 8 ∨ month = 9 ∨ month = 10 ∨ month = 11 ∨ month = 12 := by omega

theorem monthLength_pos (year : Int) {month : Nat} (first : 1 ≤ month) (last : month ≤ 12) :
    1 ≤ monthLength year month := by
  rcases month_cases first last with
    rfl | rfl | rfl | rfl | rfl | rfl | rfl | rfl | rfl | rfl | rfl | rfl
  all_goals
    simp only [monthLength]
    omega

theorem monthLength_le (year : Int) (month : Nat) : monthLength year month ≤ 31 := by
  have leap := leapDays_cases year
  unfold monthLength
  split <;> omega

theorem daysBeforeMonth_le {year : Int} {month later : Nat} (before : month < later) :
    daysBeforeMonth year month + monthLength year month ≤ daysBeforeMonth year later := by
  induction before with
  | refl => exact Nat.le_refl _
  | step _ ih => exact Nat.le_add_right_of_le ih

/-- From March on, the days before a month come from the months since March, five of which have
153 days, and from the day that a leap year adds. -/
theorem daysBeforeMonth_of_march (year : Int) {month : Nat} (march : 3 ≤ month)
    (last : month ≤ 13) :
    daysBeforeMonth year month =
      (153 * (month - 3) + 2) / 5 + 59 + leapDays year := by
  have cases : month = 3 ∨ month = 4 ∨ month = 5 ∨ month = 6 ∨ month = 7 ∨ month = 8 ∨ month = 9 ∨
      month = 10 ∨ month = 11 ∨ month = 12 ∨ month = 13 := by omega
  rcases cases with rfl | rfl | rfl | rfl | rfl | rfl | rfl | rfl | rfl | rfl | rfl
  all_goals
    simp only [daysBeforeMonth, monthLength]
    omega

theorem daysBeforeMonth_thirteen (year : Int) : daysBeforeMonth year 13 = yearLength year := by
  rw [daysBeforeMonth_of_march year (by decide) (by decide), yearLength]

theorem daysBeforeYear_of_march (year : Int) :
    daysBeforeYear year + leapDays year = 365 * year + year / 4 - year / 100 + year / 400 + 1 := by
  have leap := leapDays_cases year
  simp only [daysBeforeYear]
  omega

/-! ### The number of a date -/

theorem toDay_eq_number {c : Civil} (valid : c.Valid) : c.toDay = c.number := by
  obtain ⟨year, month, day⟩ := c
  obtain ⟨first, last⟩ := valid.month
  have positive : 1 ≤ day := valid.1
  have epoch : daysBeforeYear 1970 = 719528 := by decide
  simp only [toDay, number, daysPerEra, epochDay, epoch]
  by_cases march : 3 ≤ month
  · have months := daysBeforeMonth_of_march year march (Nat.le_succ_of_le last)
    have years := daysBeforeYear_of_march year
    simp only [if_pos march, months]
    omega
  · have early : month = 1 ∨ month = 2 := by simp only at first; omega
    simp only [if_neg march]
    rcases early with rfl | rfl
    all_goals
      simp only [daysBeforeMonth, monthLength, daysBeforeYear]
      omega

theorem number_lt_of_year {c d : Civil} (hc : c.Valid) (hd : d.Valid) (years : c.year < d.year) :
    c.number < d.number := by
  have month : daysBeforeMonth c.year c.month + monthLength c.year c.month ≤
      daysBeforeMonth c.year 13 := daysBeforeMonth_le (Nat.lt_succ_of_le hc.month.2)
  rw [daysBeforeMonth_thirteen] at month
  have year : daysBeforeYear c.year + yearLength c.year ≤ daysBeforeYear d.year := by
    rw [← daysBeforeYear_add_one]
    simp only [daysBeforeYear]
    omega
  have length := hc.2
  have positive := hd.1
  simp only [number]
  omega

theorem number_lt_of_month {c d : Civil} (hc : c.Valid) (hd : d.Valid) (years : c.year = d.year)
    (months : c.month < d.month) : c.number < d.number := by
  have month : daysBeforeMonth c.year c.month + monthLength c.year c.month ≤
      daysBeforeMonth c.year d.month := daysBeforeMonth_le months
  have length := hc.2
  have positive := hd.1
  simp only [number, ← years]
  omega

theorem eq_of_number {c d : Civil} (hc : c.Valid) (hd : d.Valid) (same : c.number = d.number) :
    c = d := by
  have years : c.year = d.year := by
    rcases Int.lt_trichotomy c.year d.year with before | level | behind
    · exact absurd same (Int.ne_of_lt (number_lt_of_year hc hd before))
    · exact level
    · exact absurd same.symm (Int.ne_of_lt (number_lt_of_year hd hc behind))
  have months : c.month = d.month := by
    rcases Nat.lt_trichotomy c.month d.month with before | level | behind
    · exact absurd same (Int.ne_of_lt (number_lt_of_month hc hd years before))
    · exact level
    · exact absurd same.symm (Int.ne_of_lt (number_lt_of_month hd hc years.symm behind))
  have days : c.day = d.day := by
    simp only [number, years, months] at same
    omega
  cases c
  cases d
  simp_all

/-! ### The date of a day -/

/-- A day of an era lies in one of its four hundred years that begin in March. Such a year has a
day more than 365 only if the calendar year in which it ends is a leap year. -/
theorem yearOfEra_cases {day : Nat} (inside : day < 146097) :
    ∃ year rest, yearOfEra day = (year, rest) ∧ year < 400 ∧
      day + year / 100 = 365 * year + year / 4 + rest ∧ rest ≤ 365 ∧
      (rest = 365 → (year + 1) % 4 = 0 ∧ ((year + 1) % 100 ≠ 0 ∨ (year + 1) % 400 = 0)) := by
  -- The last century of an era, and the last year of four, take the day that is left over.
  have centuries : ∃ c, c = min (day / 36524) 3 ∧ c ≤ 3 ∧ 36524 * c ≤ day ∧
      (day - 36524 * c < 36524 ∨ c = 3 ∧ day - 36524 * c ≤ 36524) := ⟨_, rfl, by omega⟩
  obtain ⟨c, century, lastCentury, fromCentury, inCentury⟩ := centuries
  generalize left : day - 36524 * c = inner at inCentury
  have years : ∃ z, z = min ((inner - 1461 * (inner / 1461)) / 365) 3 ∧ z ≤ 3 ∧
      365 * z ≤ inner - 1461 * (inner / 1461) ∧
      (inner - 1461 * (inner / 1461) - 365 * z < 365 ∨
        z = 3 ∧ inner - 1461 * (inner / 1461) - 365 * z ≤ 365) := ⟨_, rfl, by omega⟩
  obtain ⟨z, year, lastYear, fromYear, inYear⟩ := years
  have quads : inner / 1461 ≤ 24 := by omega
  have fours : (100 * c + 4 * (inner / 1461) + z) / 4 = 25 * c + inner / 1461 := by omega
  have hundreds : (100 * c + 4 * (inner / 1461) + z) / 100 = c := by omega
  refine ⟨100 * c + 4 * (inner / 1461) + z, inner - 1461 * (inner / 1461) - 365 * z, ?_, ?_⟩
  · simp only [yearOfEra, ← century, left, ← year]
  · omega

theorem monthOfYear_cases {day : Nat} (inside : day ≤ 365) :
    ∃ month rest, monthOfYear day = (month, rest) ∧ month ≤ 11 ∧ 1 ≤ rest ∧
      (153 * month + 2) / 5 + rest = day + 1 ∧ day < (153 * (month + 1) + 2) / 5 := by
  refine ⟨_, _, rfl, ?_⟩
  omega

/-- A date as it is found for a day: by era, by year and month from March on, and by day. -/
structure Found (c : Civil) (day era : Int) (year month dayOfYear : Nat) : Prop where
  year_lt : year < 400
  month_le : month ≤ 11
  shifted : day + epochDay = daysPerEra * era + 365 * year + year / 4 - year / 100 + dayOfYear
  inMonth : (153 * month + 2) / 5 + c.day = dayOfYear + 1
  positive : 1 ≤ c.day
  beforeNext : dayOfYear < (153 * (month + 1) + 2) / 5
  inYear : dayOfYear ≤ 365
  leap : dayOfYear = 365 → (year + 1) % 4 = 0 ∧ ((year + 1) % 100 ≠ 0 ∨ (year + 1) % 400 = 0)
  split : c.year = 400 * era + year ∧ month < 10 ∧ c.month = month + 3 ∨
    c.year = 400 * era + year + 1 ∧ 10 ≤ month ∧ c.month + 9 = month

theorem exists_found (day : Int) : ∃ era year month dayOfYear,
    (ofDay day).Found day era year month dayOfYear := by
  have positive : 0 ≤ (day + epochDay) % daysPerEra := Int.emod_nonneg _ (by decide)
  have below : (day + epochDay) % daysPerEra < 146097 := Int.emod_lt_of_pos _ (by decide)
  have whole := Int.mul_ediv_add_emod (day + epochDay) daysPerEra
  have inside : ((day + epochDay) % daysPerEra).toNat < 146097 := by omega
  obtain ⟨year, dayOfYear, yearEq, year_lt, counted, inYear, leap⟩ := yearOfEra_cases inside
  obtain ⟨month, rest, monthEq, month_le, restPositive, inMonth, beforeNext⟩ :=
    monthOfYear_cases inYear
  have shifted : day + epochDay = daysPerEra * ((day + epochDay) / daysPerEra) + 365 * year +
      year / 4 - year / 100 + dayOfYear := by omega
  refine ⟨(day + epochDay) / daysPerEra, year, month, dayOfYear, ?_⟩
  simp only [ofDay, yearEq, monthEq]
  split
  · rename_i early
    exact ⟨year_lt, month_le, shifted, inMonth, restPositive, beforeNext, inYear, leap,
      .inl ⟨rfl, early, rfl⟩⟩
  · rename_i late
    exact ⟨year_lt, month_le, shifted, inMonth, restPositive, beforeNext, inYear, leap,
      .inr ⟨rfl, Nat.le_of_not_lt late, Nat.sub_add_cancel (by omega)⟩⟩

theorem Found.valid {c : Civil} {day era : Int} {year month dayOfYear : Nat}
    (found : c.Found day era year month dayOfYear) : c.Valid := by
  obtain ⟨calendarYear, calendarMonth, rest⟩ := c
  obtain ⟨year_lt, month_le, -, inMonth, positive, beforeNext, inYear, leap, split⟩ := found
  refine ⟨positive, ?_⟩
  simp only at split inMonth ⊢
  rcases split with ⟨-, early, rfl⟩ | ⟨rfl, late, back⟩
  · have march : 3 ≤ month + 3 := Nat.le_add_left 3 month
    have here := daysBeforeMonth_of_march calendarYear march (by omega)
    have after := daysBeforeMonth_of_march calendarYear (Nat.le_succ_of_le march) (by omega)
    rw [daysBeforeMonth] at after
    omega
  · have days := leapDays_cases (400 * era + year + 1)
    have calendar : calendarMonth = 1 ∧ month = 10 ∨ calendarMonth = 2 ∧ month = 11 := by omega
    rcases calendar with ⟨rfl, rfl⟩ | ⟨rfl, rfl⟩
    all_goals
      simp only [monthLength]
      omega

theorem Found.toDay_eq {c : Civil} {day era : Int} {year month dayOfYear : Nat}
    (found : c.Found day era year month dayOfYear) : c.toDay = day := by
  obtain ⟨calendarYear, calendarMonth, rest⟩ := c
  obtain ⟨year_lt, month_le, shifted, inMonth, positive, -, -, -, split⟩ := found
  simp only [epochDay, daysPerEra] at shifted
  simp only at split inMonth positive
  simp only [toDay, epochDay, daysPerEra]
  rcases split with ⟨rfl, early, rfl⟩ | ⟨rfl, late, back⟩
  · simp only [if_pos (Nat.le_add_left 3 month), Nat.add_sub_cancel]
    omega
  · have early : ¬ 3 ≤ calendarMonth := by omega
    simp only [if_neg early, back]
    omega

theorem valid_ofDay (day : Int) : (ofDay day).Valid := by
  obtain ⟨_, _, _, _, found⟩ := exists_found day
  exact found.valid

theorem number_ofDay (day : Int) : (ofDay day).number = day := by
  obtain ⟨_, _, _, _, found⟩ := exists_found day
  rw [← toDay_eq_number found.valid, found.toDay_eq]

theorem valid_next {c : Civil} (valid : c.Valid) : c.next.Valid := by
  obtain ⟨first, last⟩ := valid
  unfold next
  split
  · rename_i more
    exact ⟨Nat.le_add_left 1 _, more⟩
  · split
    · rename_i more
      exact ⟨Nat.le_refl 1, monthLength_pos c.year (Nat.le_add_left 1 _) more⟩
    · exact ⟨Nat.le_refl 1, (by decide : 1 ≤ 31)⟩

theorem number_next {c : Civil} (valid : c.Valid) : c.next.number = c.number + 1 := by
  have month := valid.month
  obtain ⟨first, last⟩ := valid
  unfold next
  split
  · simp only [number]
    omega
  · split
    · simp only [number, daysBeforeMonth]
      omega
    · have december : c.month = 12 := by omega
      have year : daysBeforeMonth c.year 12 + monthLength c.year 12 = yearLength c.year :=
        daysBeforeMonth_thirteen c.year
      have january : daysBeforeMonth (c.year + 1) 1 = 0 := rfl
      rename_i final _
      rw [december] at last final
      simp only [number, december, daysBeforeYear_add_one, january]
      omega

end PacketLayers.Civil
