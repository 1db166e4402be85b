import Mathlib.Algebra.Group.Nat.Defs
import PacketLayers.Dissect.Capture
import PacketLayers.Proofs.Time.Calendar

/-!
The text of an instant, read back: digits between marks give a date with a time of the day, and the
rules of the calendar give its nanoseconds. What is relied on of the library that makes and writes
date-times is `DateTimes.Lawful`. Main statement: exactly the instants of the years 0 to 9999 have a
text, and what is read from it is the instant, before the epoch and after it.
-/
namespace PacketLayers

/-- Whether a date is that of an instant, so many nanoseconds after the epoch. -/
def Civil.IsDateOf (c : Civil) (nanos : Int) : Prop :=
  c.Valid ∧ c.number = nanos / 86400000000000

namespace Moment

structure Valid (m : Moment) : Prop where
  date : m.date.Valid
  hour : m.hour < 24
  minute : m.minute < 60
  second : m.second < 60
  nanos : m.nanos < 1000000000

def seconds (m : Moment) : Int :=
  86400 * m.date.number + 3600 * m.hour + 60 * m.minute + m.second

def toNanos (m : Moment) : Int := 1000000000 * m.seconds + m.nanos

theorem valid_ofNanos (n : Int) : (ofNanos n).Valid := by
  constructor
  case date => exact Civil.valid_ofDay _
  all_goals
    simp only [ofNanos, Rfc3339.nanosPerSecond, Rfc3339.secondsPerDay]
    omega

theorem isDateOf_ofNanos (n : Int) : (ofNanos n).date.IsDateOf n := by
  refine ⟨Civil.valid_ofDay _, ?_⟩
  rw [ofNanos, Civil.number_ofDay, Rfc3339.nanosPerSecond, Rfc3339.secondsPerDay]
  omega

theorem toNanos_ofNanos (n : Int) : (ofNanos n).toNanos = n := by
  simp only [toNanos, seconds, ofNanos, Civil.number_ofDay, Rfc3339.nanosPerSecond,
    Rfc3339.secondsPerDay]
  omega

theorem ofNanos_toNanos {m : Moment} (valid : m.Valid) : ofNanos m.toNanos = m := by
  have dated := isDateOf_ofNanos m.toNanos
  obtain ⟨date, hours, minutes, seconds, small⟩ := valid
  have number : m.date.number = m.toNanos / 86400000000000 := by
    simp only [toNanos, Moment.seconds]
    omega
  have same : (ofNanos m.toNanos).date = m.date :=
    Civil.eq_of_number dated.1 date (dated.2.trans number.symm)
  obtain ⟨c, hour, minute, second, nanos⟩ := m
  simp only [ofNanos, toNanos, Moment.seconds, Rfc3339.nanosPerSecond, Rfc3339.secondsPerDay] at *
  rw [same, Moment.mk.injEq]
  refine ⟨rfl, ?_, ?_, ?_, ?_⟩
  all_goals omega

end Moment

namespace Rfc3339

/-- A number of so many digits, and what stands behind it. -/
def number? (width : Nat) (t : List Char) : Option (Nat × List Char) :=
  let digits := t.take width
  if digits.length = width ∧ digits.all Char.isDigit then
    some (Nat.ofDigitChars 10 digits 0, t.drop width)
  else none

def mark? (c : Char) : List Char → Option (List Char)
  | [] => none
  | first :: rest => if first = c then some rest else none

/-- A fraction of a second in nanoseconds, zero if there is none, and what stands behind it. -/
def fraction? : List Char → Option (Nat × List Char)
  | '.' :: rest =>
    let digits := rest.takeWhile Char.isDigit
    if digits ≠ [] ∧ digits.length ≤ 9 then
      some (Nat.ofDigitChars 10 (digits ++ List.replicate (9 - digits.length) '0') 0,
        rest.dropWhile Char.isDigit)
    else none
  | t => some (0, t)

def read? (text : String) : Option Moment := do
  let (year, t) ← number? 4 text.toList
  let t ← mark? '-' t
  let (month, t) ← number? 2 t
  let t ← mark? '-' t
  let (day, t) ← number? 2 t
  let t ← mark? 'T' t
  let (hour, t) ← number? 2 t
  let t ← mark? ':' t
  let (minute, t) ← number? 2 t
  let t ← mark? ':' t
  let (second, t) ← number? 2 t
  let (nanos, t) ← fraction? t
  let t ← mark? 'Z' t
  if t = [] then some ⟨⟨year, month, day⟩, hour, minute, second, nanos⟩ else none

/-! ### Numbers -/

theorem toList_zeroPadded (width n : Nat) :
    (zeroPadded width n).toList =
      List.replicate (width - (Nat.toDigits 10 n).length) '0' ++ Nat.toDigits 10 n := by
  have written : toString n = String.ofList (Nat.toDigits 10 n) := Nat.toString_eq_ofList_toDigits
  simp only [zeroPadded, written, String.toList_append, String.toList_ofList,
    String.length_ofList]

theorem isDigit_of_mem_zeroPadded {width n : Nat} {c : Char}
    (mem : c ∈ (zeroPadded width n).toList) : c.isDigit = true := by
  rw [toList_zeroPadded, List.mem_append] at mem
  rcases mem with zero | digit
  · rw [List.eq_of_mem_replicate zero]
    rfl
  · exact Nat.isDigit_of_mem_toDigits (by decide) (by decide) digit

theorem ofDigitChars_zeroPadded (width n : Nat) :
    Nat.ofDigitChars 10 (zeroPadded width n).toList 0 = n := by
  rw [toList_zeroPadded, Nat.ofDigitChars_append, Nat.ofDigitChars_replicate_zero, Nat.mul_zero,
    Nat.ofDigitChars_ten_toDigits]

theorem length_zeroPadded {width n : Nat} (positive : 0 < width) (small : n < 10 ^ width) :
    (zeroPadded width n).toList.length = width := by
  have short : (Nat.toDigits 10 n).length ≤ width :=
    (Nat.length_toDigits_le_iff (by decide) positive).mpr small
  rw [toList_zeroPadded, List.length_append, List.length_replicate]
  omega

theorem number?_zeroPadded {width n : Nat} (positive : 0 < width) (small : n < 10 ^ width)
    (rest : List Char) : number? width ((zeroPadded width n).toList ++ rest) = some (n, rest) := by
  have length := length_zeroPadded positive small
  have digits : (zeroPadded width n).toList.all Char.isDigit = true :=
    List.all_eq_true.mpr fun _ => isDigit_of_mem_zeroPadded
  rw [number?, List.take_left' length, List.drop_left' length, ofDigitChars_zeroPadded]
  exact if_pos ⟨length, digits⟩

theorem mark?_cons (c : Char) (rest : List Char) : mark? c (c :: rest) = some rest := if_pos rfl

/-! ### Fractions -/

def leading (nanos : Nat) : List Char :=
  ((zeroPadded 9 nanos).toList.reverse.dropWhile (· == '0')).reverse

theorem leading_append_zeros {nanos : Nat} (small : nanos < 1000000000) :
    (leading nanos).length ≤ 9 ∧
      leading nanos ++ List.replicate (9 - (leading nanos).length) '0' =
        (zeroPadded 9 nanos).toList := by
  have length : (zeroPadded 9 nanos).toList.length = 9 := length_zeroPadded (by decide) small
  let back := (zeroPadded 9 nanos).toList.reverse
  have zeros : (back.takeWhile (· == '0')).reverse =
      List.replicate (back.takeWhile (· == '0')).length '0' := by
    refine List.eq_replicate_iff.mpr ⟨List.length_reverse, fun c mem => ?_⟩
    have zero := List.all_takeWhile (p := (· == '0')) (l := back)
    exact eq_of_beq (List.all_eq_true.mp zero c (List.mem_reverse.mp mem))
  have split : leading nanos ++ (back.takeWhile (· == '0')).reverse =
      (zeroPadded 9 nanos).toList := by
    rw [leading, ← List.reverse_append, List.takeWhile_append_dropWhile, List.reverse_reverse]
  have lengths := congrArg List.length split
  rw [List.length_append, List.length_reverse, length] at lengths
  have left : (back.takeWhile (· == '0')).length = 9 - (leading nanos).length := by omega
  rw [zeros, left] at split
  exact ⟨by omega, split⟩

theorem leading_ne_nil {nanos : Nat} (small : nanos < 1000000000) (positive : nanos ≠ 0) :
    leading nanos ≠ [] := by
  intro empty
  have digits := (leading_append_zeros small).2
  have value := ofDigitChars_zeroPadded 9 nanos
  rw [← digits, empty, List.nil_append, Nat.ofDigitChars_replicate_zero, Nat.mul_zero] at value
  exact positive value.symm

theorem fraction?_fractionText {nanos : Nat} (small : nanos < 1000000000) :
    fraction? ((fractionText nanos).toList ++ ['Z']) = some (nanos, ['Z']) := by
  by_cases zero : nanos = 0
  · subst zero
    rfl
  · have text : (fractionText nanos).toList = '.' :: leading nanos := by
      simp [fractionText, zero, leading]
    obtain ⟨length, digits⟩ := leading_append_zeros small
    have all : ∀ c ∈ leading nanos, c.isDigit = true := fun c mem =>
      isDigit_of_mem_zeroPadded (digits ▸ List.mem_append_left _ mem)
    have taken : (leading nanos ++ ['Z']).takeWhile Char.isDigit = leading nanos := by
      rw [List.takeWhile_append_of_pos all]
      exact List.append_nil _
    have dropped : (leading nanos ++ ['Z']).dropWhile Char.isDigit = ['Z'] := by
      rw [List.dropWhile_append_of_pos all]
      rfl
    rw [text, List.cons_append]
    simp only [fraction?, taken, dropped, digits, ofDigitChars_zeroPadded]
    exact if_pos ⟨leading_ne_nil small zero, length⟩

/-! ### Texts -/

theorem read?_text {m : Moment} (valid : m.Valid) (first : 0 ≤ m.date.year)
    (last : m.date.year ≤ 9999) : read? m.text = some m := by
  obtain ⟨⟨year, month, day⟩, hour, minute, second, nanos⟩ := m
  obtain ⟨date, hours, minutes, seconds, small⟩ := valid
  simp only at first last hours minutes seconds small
  have years : year.toNat < 10000 := by omega
  have months : month < 100 := Nat.lt_of_le_of_lt date.month.2 (by decide)
  have days : day < 100 :=
    Nat.lt_of_le_of_lt (Nat.le_trans date.2 (Civil.monthLength_le year month)) (by decide)
  have four : 0 < 4 := by decide
  have two : 0 < 2 := by decide
  have dash : "-".toList = ['-'] := rfl
  have colon : ":".toList = [':'] := rfl
  have t : "T".toList = ['T'] := rfl
  have z : "Z".toList = ['Z'] := rfl
  simp only [read?, Moment.text, String.toList_append, dash, colon, t, z, List.append_assoc,
    List.cons_append, List.nil_append, Option.bind_eq_bind, Option.bind_some, mark?_cons,
    number?_zeroPadded four years, number?_zeroPadded two months,
    number?_zeroPadded two days, number?_zeroPadded two (Nat.lt_trans hours (by decide)),
    number?_zeroPadded two (Nat.lt_trans minutes (by decide)),
    number?_zeroPadded two (Nat.lt_trans seconds (by decide)), fraction?_fractionText small,
    Int.toNat_of_nonneg first]
  exact if_pos trivial

end Rfc3339

/-! ### Libraries of date-times -/

namespace DateTimes

/-- The first moment and the last one that a library has to represent. -/
def earliest : Moment := ⟨⟨-9999, 1, 1⟩, 0, 0, 0, 0⟩

def latest : Moment := ⟨⟨9999, 12, 31⟩, 23, 59, 59, 999999999⟩

/-- What is relied on of a library: which instants it represents at the least, that it finds their
date and time in UTC, and how it writes them. An instant that it cannot represent is refused and not
taken for another one, however late it is. A year in RFC 3339 has four digits and no sign. -/
structure Lawful (dates : DateTimes) : Prop where
  represents : ∀ n : Int, earliest.toNanos ≤ n → n ≤ latest.toNanos →
    (dates.ofNanos? n).isSome = true
  denotes : ∀ (n : Int) (m : Moment), dates.ofNanos? n = some m → m.Valid ∧ m.toNanos = n
  writes : ∀ m : Moment, m.Valid → 0 ≤ m.date.year → m.date.year ≤ 9999 →
    dates.rfc3339? m = some m.text
  refuses : ∀ m : Moment, m.date.year < 0 ∨ 9999 < m.date.year → dates.rfc3339? m = none

theorem standard_lawful : standard.Lawful where
  represents n first last := by
    have first' : -377705116800000000000 ≤ n := first
    have last' : n ≤ 253402300799999999999 := last
    have inside : firstSecond ≤ n / Rfc3339.nanosPerSecond ∧
        n / Rfc3339.nanosPerSecond ≤ lastSecond := by
      simp only [firstSecond, lastSecond, Rfc3339.nanosPerSecond]
      omega
    simp only [standard, if_pos inside, Option.isSome_some]
  denotes n m found := by
    simp only [standard] at found
    split at found
    · cases found
      exact ⟨Moment.valid_ofNanos n, Moment.toNanos_ofNanos n⟩
    · cases found
  writes m _ first last := if_pos ⟨first, last⟩
  refuses m outside := if_neg (by omega)

namespace Lawful

variable {dates : DateTimes} (lawful : dates.Lawful)
include lawful

theorem eq_ofNanos {n : Int} {m : Moment} (found : dates.ofNanos? n = some m) :
    m = Moment.ofNanos n := by
  obtain ⟨valid, same⟩ := lawful.denotes n m found
  rw [← same, Moment.ofNanos_toNanos valid]

theorem ofNanos?_of_year {n : Int} (first : 0 ≤ (Moment.ofNanos n).date.year)
    (last : (Moment.ofNanos n).date.year ≤ 9999) : dates.ofNanos? n = some (Moment.ofNanos n) := by
  obtain ⟨valid, number⟩ := Moment.isDateOf_ofNanos n
  -- The years next to the represented ones bound the day, and by it the instant.
  have behind : Civil.number ⟨-10000, 12, 31⟩ < (Moment.ofNanos n).date.number :=
    Civil.number_lt_of_year (by decide) valid (Int.lt_of_lt_of_le (by decide) first)
  have before : (Moment.ofNanos n).date.number < Civil.number ⟨10000, 1, 1⟩ :=
    Civil.number_lt_of_year valid (by decide) (Int.lt_of_le_of_lt last (by decide))
  have dayBefore : Civil.number ⟨-10000, 12, 31⟩ = -4371588 := by decide
  have dayAfter : Civil.number ⟨10000, 1, 1⟩ = 2932897 := by decide
  have start : earliest.toNanos = -377705116800000000000 := by decide
  have finish : latest.toNanos = 253402300799999999999 := by decide
  obtain ⟨m, found⟩ := Option.isSome_iff_exists.mp
    (lawful.represents n (by omega) (by omega))
  rw [found, lawful.eq_ofNanos found]

theorem text?_isSome_iff (n : Int) : (dates.text? n).isSome = true ↔
    0 ≤ (Moment.ofNanos n).date.year ∧ (Moment.ofNanos n).date.year ≤ 9999 := by
  constructor
  · intro written
    obtain ⟨text, shown⟩ := Option.isSome_iff_exists.mp written
    obtain ⟨m, found, shown⟩ := Option.bind_eq_some_iff.mp shown
    rw [lawful.eq_ofNanos found] at shown
    refine Decidable.byContradiction fun outside => ?_
    have silent := lawful.refuses (Moment.ofNanos n) (by omega)
    rw [silent] at shown
    cases shown
  · rintro ⟨first, last⟩
    have text := lawful.writes _ (Moment.valid_ofNanos n) first last
    rw [text?, lawful.ofNanos?_of_year first last, Option.bind_some, text, Option.isSome_some]

theorem read?_of_text {n : Int} {text : String} (written : dates.text? n = some text) :
    Rfc3339.read? text = some (Moment.ofNanos n) := by
  obtain ⟨first, last⟩ := (lawful.text?_isSome_iff n).mp (Option.isSome_of_eq_some written)
  obtain ⟨m, found, shown⟩ := Option.bind_eq_some_iff.mp written
  rw [lawful.eq_ofNanos found, lawful.writes _ (Moment.valid_ofNanos n) first last] at shown
  rw [← Option.some.inj shown]
  exact Rfc3339.read?_text (Moment.valid_ofNanos n) first last

end Lawful

end DateTimes

namespace Rfc3339

/-- An instant has exactly one date, and the date after it is that of the next day. The instant has
a text exactly if the year of its date has at most four digits and no sign. The text is read as a
moment of that date, which is the instant again; so no two instants share a text. The text of a time
is that of the instant to which it is cut off, and the bounds of time in a report have these texts.
All of this holds for any lawful library, and the one that reports are made with is lawful. -/
theorem instant_of_text (dates : DateTimes) (lawful : dates.Lawful) (n : Int) :
    DateTimes.standard.Lawful ∧ ∃ date : Civil,
      (date.IsDateOf n ∧ (∀ other : Civil, other.IsDateOf n → other = date) ∧
        date.next.IsDateOf (n + 86400000000000)) ∧
      ((dates.text? n).isSome = true ↔ 0 ≤ date.year ∧ date.year ≤ 9999) ∧
      (∀ text, dates.text? n = some text →
        ∃ m, read? text = some m ∧ m.Valid ∧ m.date = date ∧ m.toNanos = n) ∧
      (∀ k text, dates.text? n = some text → dates.text? k = some text → k = n) ∧
      ∀ t : Float, truncate (t * 1e9) = n → timeText? dates (some t) = dates.text? n ∧
        ∀ (d : Dissection) (path : String) (bytes : Nat), ∃ summary,
          (d.report path bytes dates).captureSummary = some summary ∧
            (d.times.first = some t → summary.timeStart = dates.text? n) ∧
            (d.times.last = some t → summary.timeEnd = dates.text? n) := by
  have date := Moment.isDateOf_ofNanos n
  have later : (Moment.ofNanos n).date.next.IsDateOf (n + 86400000000000) := by
    refine ⟨Civil.valid_next date.1, ?_⟩
    rw [Civil.number_next date.1, date.2]
    omega
  refine ⟨DateTimes.standard_lawful, (Moment.ofNanos n).date,
    ⟨date, fun other isDate => ?_, later⟩, lawful.text?_isSome_iff n, fun text written => ?_,
    fun k text written same => ?_, fun t cut => ?_⟩
  · exact Civil.eq_of_number isDate.1 date.1 (isDate.2.trans date.2.symm)
  · exact ⟨_, lawful.read?_of_text written, Moment.valid_ofNanos n, rfl, Moment.toNanos_ofNanos n⟩
  · have read := (lawful.read?_of_text same).symm.trans (lawful.read?_of_text written)
    rw [← Moment.toNanos_ofNanos k, Option.some.inj read, Moment.toNanos_ofNanos]
  · have text : timeText? dates (some t) = dates.text? n := by rw [← cut]; rfl
    refine ⟨text, fun d path bytes => ⟨_, rfl, fun first => ?_, fun last => ?_⟩⟩
    · rw [← text, ← first]
    · rw [← text, ← last]

/-- The last nanosecond of a leap day before the epoch, half a second before the epoch, the last
nanosecond before year 0, and an instant so late that its seconds do not fit 64 bits. -/
theorem instant_of_text_leapDay :
    (∃ m, read? "1968-02-29T23:59:59.999999999Z" = some m ∧ m.toNanos = -57974400000000001) ∧
      (∀ k, DateTimes.standard.text? k = some "1968-02-29T23:59:59.999999999Z" →
        k = -57974400000000001) ∧
      timeText? .standard (some (-0.5)) = some "1969-12-31T23:59:59.5Z" ∧
      DateTimes.standard.text? (-62167219200000000001) = none ∧
      DateTimes.standard.text? 18446744073709551616000000000 = none := by
  have leap : DateTimes.standard.text? (-57974400000000001) =
      some "1968-02-29T23:59:59.999999999Z" := by decide
  have half : DateTimes.standard.text? (-500000000) = some "1969-12-31T23:59:59.5Z" := by decide
  have lawful := DateTimes.standard_lawful
  obtain ⟨-, _, _, _, read, unique, _⟩ := instant_of_text .standard lawful (-57974400000000001)
  obtain ⟨m, shown, _, _, value⟩ := read _ leap
  obtain ⟨-, _, _, _, _, _, cut⟩ := instant_of_text .standard lawful (-500000000)
  exact ⟨⟨m, shown, value⟩, fun k same => unique k _ leap same,
    (cut (-0.5) (by decide)).1.trans half, by decide, by decide⟩

end Rfc3339

end PacketLayers
