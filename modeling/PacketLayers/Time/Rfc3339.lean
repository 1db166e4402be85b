import PacketLayers.Time.Civil

/-!
Date-times in UTC and their RFC 3339 text. What makes and writes date-times is a library that the
program is given: it may not represent an instant, and it may not write the one that it represents.
-/
namespace PacketLayers

def zeroPadded (width n : Nat) : String :=
  let digits := toString n
  String.ofList (List.replicate (width - digits.length) '0') ++ digits

namespace Rfc3339

def nanosPerSecond : Int := 1000000000

def secondsPerDay : Int := 86400

/-- The fraction of a second behind its point, without zeros at its end. -/
def fractionText (nanos : Nat) : String :=
  if nanos = 0 then ""
  else
    "." ++ String.ofList ((zeroPadded 9 nanos).toList.reverse.dropWhile (· == '0')).reverse

end Rfc3339

structure Moment where
  date : Civil
  hour : Nat
  minute : Nat
  second : Nat
  nanos : Nat
deriving DecidableEq, Repr

namespace Moment

def ofNanos (n : Int) : Moment :=
  let seconds := n / Rfc3339.nanosPerSecond
  let inDay := (seconds % Rfc3339.secondsPerDay).toNat
  ⟨Civil.ofDay (seconds / Rfc3339.secondsPerDay), inDay / 3600, inDay / 60 % 60, inDay % 60,
    (n % Rfc3339.nanosPerSecond).toNat⟩

def text (m : Moment) : String :=
  zeroPadded 4 m.date.year.toNat ++ "-" ++ zeroPadded 2 m.date.month ++ "-" ++
    zeroPadded 2 m.date.day ++ "T" ++ zeroPadded 2 m.hour ++ ":" ++ zeroPadded 2 m.minute ++ ":" ++
    zeroPadded 2 m.second ++ Rfc3339.fractionText m.nanos ++ "Z"

end Moment

/-- What is used of a library of date-times: the moment so many nanoseconds after the epoch, and
the RFC 3339 text of a moment. -/
structure DateTimes where
  ofNanos? : Int → Option Moment
  rfc3339? : Moment → Option String

namespace DateTimes

def text? (dates : DateTimes) (nanos : Int) : Option String :=
  (dates.ofNanos? nanos).bind dates.rfc3339?

/-- The first second of the year -9999. -/
def firstSecond : Int := -377705116800

/-- The last second of the year 9999. -/
def lastSecond : Int := 253402300799

/-- The library that reports are made with unless another one is given. -/
def standard : DateTimes where
  ofNanos? nanos :=
    let seconds := nanos / Rfc3339.nanosPerSecond
    if firstSecond ≤ seconds ∧ seconds ≤ lastSecond then some (Moment.ofNanos nanos) else none
  rfc3339? m := if 0 ≤ m.date.year ∧ m.date.year ≤ 9999 then some m.text else none

end DateTimes

end PacketLayers
