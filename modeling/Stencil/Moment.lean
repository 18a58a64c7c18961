import Stencil.Text.Digit

/-!
# Moments

Days of the Gregorian calendar and times of such days, to the microsecond. A time may know how far its clock is ahead of
universal time; two times that both know it are the same if they are the same instant, whatever their clocks show.
-/

namespace Stencil

/-- A day of the calendar. -/
structure Day where
  year : Nat
  month : Nat
  day : Nat
  deriving DecidableEq

/-- A time of day. -/
structure Clock where
  hour : Nat
  minute : Nat
  second : Nat
  microsecond : Nat
  /-- How many minutes the clock is ahead of universal time, if that is known. -/
  ahead : Option Int
  deriving DecidableEq

/-- A day, or a time of a day. -/
structure Moment where
  /-- The day. -/
  day : Day
  /-- The time of the day. -/
  clock : Option Clock
  deriving DecidableEq

/-- Why numbers make no moment. -/
inductive Moment.Invalid
  | year (n : Nat)
  | month
  | day
  | hour
  | minute
  | second
  /-- The clock is a whole day or more from universal time. -/
  | ahead (minutes : Int)
  deriving DecidableEq

/-- The numeral of a number with zeros in front, up to a width. -/
def Text.padded (width n : Nat) : Text :=
  let digits := numeral n
  List.replicate (width - digits.length) '0' ++ digits

namespace Day

/-- Whether a year has a day more than others. -/
def isLeap (year : Nat) : Bool := year % 4 = 0 && (year % 100 ≠ 0 || year % 400 = 0)

/-- The lengths of the months of a year. -/
def monthLengths (year : Nat) : List Nat := [31, if isLeap year then 29 else 28, 31, 30, 31, 30, 31, 31, 30, 31, 30, 31]

/-- How many days a day comes after the last one before the calendar. -/
def ordinal (d : Day) : Nat :=
  let before := d.year - 1
  let months := (monthLengths d.year).take (d.month - 1)
  months.foldl (· + ·) (before * 365 + before / 4 - before / 100 + before / 400) + d.day

/-- What keeps numbers from being a day. -/
def invalid? (d : Day) : Option Moment.Invalid :=
  if d.year = 0 then some (.year d.year)
  else if d.month = 0 || 12 < d.month then some .month
  else if d.day = 0 || ((monthLengths d.year)[d.month - 1]?).getD 0 < d.day then some .day
  else none

end Day

namespace Clock

/-- What keeps numbers from being a time of day, the distance from universal time apart. -/
def invalid? (c : Clock) : Option Moment.Invalid :=
  if 23 < c.hour then some .hour
  else if 59 < c.minute then some .minute
  else if 59 < c.second then some .second
  else none

/-- What keeps minutes from being a distance from universal time. -/
def invalidAhead? (c : Clock) : Option Moment.Invalid :=
  c.ahead.bind fun minutes => if 1440 ≤ minutes.natAbs then some (.ahead minutes) else none

/-- The seconds that a clock shows since midnight. -/
def seconds (c : Clock) : Nat := (c.hour * 60 + c.minute) * 60 + c.second

end Clock

namespace Moment

/-- A distance of minutes as it is shown: whole days, which may be negative, and seconds. -/
def spanShown (minutes : Int) : Text :=
  let days := minutes / 1440
  let seconds := minutes % 1440 * 60
  let parts : List Text :=
    (if days = 0 then [] else ["days=" ++ Text.integerNumeral days]) ++
      (if seconds = 0 then [] else ["seconds=" ++ Text.integerNumeral seconds])
  "datetime.timedelta(" ++ (if parts.isEmpty then ['0'] else Text.joined ", ".toList parts) ++ ")".toList

/-- Why numbers make no moment, in words. -/
def Invalid.message : Invalid → Text
  | year n => "year " ++ Text.numeral n ++ " is out of range".toList
  | month => "month must be in 1..12".toList
  | day => "day is out of range for month".toList
  | hour => "hour must be in 0..23".toList
  | minute => "minute must be in 0..59".toList
  | second => "second must be in 0..59".toList
  | ahead minutes =>
    "offset must be a timedelta strictly between -timedelta(hours=24) and timedelta(hours=24), not " ++
      spanShown minutes ++ ['.']

/-- A moment whose numbers are in range. The distance from universal time is looked at first. -/
def checked (m : Moment) : Except Invalid Moment :=
  match (m.clock.bind Clock.invalidAhead?).or (m.day.invalid?.or (m.clock.bind Clock.invalid?)) with
  | some e => .error e
  | none => .ok m

/-- The microseconds of a time from the last midnight before the calendar, by universal time if the distance is known. -/
def instant (d : Day) (c : Clock) : Int :=
  ((d.ordinal * 86400 + c.seconds : Nat) - c.ahead.getD 0 * 60) * 1000000 + c.microsecond

/-- Whether two moments are the same. A day is not the same as any time of it. -/
def same (m n : Moment) : Bool :=
  match m.clock, n.clock with
  | none, none => m.day = n.day
  | some c, some d => c.ahead.isSome = d.ahead.isSome && instant m.day c = instant n.day d
  | _, _ => false

/-- A distance from universal time as it is written. -/
def aheadText (minutes : Int) : Text :=
  (if minutes < 0 then '-' else '+') :: Text.padded 2 (minutes.natAbs / 60) ++ ':' :: Text.padded 2 (minutes.natAbs % 60)

/-- A moment as it is written into output. A fraction of a second is left out if it is zero. -/
def toText (m : Moment) : Text :=
  let day := Text.padded 4 m.day.year ++ '-' :: Text.padded 2 m.day.month ++ '-' :: Text.padded 2 m.day.day
  match m.clock with
  | none => day
  | some c =>
    day ++ ' ' :: Text.padded 2 c.hour ++ ':' :: Text.padded 2 c.minute ++ ':' :: Text.padded 2 c.second ++
      (if c.microsecond = 0 then [] else '.' :: Text.padded 6 c.microsecond) ++ (c.ahead.map aheadText).getD []

/-- A moment as it is shown inside messages and containers: its numbers, without zero seconds at the end, and the distance
from universal time. -/
def shown (m : Moment) : Text :=
  let day := [m.day.year, m.day.month, m.day.day].map Text.numeral
  match m.clock with
  | none => "datetime.date(" ++ Text.joined ", ".toList day ++ ")".toList
  | some c =>
    let seconds := if c.microsecond = 0 then (if c.second = 0 then [] else [c.second]) else [c.second, c.microsecond]
    let ahead : List Text :=
      match c.ahead with
      | none => []
      | some 0 => ["tzinfo=datetime.timezone.utc".toList]
      | some minutes => ["tzinfo=datetime.timezone(" ++ spanShown minutes ++ ")".toList]
    "datetime.datetime(" ++ Text.joined ", ".toList (day ++ ([c.hour, c.minute] ++ seconds).map Text.numeral ++ ahead) ++
      ")".toList

end Moment

end Stencil
