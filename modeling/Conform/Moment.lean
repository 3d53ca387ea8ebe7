import Conform.Text

/-!
Dates and times of day, as documents may hold them through an explicit tag.
-/
namespace Conform

structure Date where
  year : Nat
  month : Nat
  day : Nat
deriving DecidableEq, Repr

structure Time where
  hour : Nat
  minute : Nat
  second : Nat
  microsecond : Nat
  /-- The distance from universal time in minutes, if a zone was given. -/
  offset : Option Int
deriving DecidableEq, Repr

/-- A date, with or without a time of day. -/
structure Moment where
  date : Date
  time : Option Time
deriving DecidableEq, Repr

namespace Date

def isLeap (year : Nat) : Bool := year % 4 == 0 && (year % 100 != 0 || year % 400 == 0)

def daysIn (year month : Nat) : Nat :=
  if month == 2 then (if isLeap year then 29 else 28)
  else if month == 4 || month == 6 || month == 9 || month == 11 then 30
  else 31

def display (d : Date) : Text :=
  Text.padLeft '0' 4 (Text.ofNat d.year) ++ "-" ++ Text.padLeft '0' 2 (Text.ofNat d.month) ++ "-"
    ++ Text.padLeft '0' 2 (Text.ofNat d.day)

/-- The month and day that lie some days after the first day of a month. The number of months to
come bounds the search. -/
def inMonth (year : Nat) : Nat → Nat → Nat → Date
  | 0, month, days => ⟨year, month, days + 1⟩
  | fuel + 1, month, days =>
    if days < daysIn year month then ⟨year, month, days + 1⟩
    else inMonth year fuel (month + 1) (days - daysIn year month)

/-- The date some days after the first day of year one. Four centuries have 146097 days, and all but
the last of their centuries and of the years in every four are shorter by one. -/
def ofOrdinal (days : Nat) : Date :=
  let inEra := days % 146097
  let century := min (inEra / 36524) 3
  let inCentury := inEra - century * 36524
  let inFour := inCentury % 1461
  let year := min (inFour / 365) 3
  inMonth (days / 146097 * 400 + century * 100 + inCentury / 1461 * 4 + year + 1) 11 1
    (inFour - year * 365)

/-- The number of days since the first day of year one. -/
def ordinal (d : Date) : Nat :=
  let y := d.year - 1
  let before := (List.range (d.month - 1)).foldl (fun n m => n + daysIn d.year (m + 1)) 0
  y * 365 + y / 4 - y / 100 + y / 400 + before + (d.day - 1)

end Date

namespace Time

def two (n : Nat) : Text := Text.padLeft '0' 2 (Text.ofNat n)

def displayOffset (m : Int) : Text :=
  (if m < 0 then "-" else "+") ++ two (m.natAbs / 60) ++ ":" ++ two (m.natAbs % 60)

def display (t : Time) : Text :=
  two t.hour ++ ":" ++ two t.minute ++ ":" ++ two t.second
    ++ (if t.microsecond = 0 then [] else "." ++ Text.padLeft '0' 6 (Text.ofNat t.microsecond))
    ++ (match t.offset with | none => [] | some m => displayOffset m)

end Time

namespace Moment

/-- Why a date or a time of day does not exist. -/
inductive Fault where
  | year (n : Nat)
  | month
  | day
  | hour
  | minute
  | second
  /-- A zone that is a day or more away from universal time. -/
  | offset (minutes : Int)
deriving DecidableEq, Repr

namespace Fault

/-- A number of minutes as a call that would build the span: days, which may be negative, and
seconds of the day. -/
def span (minutes : Int) : Text :=
  let days := minutes.fdiv 1440
  let seconds := minutes.fmod 1440 * 60
  "datetime.timedelta(days=" ++ Text.ofInt days
    ++ (if seconds = 0 then [] else ", seconds=" ++ Text.ofInt seconds) ++ ")"

def message : Fault → Text
  | year n => "year " ++ Text.ofNat n ++ " is out of range"
  | month => "month must be in 1..12"
  | day => "day is out of range for month"
  | hour => "hour must be in 0..23"
  | minute => "minute must be in 0..59"
  | second => "second must be in 0..59"
  | offset minutes =>
    Text.ofString ("offset must be a timedelta strictly between -timedelta(hours=24) and "
      ++ "timedelta(hours=24), not ") ++ span minutes ++ "."

end Fault

/-- The first thing that is wrong: with the zone, the date, or the time of day. -/
def fault? (m : Moment) : Option Fault :=
  let zone : Option Fault := match m.time.bind Time.offset with
    | some n => if n.natAbs < 1440 then none else some (.offset n)
    | none => none
  let date : Option Fault :=
    if m.date.year = 0 then some (.year m.date.year)
    else if m.date.month = 0 ∨ 12 < m.date.month then some .month
    else if m.date.day = 0 ∨ Date.daysIn m.date.year m.date.month < m.date.day then some .day
    else none
  let time : Option Fault := match m.time with
    | none => none
    | some t =>
      if 24 ≤ t.hour then some .hour
      else if 60 ≤ t.minute then some .minute
      else if 60 ≤ t.second then some .second
      else none
  zone.or (date.or time)

def display (m : Moment) : Text :=
  match m.time with
  | none => m.date.display
  | some t => m.date.display ++ " " ++ t.display

/-- The moment as a call that would build it. -/
def quoted (m : Moment) : Text :=
  let n := Text.ofNat
  let date := n m.date.year ++ ", " ++ n m.date.month ++ ", " ++ n m.date.day
  match m.time with
  | none => "datetime.date(" ++ date ++ ")"
  | some t =>
    let fraction := if t.microsecond = 0 then [] else ", " ++ n t.microsecond
    let seconds := if t.second = 0 ∧ t.microsecond = 0 then [] else ", " ++ n t.second
    let zone : Text := match t.offset with
      | none => []
      | some 0 => ", tzinfo=datetime.timezone.utc"
      | some m =>
        let span : Text :=
          if m < 0 then
            "days=-1, seconds=" ++ Text.ofInt (86400 + m * 60)
          else "seconds=" ++ Text.ofInt (m * 60)
        ", tzinfo=datetime.timezone(datetime.timedelta(" ++ span ++ "))"
    "datetime.datetime(" ++ date ++ ", " ++ n t.hour ++ ", " ++ n t.minute ++ seconds ++ fraction
      ++ zone ++ ")"

/-- The text of the time some milliseconds after the beginning of 1970, in universal time. -/
def stamp (milliseconds : Nat) : Text :=
  let seconds := milliseconds / 1000
  let two (n : Nat) : Text := Text.padLeft '0' 2 (Text.ofNat n)
  (Date.ofOrdinal (719162 + seconds / 86400)).display ++ "T" ++ two (seconds / 3600 % 24) ++ ":"
    ++ two (seconds / 60 % 60) ++ ":" ++ two (seconds % 60) ++ "."
    ++ Text.padLeft '0' 3 (Text.ofNat (milliseconds % 1000)) ++ "Z"

/-- Microseconds since the first day of year one, in universal time. -/
def instant (m : Moment) : Int :=
  match m.time with
  | none => m.date.ordinal * 86400000000
  | some t =>
    let seconds : Int := m.date.ordinal * 86400 + t.hour * 3600 + t.minute * 60 + t.second
      - t.offset.getD 0 * 60
    seconds * 1000000 + t.microsecond

/-- Equality of moments: two times with zones are compared as instants. -/
def same (a b : Moment) : Bool :=
  match a.time, b.time with
  | some s, some t =>
    if s.offset.isSome && t.offset.isSome then a.instant == b.instant else a == b
  | _, _ => a == b

end Moment
end Conform
