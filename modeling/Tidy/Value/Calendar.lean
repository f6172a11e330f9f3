/-!
# Dates and times

Days of the calendar, times of the day and offsets from universal time, with the
two ways in which messages show them.
-/

namespace Tidy

structure Date where
  year : Nat
  month : Nat
  day : Nat
  deriving DecidableEq

structure Time where
  hour : Nat
  minute : Nat
  second : Nat
  microsecond : Nat
  deriving DecidableEq

def zeroPadded (width number : Nat) : String :=
  let digits := Nat.toDigits 10 number
  String.ofList (List.replicate (width - digits.length) '0' ++ digits)

namespace Date

def isLeapYear (year : Nat) : Bool :=
  year % 4 == 0 && (year % 100 != 0 || year % 400 == 0)

def monthLength (year month : Nat) : Nat :=
  if month == 2 then if isLeapYear year then 29 else 28
  else if [4, 6, 9, 11].contains month then 30
  else 31

def isValid (date : Date) : Bool :=
  1 ≤ date.year && 1 ≤ date.month && date.month ≤ 12 && 1 ≤ date.day &&
    date.day ≤ monthLength date.year date.month

def plain (date : Date) : String :=
  zeroPadded 4 date.year ++ "-" ++ zeroPadded 2 date.month ++ "-" ++ zeroPadded 2 date.day

/-- The numbers of the date. -/
def numbers (date : Date) : List Nat :=
  [date.year, date.month, date.day]

end Date

namespace Time

def plain (time : Time) : String :=
  let whole :=
    zeroPadded 2 time.hour ++ ":" ++ zeroPadded 2 time.minute ++ ":" ++ zeroPadded 2 time.second
  if time.microsecond == 0 then whole else whole ++ "." ++ zeroPadded 6 time.microsecond

/-- The numbers of the time, without the zeros behind the minutes. -/
def numbers (time : Time) : List Nat :=
  if time.microsecond != 0 then [time.hour, time.minute, time.second, time.microsecond]
  else if time.second != 0 then [time.hour, time.minute, time.second]
  else [time.hour, time.minute]

end Time

/-- An offset in minutes as sign, hours and minutes. -/
def plainOffset (minutes : Int) : String :=
  let size := minutes.natAbs
  (if minutes < 0 then "-" else "+") ++ zeroPadded 2 (size / 60) ++ ":" ++
    zeroPadded 2 (size % 60)

/-- An offset in minutes, spelled out; a negative one as a day less the rest. -/
def shownOffset (minutes : Int) : String :=
  if minutes == 0 then "datetime.timezone.utc"
  else
    let delta :=
      if minutes < 0 then "days=-1, seconds=" ++ toString (86400 + minutes * 60)
      else "seconds=" ++ toString (minutes * 60)
    "datetime.timezone(datetime.timedelta(" ++ delta ++ "))"

end Tidy
