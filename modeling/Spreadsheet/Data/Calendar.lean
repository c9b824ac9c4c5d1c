/-! Days of the Gregorian calendar, moments on them, and their texts. -/
namespace Spreadsheet.Calendar

structure Day where
  year : Nat
  month : Nat
  day : Nat
deriving DecidableEq

/-- A time on a day, by clocks so many minutes ahead of universal time where that is known. -/
structure Moment where
  day : Day
  hour : Nat
  minute : Nat
  second : Nat
  micros : Nat
  offset : Option Int
deriving DecidableEq

/-! ## Numbers of days -/

def isLeap (year : Nat) : Bool := year % 4 == 0 && (year % 100 != 0 || year % 400 == 0)

def monthLength (year month : Nat) : Nat :=
  if month = 2 then if isLeap year then 29 else 28
  else if month = 4 ∨ month = 6 ∨ month = 9 ∨ month = 11 then 30
  else 31

def daysBefore (year : Nat) : (month : Nat) → Nat
  | 0 => 0
  | 1 => 0
  | month + 1 => daysBefore year month + monthLength year month

/-- The count of days from the first day of year one. -/
def Day.number (d : Day) : Nat :=
  let years := d.year - 1
  years * 365 + years / 4 - years / 100 + years / 400 + daysBefore d.year d.month + (d.day - 1)

/-- The day so many days after the first of January 1970. Years are counted from March on, so that a
leap day ends its year; 400 of them have 146097 days. -/
def Day.ofEpoch (days : Nat) : Day :=
  let n := days + 719468
  let era := n / 146097
  let inEra := n % 146097
  let yearInEra := (inEra - inEra / 1460 + inEra / 36524 - inEra / 146096) / 365
  let inYear := inEra - (365 * yearInEra + yearInEra / 4 - yearInEra / 100)
  let fromMarch := (5 * inYear + 2) / 153
  let month := if fromMarch < 10 then fromMarch + 3 else fromMarch - 9
  ⟨era * 400 + yearInEra + (if month ≤ 2 then 1 else 0), month,
    inYear - (153 * fromMarch + 2) / 5 + 1⟩

/-- Microseconds from the beginning of year one by universal time. -/
def Moment.instant (m : Moment) (offset : Int) : Int :=
  let minutes : Int := (m.day.number * 24 + m.hour) * 60 + m.minute
  ((minutes - offset) * 60 + m.second) * 1000000 + m.micros

/-- Whether two moments are the same, for which both or neither has to tell its clock. -/
def Moment.agrees (m n : Moment) : Bool :=
  match m.offset, n.offset with
  | some a, some b => m.instant a == n.instant b
  | none, none => m == n
  | _, _ => false

/-! ## Texts -/

/-- The last digits of a number, with zeros in front. -/
def lastDigits : (width : Nat) → Nat → String
  | 0, _ => ""
  | width + 1, n => lastDigits width (n / 10) ++ toString (n % 10)

def Day.text (d : Day) : String :=
  lastDigits 4 d.year ++ "-" ++ lastDigits 2 d.month ++ "-" ++ lastDigits 2 d.day

def clockText (hour minute second : Nat) : String :=
  lastDigits 2 hour ++ ":" ++ lastDigits 2 minute ++ ":" ++ lastDigits 2 second

def offsetText (minutes : Int) : String :=
  (if minutes < 0 then "-" else "+") ++ lastDigits 2 (minutes.natAbs / 60) ++ ":" ++
    lastDigits 2 (minutes.natAbs % 60)

def Moment.text (m : Moment) : String :=
  m.day.text ++ " " ++ clockText m.hour m.minute m.second ++
    (if m.micros = 0 then "" else "." ++ lastDigits 6 m.micros) ++
    ((m.offset.map offsetText).getD "")

/-! ## Literals -/

def Day.literal (d : Day) : String := s!"datetime.date({d.year}, {d.month}, {d.day})"

/-- The notation in which messages show a duration: whole days, and the seconds beyond them. -/
def durationLiteral (minutes : Int) : String :=
  let days := Int.fdiv minutes 1440
  let seconds := Int.fmod minutes 1440 * 60
  let parts := (if days = 0 then [] else [s!"days={days}"]) ++
    if seconds = 0 then [] else [s!"seconds={seconds}"]
  "datetime.timedelta(" ++ (if parts.isEmpty then "0" else ", ".intercalate parts) ++ ")"

def offsetLiteral (minutes : Int) : String :=
  if minutes = 0 then "datetime.timezone.utc"
  else "datetime.timezone(" ++ durationLiteral minutes ++ ")"

/-- The notation in which messages show a moment. Seconds are left out if nothing follows them and
they are zero. -/
def Moment.literal (m : Moment) : String :=
  let fine :=
    if m.micros ≠ 0 then [m.second, m.micros] else if m.second ≠ 0 then [m.second] else []
  let numbers := [m.day.year, m.day.month, m.day.day, m.hour, m.minute] ++ fine
  let zone := (m.offset.map fun minutes => "tzinfo=" ++ offsetLiteral minutes).toList
  "datetime.datetime(" ++ ", ".intercalate (numbers.map toString ++ zone) ++ ")"

/-! ## Checks -/

inductive Fault where
  | year (given : Nat)
  | month
  | day
  | hour
  | minute
  | second
  /-- Clocks differ from universal time by less than a day. -/
  | offset (minutes : Int)
deriving DecidableEq

def Fault.message : Fault → String
  | .year given => s!"year {given} is out of range"
  | .month => "month must be in 1..12"
  | .day => "day is out of range for month"
  | .hour => "hour must be in 0..23"
  | .minute => "minute must be in 0..59"
  | .second => "second must be in 0..59"
  | .offset minutes =>
    "offset must be a timedelta strictly between -timedelta(hours=24) and timedelta(hours=24), " ++
      "not " ++ durationLiteral minutes ++ "."

/-- A day, if it is in the calendar of the years 1 to 9999. -/
def Day.checked (d : Day) : Except Fault Day :=
  if d.year < 1 ∨ 9999 < d.year then .error (.year d.year)
  else if d.month < 1 ∨ 12 < d.month then .error .month
  else if d.day < 1 ∨ monthLength d.year d.month < d.day then .error .day
  else .ok d

/-- A moment, if there is one on its day. Its clock is checked first. -/
def Moment.checked (m : Moment) : Except Fault Moment := do
  match m.offset with
  | some minutes => if 1440 ≤ minutes.natAbs then .error (.offset minutes)
  | none => .ok ()
  let _ ← m.day.checked
  if 23 < m.hour then .error .hour
  else if 59 < m.minute then .error .minute
  else if 59 < m.second then .error .second
  else .ok m

end Spreadsheet.Calendar
