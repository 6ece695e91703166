/-!
# Regraft.Moment -- dates and times

A moment is a day of the calendar, and perhaps a time of that day and the distance of its clock
from Greenwich.  `Moment.text` is how it is written, `Moment.parts` how it is shown inside another
value.
-/

namespace Regraft

set_option autoImplicit false

/-- A time of day; the distance from Greenwich is in minutes. -/
structure Moment.Time where
  hour : Nat
  minute : Nat
  second : Nat
  micro : Nat
  offset : Option Int
  deriving DecidableEq

/-- A day of the calendar, perhaps with a time. -/
structure Moment where
  year : Nat
  month : Nat
  day : Nat
  time : Option Moment.Time
  deriving DecidableEq

namespace Moment

/-- A duration in days and seconds, of which only the days can be negative. -/
def durationText (minutes : Int) : String :=
  let days := minutes / 1440
  let seconds := minutes % 1440 * 60
  let parts := (if days = 0 then [] else ["days=" ++ toString days]) ++
    (if seconds = 0 then [] else ["seconds=" ++ toString seconds])
  "datetime.timedelta(" ++ (if parts.isEmpty then "0" else ", ".intercalate parts) ++ ")"

def padded (width n : Nat) : String :=
  let ds := Nat.toDigits 10 n
  String.ofList (List.replicate (width - ds.length) '0' ++ ds)

/-- A distance from Greenwich in hours and minutes. -/
def offsetText (minutes : Int) : String :=
  (if minutes < 0 then "-" else "+") ++ padded 2 (minutes.natAbs / 60) ++ ":" ++
    padded 2 (minutes.natAbs % 60)

def Time.text (t : Time) : String :=
  padded 2 t.hour ++ ":" ++ padded 2 t.minute ++ ":" ++ padded 2 t.second ++
    (if t.micro = 0 then "" else "." ++ padded 6 t.micro) ++
    (match t.offset with
      | none => ""
      | some minutes => offsetText minutes)

def text (m : Moment) : String :=
  padded 4 m.year ++ "-" ++ padded 2 m.month ++ "-" ++ padded 2 m.day ++
    (match m.time with
      | none => ""
      | some t => " " ++ t.text)

/-- A clock as it is shown in parts. -/
def zoneParts (minutes : Int) : String :=
  if minutes = 0 then "datetime.timezone.utc"
  else "datetime.timezone(" ++ durationText minutes ++ ")"

/-- A moment as it is shown in parts, without those at the end that are zero. -/
def parts (m : Moment) : String :=
  let day := [m.year, m.month, m.day].map toString
  match m.time with
  | none => "datetime.date(" ++ ", ".intercalate day ++ ")"
  | some t =>
      let fine := if t.micro ≠ 0 then [t.second, t.micro]
        else if t.second ≠ 0 then [t.second] else []
      let zone := t.offset.toList.map fun minutes => "tzinfo=" ++ zoneParts minutes
      "datetime.datetime(" ++
        ", ".intercalate (day ++ ([t.hour, t.minute] ++ fine).map toString ++ zone) ++ ")"

end Moment

end Regraft
