/-! Dates and times, as configuration documents write them. The written form is the one that
messages show; it leaves out the parts of a second, and the second itself, where they are zero. -/

namespace TreeLint

structure Day where
  year : Nat
  month : Nat
  day : Nat
  deriving DecidableEq, Inhabited

structure Clock where
  hour : Nat
  minute : Nat
  second : Nat
  microsecond : Nat
  deriving DecidableEq, Inhabited

/-- A date, a time, or both. A date with a time may tell by how many minutes the time is ahead of
the common one. -/
inductive Moment where
  | day (day : Day)
  | clock (clock : Clock)
  | both (day : Day) (clock : Clock) (ahead : Option Int)
  deriving DecidableEq, Inhabited

namespace Moment

def dayParts (d : Day) : List String := [d.year, d.month, d.day].map toString

def clockParts (c : Clock) : List String :=
  let seconds := if c.microsecond ≠ 0 then [c.second, c.microsecond]
    else if c.second ≠ 0 then [c.second] else []
  ([c.hour, c.minute] ++ seconds).map toString

def minutesOfDay : Int := 1440

/-- The written form of the number of minutes that a time is ahead: whole days, and seconds. -/
def aheadText (minutes : Int) : String :=
  if minutes = 0 then "datetime.timezone.utc"
  else
    let days := minutes / minutesOfDay
    let seconds := minutes % minutesOfDay * 60
    let parts := (if days = 0 then [] else ["days=" ++ toString days])
      ++ if seconds = 0 then [] else ["seconds=" ++ toString seconds]
    "datetime.timezone(datetime.timedelta(" ++ ", ".intercalate parts ++ "))"

def call (kind : String) (parts : List String) : String :=
  "datetime." ++ kind ++ "(" ++ ", ".intercalate parts ++ ")"

def text : Moment → String
  | day d => call "date" (dayParts d)
  | clock c => call "time" (clockParts c)
  | both d c ahead => call "datetime" (dayParts d ++ clockParts c
      ++ (ahead.map fun minutes => "tzinfo=" ++ aheadText minutes).toList)

end Moment

end TreeLint
