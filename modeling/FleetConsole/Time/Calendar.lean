namespace FleetConsole

/-- A date of the proleptic Gregorian calendar. The year before year 1 is year 0. -/
structure Date where
  year : Int
  month : Nat
  day : Nat
  deriving DecidableEq, Repr

namespace Date

def isLeapYear (year : Int) : Bool := decide (year%4=0 ∧ (year%100≠0 ∨ year%400=0))

def monthLength (year : Int) (month : Nat) : Nat :=
  if month=2 then if isLeapYear year then 29 else 28
  else if month=4 ∨ month=6 ∨ month=9 ∨ month=11 then 30
  else 31

def minYear : Int := -262143

def maxYear : Int := 262142

/-- A day that exists, in a year that dates are kept for. -/
def isValid (d : Date) : Bool :=
  decide (minYear ≤ d.year ∧ d.year ≤ maxYear ∧ 1 ≤ d.month ∧ d.month ≤ 12 ∧
    1 ≤ d.day ∧ d.day ≤ monthLength d.year d.month)

/-- Days before a month, in years that begin with March: the leap day comes last. -/
def daysBeforeMonth (shifted : Nat) : Nat := (153*shifted+2)/5

/-- Days since the first of January 1970. -/
def toDays (d : Date) : Int :=
  let year := if d.month ≤ 2 then d.year-1 else d.year
  let shifted := if d.month ≤ 2 then d.month+9 else d.month-3
  365*year+year/4-year/100+year/400+daysBeforeMonth shifted+(d.day : Int)-719469

/-- Years from March come in cycles of 400, those in centuries and these in groups of four. Only
the last part of each can have a day more, which the minimum keeps inside. -/
def ofDays (days : Int) : Date :=
  let cycle := (days+719468)/146097
  let ofCycle := ((days+719468)%146097).toNat
  let century := min 3 (ofCycle/36524)
  let ofCentury := ofCycle-36524*century
  let group := ofCentury/1461
  let ofGroup := ofCentury%1461
  let yearOfGroup := min 3 (ofGroup/365)
  let ofYear := ofGroup-365*yearOfGroup
  let shifted := (5*ofYear+2)/153
  let month := if shifted<10 then shifted+3 else shifted-9
  let year : Int := 400*cycle+100*century+4*group+yearOfGroup
  ⟨if month ≤ 2 then year+1 else year,month,ofYear-daysBeforeMonth shifted+1⟩

end Date

end FleetConsole
