import FleetConsole.Text.Blank
import FleetConsole.Time.Instant

namespace FleetConsole.Timestamp

def isDigit (c : Char) : Bool := (Text.digit? c).isSome

/-- The value of the leading digits, of which there has to be one and at most `limit` count. -/
def readDigits? (limit : Option Nat) (text : List Char) : Option (Nat × List Char) :=
  let all := text.takeWhile isDigit
  let used := match limit with
    | some n => all.take n
    | none => all
  if used=[] then none
  else (Text.digitsFrom? 0 used).map (fun n => (n,text.drop used.length))

/-- A number of one or two digits within bounds. -/
def readField? (low high : Nat) (text : List Char) : Option (Nat × List Char) := do
  let (n,rest) ← readDigits? (some 2) (Text.trimLeft text)
  if low ≤ n ∧ n ≤ high then some (n,rest) else none

/-- A sign lifts the bound of four digits. -/
def readYear? (text : List Char) : Option (Int × List Char) :=
  match Text.trimLeft text with
  | '-' :: rest => (readDigits? none rest).map (fun (n,rest) => (-(n : Int),rest))
  | '+' :: rest => (readDigits? none rest).map (fun (n,rest) => ((n : Int),rest))
  | rest => (readDigits? (some 4) rest).map (fun (n,rest) => ((n : Int),rest))

def readMark? (mark : Char) (text : List Char) : Option (List Char) :=
  match Text.trimLeft text with
  | [] => none
  | c :: rest => if c=mark then some rest else none

def readDate? (text : List Char) : Option (Date × List Char) := do
  let (year,rest) ← readYear? text
  let rest ← readMark? '-' rest
  let (month,rest) ← readField? 1 12 rest
  let rest ← readMark? '-' rest
  let (day,rest) ← readField? 1 31 rest
  let date : Date := ⟨year,month,day⟩
  if date.isValid then some (date,rest) else none

/-- Nine digits of a fraction count and the others are passed over. -/
def readFraction? (text : List Char) : Option (Nat × List Char) :=
  match text with
  | '.' :: rest => do
    let digits := rest.takeWhile isDigit
    let used := digits.take 9
    if used=[] then none
    else
      let n ← Text.digitsFrom? 0 used
      some (n*Text.placeValue (9-used.length),rest.drop digits.length)
  | _ => some (0,text)

/-- Seconds of the day and nanoseconds. Second 60 is the leap second after second 59. -/
def readTime? (text : List Char) : Option ((Nat × Nat) × List Char) := do
  let (hour,rest) ← readField? 0 23 text
  let rest ← readMark? ':' rest
  let (minute,rest) ← readField? 0 59 rest
  let rest ← readMark? ':' rest
  let (second,rest) ← readField? 0 60 rest
  let (nanos,rest) ← readFraction? rest
  let leap := second/60
  some ((3600*hour+60*minute+second-leap,nanos+leap*nanosPerSecond),rest)

def readTwoDigits? : List Char → Option (Nat × List Char)
  | a :: b :: rest => do
    let high ← Text.digit? a
    let low ← Text.digit? b
    some (10*high+low,rest)
  | _ => none

/-- Hours and minutes of an offset, in seconds. -/
def readOffsetSize? (text : List Char) : Option (Nat × List Char) := do
  let (hours,rest) ← readTwoDigits? text
  let (minutes,rest) ← readTwoDigits? (rest.dropWhile (fun c => c == ':' || Text.isBlank c))
  if hours<24 ∧ minutes<60 then some (3600*hours+60*minutes,rest) else none

/-- Seconds east of UTC. -/
def readOffset? (text : List Char) : Option (Int × List Char) :=
  if (text.take 3).map Char.toUpper=['U','T','C'] then some (0,text.drop 3)
  else match text with
    | [] => none
    | c :: rest =>
      if c = 'Z' ∨ c = 'z' then some (0,rest)
      else if c = '+' then (readOffsetSize? rest).map (fun (n,rest) => ((n : Int),rest))
      else if c = '-' ∨ c = '\u2212' then (readOffsetSize? rest).map (fun (n,rest) => (-(n : Int),rest))
      else none

/-- Reads a whole text. The moment has to lie in the years that dates are kept for in UTC
as well as where it was written. -/
def read? (text : List Char) : Option Instant := do
  let (date,rest) ← readDate? text
  let rest ← match rest with
    | [] => none
    | c :: rest => if c = 'T' ∨ c = 't' ∨ c = ' ' then some rest else none
  let ((second,nanos),rest) ← readTime? rest
  let (offset,rest) ← readOffset? (Text.trimLeft rest)
  if Text.trimLeft rest≠[] then none
  else
    let moment : Instant := ⟨date.toDays*secondsPerDay+second-offset,nanos⟩
    if moment.date.isValid then some moment else none

/-- Years of four digits stand alone; the others have a sign. -/
def writeYear (year : Int) : List Char :=
  if 0 ≤ year ∧ year ≤ 9999 then Text.padded 4 year.natAbs
  else (if year<0 then '-' else '+') :: Text.padded 4 year.natAbs

/-- None, three, six or nine digits: the fewest that lose nothing. -/
def writeFraction (nanos : Nat) : List Char :=
  if nanos=0 then []
  else if nanos%1000000=0 then '.' :: Text.padded 3 (nanos/1000000)
  else if nanos%1000=0 then '.' :: Text.padded 6 (nanos/1000)
  else '.' :: Text.padded 9 nanos

/-- Date and time in UTC, without the zone. -/
def writeLocal (t : Instant) : List Char :=
  let date := t.date
  let time := t.timeOfDay
  let leap := t.nanos/nanosPerSecond
  writeYear date.year ++ '-' :: Text.padded 2 date.month ++ '-' :: Text.padded 2 date.day++
    'T' :: Text.padded 2 time.hour ++ ':' :: Text.padded 2 time.minute++
    ':' :: Text.padded 2 (time.second+leap)++writeFraction (t.nanos%nanosPerSecond)

def write (t : Instant) : List Char := writeLocal t++['Z']

/-- The same with the zone as an offset. -/
def writeWithOffset (t : Instant) : List Char := writeLocal t++"+00:00".toList

end FleetConsole.Timestamp
