import FleetConsole.Json.Printer
import FleetConsole.Json.Shape
import FleetConsole.Json.Tagged
import FleetConsole.RateLimit

namespace FleetConsole

/-- A settings file is shared with other programs: all that is not ours is kept. -/
structure Settings where
  rateLimit : Option RateLimit
  other : SortedMap String Json

namespace Settings

def empty : Settings := ⟨none,SortedMap.empty⟩

def isEmpty (s : Settings) : Bool := s.rateLimit.isNone && s.other.isEmpty

def setRateLimit (s : Settings) (limit : RateLimit) : Settings := { s with rateLimit := some limit }

def limitKey : String := "console_rate_limit"

/-- A limit is a whole number of 32 bits, or null for none. -/
def readLimit (text : List Char) : Except Json.Fault (Option RateLimit × List Char) :=
  match text with
  | [] => .error .ended
  | c :: rest =>
    if c = 'n' then (Json.readWord ['u','l','l'] rest).map (fun rest => (none,rest))
    else if c = '-' ∨ Json.isDigit c then
      match Json.readNumber text with
      | .error fault => .error fault
      | .ok (v,rest) =>
        match v.uint32? with
        | some kb => .ok (some ⟨kb⟩,rest)
        | none => .error .mismatched
    else .error (Json.wrongKind text)

/-- What has been read of the members: our own, if it was met, and the others, last first. -/
structure Members where
  limit : Option (Option RateLimit)
  other : List (String × Json)

/-- A second limit is refused at its name. -/
def readMember (state : Members) (name : String) (text : List Char) :
    Except Json.Fault (Members × List Char) :=
  if name=limitKey then
    if state.limit.isSome then .error .mismatched
    else do
      let (limit,rest) ← readLimit (← Json.readColon text)
      .ok ({ state with limit := some limit },rest)
  else do
    let (v,rest) ← Json.readValue (Json.maxDepth-1) (← Json.readColon text)
    .ok ({ state with other := (name,v) :: state.other },rest)

def ofMembers (m : Members) : Settings :=
  ⟨m.limit.join,SortedMap.ofList (Json.sortedMembers m.other.reverse)⟩

/-- Reads settings from a whole text, which has to be an object. -/
def read (text : List Char) : Except Json.Fault Settings :=
  let text := Json.skipSpace text
  match text with
  | [] => .error .ended
  | c :: rest =>
    if c = '\x7b' then
      match Json.readMembers readMember ⟨none,[]⟩ rest with
      | .error fault => .error fault
      | .ok (members,rest) => Json.readEnd (ofMembers members) rest
    else .error (Json.wrongKind text)

/-- Our own member comes first. -/
def toJson (s : Settings) : Json :=
  .obj ((s.rateLimit.map (fun limit => (limitKey,Json.int limit.kbPerSec.toNat))).toList++
    s.other.entries)

def write (s : Settings) : List Char := s.toJson.pretty

end Settings

end FleetConsole
