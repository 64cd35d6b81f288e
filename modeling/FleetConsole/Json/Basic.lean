import FleetConsole.Number.Binary64
import FleetConsole.SortedMap

namespace FleetConsole

/-- A JSON value. Members keep the order and the repetitions of the text they come from. -/
inductive Json where
  | null
  | bool (value : Bool)
  | int (value : Int)
  | float (value : Binary64)
  | str (value : String)
  | arr (items : List Json)
  | obj (members : List (String × Json))

namespace Json

mutual

/-- Members in key order, each key once and with the value given last, at every level. -/
def sorted : Json → Json
  | .arr items => .arr (sortedItems items)
  | .obj members => .obj (SortedMap.ofList (sortedMembers members)).entries
  | v => v

def sortedItems : List Json → List Json
  | [] => []
  | v :: rest => v.sorted :: sortedItems rest

def sortedMembers : List (String × Json) → List (String × Json)
  | [] => []
  | (key,v) :: rest => (key,v.sorted) :: sortedMembers rest

end

end Json

end FleetConsole
