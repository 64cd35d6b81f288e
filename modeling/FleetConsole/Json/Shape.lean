import FleetConsole.Json.Basic

namespace FleetConsole.Json

def string? : Json → Option String
  | .str s => some s
  | _ => none

def uint32? : Json → Option UInt32
  | .int n => if 0 ≤ n ∧ n<UInt32.size then some (UInt32.ofNat n.toNat) else none
  | _ => none

def uint64? : Json → Option UInt64
  | .int n => if 0 ≤ n ∧ n<UInt64.size then some (UInt64.ofNat n.toNat) else none
  | _ => none

/-- Whole numbers are read as floating-point numbers too. -/
def float? : Json → Option Binary64
  | .float x => some x
  | .int n =>
    let x := Binary64.ofNat n.natAbs
    some (if n<0 then x.neg else x)
  | _ => none

/-- The one value under a name; a name given twice has none. -/
def member? (name : String) (members : List (String × Json)) : Option Json :=
  match members.filter (fun m => m.1==name) with
  | [(_,v)] => some v
  | _ => none

/-- The values of a record's fields, from an object that may hold more, or from the bare
list of them. -/
def record? (names : List String) : Json → Option (List Json)
  | .obj members => names.mapM (fun name => member? name members)
  | .arr items => if items.length=names.length then some items else none
  | _ => none

/-- Separates the tag from the content: a member of an object or the head of a list. -/
def untag? (key : String) : Json → Option (Json × Json)
  | .obj members =>
    (member? key members).map (fun tag => (tag,.obj (members.filter (fun m => m.1 != key))))
  | .arr (tag :: items) => some (tag,.arr items)
  | _ => none

/-- Content of a tag that stands alone: members do not matter, items there may be none. -/
def isBare : Json → Bool
  | .obj _ => true
  | .arr [] => true
  | _ => false

end FleetConsole.Json
