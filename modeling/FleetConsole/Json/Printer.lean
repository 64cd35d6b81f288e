import FleetConsole.Json.Numeral
import FleetConsole.Json.Quoted

namespace FleetConsole.Json

mutual

/-- A value without blanks, in front of more text. -/
def write : Json → List Char → List Char
  | .null,rest => 'n' :: 'u' :: 'l' :: 'l' :: rest
  | .bool true,rest => 't' :: 'r' :: 'u' :: 'e' :: rest
  | .bool false,rest => 'f' :: 'a' :: 'l' :: 's' :: 'e' :: rest
  | .int n,rest => writeInt n++rest
  | .float x,rest => writeFloat x++rest
  | .str s,rest => writeQuoted s rest
  | .arr [],rest => '[' :: ']' :: rest
  | .arr (v :: items),rest => '[' :: v.write (writeItems items (']' :: rest))
  | .obj [],rest => '\x7b' :: '\x7d' :: rest
  | .obj ((name,v) :: members),rest =>
    '\x7b' :: writeQuoted name (':' :: v.write (writeMembers members ('\x7d' :: rest)))

def writeItems : List Json → List Char → List Char
  | [],rest => rest
  | v :: items,rest => ',' :: v.write (writeItems items rest)

def writeMembers : List (String × Json) → List Char → List Char
  | [],rest => rest
  | (name,v) :: members,rest =>
    ',' :: writeQuoted name (':' :: v.write (writeMembers members rest))

end

def compact (v : Json) : List Char := v.write []

/-- The start of a line. -/
def writeIndent (depth : Nat) (rest : List Char) : List Char :=
  '\n' :: List.replicate (2*depth) ' '++rest

mutual

/-- A value with each item and member on a line of its own, two blanks deeper than what
holds it. -/
def writePretty (depth : Nat) : Json → List Char → List Char
  | .arr (v :: items),rest =>
    '[' :: writeIndent (depth+1) (v.writePretty (depth+1)
      (writePrettyItems (depth+1) items (writeIndent depth (']' :: rest))))
  | .obj ((name,v) :: members),rest =>
    '\x7b' :: writeIndent (depth+1) (writeQuoted name (':' :: ' ' :: v.writePretty (depth+1)
      (writePrettyMembers (depth+1) members (writeIndent depth ('\x7d' :: rest)))))
  | v,rest => v.write rest

def writePrettyItems (depth : Nat) : List Json → List Char → List Char
  | [],rest => rest
  | v :: items,rest =>
    ',' :: writeIndent depth (v.writePretty depth (writePrettyItems depth items rest))

def writePrettyMembers (depth : Nat) : List (String × Json) → List Char → List Char
  | [],rest => rest
  | (name,v) :: members,rest =>
    ',' :: writeIndent depth (writeQuoted name (':' :: ' ' :: v.writePretty depth
      (writePrettyMembers depth members rest)))

end

def pretty (v : Json) : List Char := v.writePretty 0 []

end FleetConsole.Json
