import FleetConsole.Text.Fields

namespace FleetConsole

/-- A path as it is written, cut at its slashes. An absolute path has an empty piece in front. -/
structure FilePath where
  pieces : List String
  deriving DecidableEq, Repr

namespace FilePath

def ofString (s : String) : FilePath := ⟨(Text.fields '/' s.toList).map String.ofList⟩

def toString (p : FilePath) : String :=
  String.ofList (Text.joinFields '/' (p.pieces.map String.toList))

/-- Nothing of a path is lost by cutting it. -/
theorem toString_ofString (s : String) : (ofString s).toString=s := by
  have h : (fun field => (String.ofList field).toList)=(id : List Char → List Char) :=
    funext fun _ => String.toList_ofList
  simp only [toString,ofString,List.map_map]
  change String.ofList (Text.joinFields '/' ((Text.fields '/' s.toList).map
    (fun field => (String.ofList field).toList)))=s
  rw [h,List.map_id,Text.joinFields_fields,String.ofList_toList]

def root : FilePath := ⟨["",""]⟩

def empty : FilePath := ⟨[""]⟩

def isEmpty : FilePath → Bool
  | ⟨[]⟩ => true
  | ⟨[piece]⟩ => piece == ""
  | _ => false

def isAbsolute : FilePath → Bool
  | ⟨piece :: _ :: _⟩ => piece == ""
  | _ => false

/-- Empty pieces and single dots lead nowhere. -/
def isIdle (piece : String) : Bool := piece == "" || piece == "."

/-- The pieces that lead somewhere: down, or up for two dots. -/
def names (p : FilePath) : List String := p.pieces.filter (fun piece => !isIdle piece)

/-- A path with an idle end can only be that of a directory. -/
def endsIdle (p : FilePath) : Bool := p.pieces.getLast?.any isIdle

/-- Bytes in the longest path, and in the longest name. -/
def maxBytes : Nat := 4095

def maxNameBytes : Nat := 255

/-- What is longer, or has a zero character in it, is the path of nothing. -/
def isSound (p : FilePath) : Bool :=
  p.toString.utf8ByteSize ≤ maxBytes && !p.toString.toList.contains '\x00'

def isTooLong (name : String) : Bool := maxNameBytes<name.utf8ByteSize

/-- The pieces up to the last name, that name first. -/
def fromLastName (p : FilePath) : List String := p.pieces.reverse.dropWhile isIdle

/-- The path without its last name. -/
def parent (p : FilePath) : FilePath :=
  match p.fromLastName.tail.dropWhile isIdle with
  | [] => if p.isAbsolute then root else empty
  | above => ⟨above.reverse⟩

/-- A path that goes on with more names. -/
def append (p : FilePath) (names : List String) : FilePath :=
  if p.isEmpty then ⟨names⟩ else ⟨p.pieces++names⟩

/-- A name without its extension. A dot in front starts no extension. -/
def stem (name : String) : String :=
  let behind := name.toList.reverse.dropWhile (fun c => c != '.')
  match behind with
  | _ :: c :: rest => String.ofList (c :: rest).reverse
  | _ => name

/-- The old extension goes, though not the dot before it, and the new one is put behind the stem of
what is left. Two dots take none, so that `..x` becomes `..` here. -/
def withExtension (extension : String) (p : FilePath) : FilePath :=
  match p.fromLastName with
  | [] => p
  | name :: above =>
    if name=".." then p
    else if stem name="." ∧ p.endsIdle=false then ⟨(".." :: above).reverse⟩
    else ⟨((stem name++"."++extension) :: above).reverse⟩

end FilePath

end FleetConsole
