import FleetConsole.FilePath
import FleetConsole.SortedMap

namespace FleetConsole

inductive FileContent where
  | text (content : String)
  /-- Bytes that are no UTF-8. -/
  | binary (bytes : List UInt8)
  deriving DecidableEq, Repr

inductive FileNode where
  | file (content : FileContent)
  | directory
  deriving DecidableEq, Repr

/-- The names on the way down from the root. -/
abbrev Place := List String

/-- Files and directories below a root, which is always there. -/
structure FileTree where
  nodes : SortedMap Place FileNode
  /-- Where relative paths begin. -/
  here : Place
  deriving DecidableEq

/-- Where a path leads. A way through a file is closed, unlike one that ends too early. -/
inductive Way where
  | missing
  | closed
  | to (place : Place)
  deriving DecidableEq, Repr

/-- What came of reading a file. -/
inductive FileRead where
  | missing
  | unreadable
  | content (content : FileContent)
  deriving DecidableEq, Repr

namespace FileTree

def empty : FileTree := ⟨SortedMap.empty,[]⟩

def node? (t : FileTree) (place : Place) : Option FileNode :=
  if place=[] then some .directory else t.nodes.get? place

def isDirectory (t : FileTree) (place : Place) : Bool := t.node? place==some .directory

def put (t : FileTree) (place : Place) (node : FileNode) : FileTree :=
  { t with nodes := t.nodes.insert place node }

/-- The place that a name means in a directory. Above the root is the root. -/
def enter (place : Place) (name : String) : Place :=
  if name=".." then place.dropLast else place++[name]

def start (t : FileTree) (path : FilePath) : Place := if path.isAbsolute then [] else t.here

/-- Follows names from a place. -/
def follow (t : FileTree) (place : Place) : List String → Way
  | [] => .to place
  | name :: rest =>
    if !t.isDirectory place || FilePath.isTooLong name then .closed
    else if (t.node? (enter place name)).isNone then .missing
    else t.follow (enter place name) rest

def way (t : FileTree) (path : FilePath) : Way :=
  if !path.isSound then .closed
  else if path.isEmpty then .missing
  else match t.follow (t.start path) path.names with
    | .to place => if path.endsIdle && !t.isDirectory place then .closed else .to place
    | way => way

def read (t : FileTree) (path : FilePath) : FileRead :=
  match t.way path with
  | .missing => .missing
  | .closed => .unreadable
  | .to place =>
    match t.node? place with
    | some (.file content) => .content content
    | _ => .unreadable

/-- The place for a file at the end of a path, whether anything is there or not. -/
def slot? (t : FileTree) (path : FilePath) : Option Place :=
  match path.names.getLast?,t.follow (t.start path) path.names.dropLast with
  | some name,.to place =>
    if path.isSound && !path.endsIdle && name != ".." && !FilePath.isTooLong name &&
        t.isDirectory place
    then some (place++[name])
    else none
  | _,_ => none

/-- One change of a tree. -/
inductive Change where
  | makeDirectories (path : FilePath)
  | write (path : FilePath) (content : FileContent)
  | rename (source target : FilePath)
  deriving DecidableEq, Repr

/-- Follows names from a directory and makes those that are not there. -/
def makeBelow? (t : FileTree) (place : Place) : List String → Option FileTree
  | [] => some t
  | name :: rest =>
    if FilePath.isTooLong name then none
    else match t.node? (enter place name) with
      | some .directory => t.makeBelow? (enter place name) rest
      | some (.file _) => none
      | none => (t.put (enter place name) .directory).makeBelow? (enter place name) rest

def makeDirectories? (t : FileTree) (path : FilePath) : Option FileTree :=
  if path.isSound then t.makeBelow? (t.start path) path.names else none

def write? (t : FileTree) (path : FilePath) (content : FileContent) : Option FileTree :=
  match t.slot? path with
  | some place => if t.isDirectory place then none else some (t.put place (.file content))
  | none => none

/-- Moves a file, over another file if need be, but over no directory. -/
def rename? (t : FileTree) (source target : FilePath) : Option FileTree :=
  match t.slot? source,t.slot? target with
  | some source,some target =>
    match t.node? source with
    | some (.file content) =>
      if t.isDirectory target then none
      else some (({ t with nodes := t.nodes.erase source } : FileTree).put target (.file content))
    | _ => none
  | _,_ => none

def change? (t : FileTree) : Change → Option FileTree
  | .makeDirectories path => t.makeDirectories? path
  | .write path content => t.write? path content
  | .rename source target => t.rename? source target

/-- Makes changes up to the first that fails; says whether none did. -/
def applyAll (t : FileTree) : List Change → Bool × FileTree
  | [] => (true,t)
  | change :: rest =>
    match t.change? change with
    | some t' => t'.applyAll rest
    | none => (false,t)

/-- The files below the place where relative paths begin, named from there. -/
def files (t : FileTree) : List (Place × FileContent) :=
  t.nodes.entries.filterMap (fun e => match e.2 with
    | .file content =>
      if t.here.isPrefixOf e.1 then some (e.1.drop t.here.length,content) else none
    | .directory => none)

end FileTree

end FleetConsole
