import FleetConsole.Json.Reader

namespace FleetConsole.Json

/-- Content with the tag that says how to understand it. -/
structure Tagged where
  tag : String
  content : Json

/-- The fault of a value of the wrong kind. A scalar is read before its kind is looked at,
an array or object is not. -/
def wrongKind (text : List Char) : Fault :=
  match text with
  | [] => .ended
  | c :: _ =>
    if c = '[' ∨ c = '\x7b' then .mismatched
    else match readValue 0 text with
      | .error fault => fault
      | .ok _ => .mismatched

/-- A tag has to be one of the names. -/
def readTag (names : List String) (text : List Char) : Except Fault (String × List Char) :=
  match text with
  | [] => .error .ended
  | c :: rest =>
    if c = '"' then
      match readQuoted rest with
      | .error fault => .error fault
      | .ok (name,rest) => if names.contains name then .ok (name,rest) else .error .mismatched
    else .error (wrongKind text)

/-- A member of a tagged object. A second tag is refused at its name; everything else waits
until the object has been read to its end. -/
def readTaggedMember (key : String) (names : List String)
    (state : Option String × List (String × Json)) (name : String) (text : List Char) :
    Except Fault ((Option String × List (String × Json)) × List Char) :=
  if name=key then
    if state.1.isSome then .error .mismatched
    else do
      let (tag,rest) ← readTag names (← readColon text)
      .ok ((some tag,state.2),rest)
  else do
    let (v,rest) ← readValue (maxDepth-1) (← readColon text)
    .ok ((state.1,(name,v) :: state.2),rest)

/-- An item of a tagged list; the first one is the tag. -/
def readTaggedItem (names : List String) (state : Option String × List Json)
    (text : List Char) : Except Fault ((Option String × List Json) × List Char) :=
  if state.1.isSome then do
    let (v,rest) ← readValue (maxDepth-1) text
    .ok ((state.1,v :: state.2),rest)
  else do
    let (tag,rest) ← readTag names text
    .ok ((some tag,state.2),rest)

/-- Reads a tagged object, or a list that starts with the tag. -/
def readTagged (key : String) (names : List String) (text : List Char) :
    Except Fault (Tagged × List Char) :=
  match text with
  | [] => .error .ended
  | c :: rest =>
    if c = '\x7b' then
      match readMembers (readTaggedMember key names) (none,[]) rest with
      | .error fault => .error fault
      | .ok ((some tag,members),rest) => .ok (⟨tag,.obj members.reverse⟩,rest)
      | .ok ((none,_),_) => .error .mismatched
    else if c = '[' then
      match readItems (readTaggedItem names) (none,[]) rest with
      | .error fault => .error fault
      | .ok ((some tag,items),rest) => .ok (⟨tag,.arr items.reverse⟩,rest)
      | .ok ((none,_),_) => .error .mismatched
    else .error (wrongKind text)

/-- Reads a whole text by its tag. -/
def readByTag {α : Type} (key : String) (names : List String) (decode? : Tagged → Option α)
    (text : List Char) : Except Fault α :=
  match readTagged key names (skipSpace text) with
  | .error fault => .error fault
  | .ok (tagged,rest) =>
    match decode? tagged with
    | none => .error .mismatched
    | some value => readEnd value rest

end FleetConsole.Json
