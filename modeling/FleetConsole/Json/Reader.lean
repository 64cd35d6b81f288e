import FleetConsole.Json.Numeral
import FleetConsole.Json.Quoted

namespace FleetConsole.Json

def isSpace (c : Char) : Bool := c == ' ' || c == '\t' || c == '\n' || c == '\r'

def skipSpace (text : List Char) : List Char := text.dropWhile isSpace

/-- The rest of a word whose first letter has been passed. -/
def readWord : List Char → List Char → Except Fault (List Char)
  | [],text => .ok text
  | _ :: _,[] => .error .ended
  | w :: word,c :: text => if c=w then readWord word text else .error .malformed

/-- Folds the items of an array whose bracket has been passed, by a reader of one item. Each round
takes up a character at least, so that a text is fuel enough for its own reading. -/
def readItemsFrom {σ : Type} (one : σ → List Char → Except Fault (σ × List Char)) :
    List Char → σ → List Char → Except Fault (σ × List Char)
  | [],_,_ => .error .ended
  | _ :: fuel,state,text =>
    match one state text with
    | .error fault => .error fault
    | .ok (state',rest) =>
      match skipSpace rest with
      | [] => .error .ended
      | c :: rest =>
        if c = ']' then .ok (state',rest)
        else if c = ',' then
          let next := skipSpace rest
          if next.head?=some ']' then .error .malformed else readItemsFrom one fuel state' next
        else .error .malformed

def readItems {σ : Type} (one : σ → List Char → Except Fault (σ × List Char)) (state : σ)
    (text : List Char) : Except Fault (σ × List Char) :=
  match skipSpace text with
  | [] => .error .ended
  | c :: rest =>
    if c = ']' then .ok (state,rest) else readItemsFrom one text state (c :: rest)

/-- A member's name. -/
def readName (text : List Char) : Except Fault (String × List Char) :=
  match text with
  | [] => .error .ended
  | c :: rest => if c = '"' then readQuoted rest else .error .malformed

/-- The colon behind a name, with the blanks around it. -/
def readColon (text : List Char) : Except Fault (List Char) :=
  match skipSpace text with
  | [] => .error .ended
  | c :: rest => if c = ':' then .ok (skipSpace rest) else .error .malformed

/-- Folds the members of an object whose brace has been passed. `one` starts behind a name. -/
def readMembersFrom {σ : Type}
    (one : σ → String → List Char → Except Fault (σ × List Char)) :
    List Char → σ → List Char → Except Fault (σ × List Char)
  | [],_,_ => .error .ended
  | _ :: fuel,state,text =>
    match readName text with
    | .error fault => .error fault
    | .ok (name,rest) =>
      match one state name rest with
      | .error fault => .error fault
      | .ok (state',rest) =>
        match skipSpace rest with
        | [] => .error .ended
        | c :: rest =>
          if c = '\x7d' then .ok (state',rest)
          else if c = ',' then readMembersFrom one fuel state' (skipSpace rest)
          else .error .malformed

def readMembers {σ : Type} (one : σ → String → List Char → Except Fault (σ × List Char))
    (state : σ) (text : List Char) : Except Fault (σ × List Char) :=
  match skipSpace text with
  | [] => .error .ended
  | c :: rest =>
    if c = '\x7d' then .ok (state,rest) else readMembersFrom one text state (c :: rest)

/-- Arrays and objects may be open inside each other up to this depth. -/
def maxDepth : Nat := 127

/-- Reads a value at the front of a text, with room for `depth` open arrays and objects. -/
def readValue (depth : Nat) (text : List Char) : Except Fault (Json × List Char) :=
  match text with
  | [] => .error .ended
  | c :: rest =>
    if c = 'n' then (readWord ['u','l','l'] rest).map (fun rest => (.null,rest))
    else if c = 't' then (readWord ['r','u','e'] rest).map (fun rest => (.bool true,rest))
    else if c = 'f' then (readWord ['a','l','s','e'] rest).map (fun rest => (.bool false,rest))
    else if c = '"' then (readQuoted rest).map (fun (s,rest) => (.str s,rest))
    else if c = '-' ∨ isDigit c then readNumber text
    else if c = '[' then
      match depth with
      | 0 => .error .malformed
      | depth+1 =>
        (readItems (fun done text => (readValue depth text).map (fun (v,rest) => (v :: done,rest)))
          [] rest).map (fun (done,rest) => (.arr done.reverse,rest))
    else if c = '\x7b' then
      match depth with
      | 0 => .error .malformed
      | depth+1 =>
        (readMembers (fun done name text =>
          match readColon text with
          | .error fault => .error fault
          | .ok text => (readValue depth text).map (fun (v,rest) => ((name,v) :: done,rest)))
          [] rest).map (fun (done,rest) => (.obj done.reverse,rest))
    else .error .malformed

/-- Nothing but blanks may follow what was read. -/
def readEnd {α : Type} (value : α) (text : List Char) : Except Fault α :=
  if skipSpace text=[] then .ok value else .error .malformed

def read (text : List Char) : Except Fault Json := do
  let (v,rest) ← readValue maxDepth (skipSpace text)
  readEnd v rest

end FleetConsole.Json
