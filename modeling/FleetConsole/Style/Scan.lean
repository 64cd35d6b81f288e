import FleetConsole.Run
import FleetConsole.Style.Table

namespace FleetConsole

namespace Style

def escape : Char := '\x1b'

/-- Puts one more character in front of text already cut at its introducers. -/
def extendSegments (c : Char) : List (List Char) → List (List Char)
  | [] => [[c]]
  | ('[' :: segment) :: later =>
    if c=escape then [] :: segment :: later else (c :: '[' :: segment) :: later
  | segment :: later => (c :: segment) :: later

/-- The stretches of a text between introducers, an escape and an opening bracket each. These
cannot overlap, so cutting from the right is the same as cutting from the left. -/
def segments (text : List Char) : List (List Char) := text.foldr extendSegments [[]]

def terminator : Char := 'm'

/-- The code list of a segment and the text behind it, when the list is closed. -/
def splitCodes? (segment : List Char) : Option (List Char × List Char) :=
  match segment.dropWhile (fun c => c != terminator) with
  | [] => none
  | _ :: rest => some (segment.takeWhile (fun c => c != terminator),rest)

def runOf (style : Style) (text : List Char) : List (Run Style) :=
  if text=[] then [] else [⟨style,text⟩]

/-- Reads the segments behind introducers. A segment whose code list is not closed is
plain text in the style before it. -/
def scanSegments (t : Table) (current : Style) : List (List Char) → List (Run Style) × Table
  | [] => ([],t)
  | segment :: later =>
    match splitCodes? segment with
    | some (codes,body) =>
      let (entry,t') := t.resolve codes
      let (runs,last) := scanSegments t' entry.style later
      (runOf entry.style body++runs,last)
    | none =>
      let (runs,last) := scanSegments t current later
      (runOf current segment++runs,last)

/-- Cuts a text into styled runs. Every text starts in the normal style, whatever the
text before it ended with. -/
def scan (t : Table) (text : List Char) : List (Run Style) × Table :=
  match segments text with
  | [] => ([],t)
  | first :: later =>
    let (runs,t') := scanSegments t normal later
    (runOf normal first++runs,t')

theorem scanSegments_runs (t t' : Table) (current : Style) (segments : List (List Char)) :
    (scanSegments t current segments).1=(scanSegments t' current segments).1 := by
  induction segments generalizing t t' current with
  | nil => rfl
  | cons segment later ih =>
    unfold scanSegments
    cases splitCodes? segment with
    | none =>
      dsimp only
      rw [ih t t' current]
    | some codes =>
      dsimp only
      rw [t.resolve_style,t'.resolve_style,ih]

/-- The table that styles are looked up in makes no difference to the runs. -/
theorem scan_runs (t t' : Table) (text : List Char) : (scan t text).1=(scan t' text).1 := by
  unfold scan
  cases segments text with
  | nil => rfl
  | cons first later =>
    dsimp only
    rw [scanSegments_runs t t']

end Style

end FleetConsole
