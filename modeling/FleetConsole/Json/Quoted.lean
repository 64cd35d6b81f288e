import FleetConsole.Json.Fault
import FleetConsole.Text.Utf8

namespace FleetConsole.Json

def hexDigit? (c : Char) : Option Nat :=
  if '0' ≤ c ∧ c ≤ '9' then some (c.toNat-48)
  else if 'a' ≤ c ∧ c ≤ 'f' then some (c.toNat-87)
  else if 'A' ≤ c ∧ c ≤ 'F' then some (c.toNat-55)
  else none

/-- Where a reader stands inside a quoted string. A character beyond the first 65536 is
escaped as two groups of four digits; `lead` is the first of them. -/
inductive QuoteState where
  | plain
  | escaped
  | group (lead : Option Nat) (seen value : Nat)
  | pairEscape (lead : Nat)
  | pairLetter (lead : Nat)
  deriving DecidableEq, Repr

inductive QuoteStep where
  | move (next : QuoteState)
  | char (c : Char)
  | close
  | refuse
  deriving DecidableEq, Repr

def isLeadUnit (n : Nat) : Bool := decide (0xd800 ≤ n ∧ n<0xdc00)

def isTrailUnit (n : Nat) : Bool := decide (0xdc00 ≤ n ∧ n<0xe000)

/-- What four digits mean. -/
def closeGroup : Option Nat → Nat → QuoteStep
  | none,n =>
    if isTrailUnit n then .refuse
    else if isLeadUnit n then .move (.pairEscape n)
    else .char (Char.ofNat n)
  | some lead,n =>
    if isTrailUnit n then .char (Char.ofNat (0x10000+(lead-0xd800)*0x400+(n-0xdc00)))
    else .refuse

/-- Letters that stand for one character behind a backslash. -/
def shortEscapes : List (Char × Char) :=
  [('"','"'),('\\','\\'),('/','/'),('b','\x08'),('f','\x0c'),('n','\n'),('r','\r'),('t','\t')]

def stepQuoted : QuoteState → Char → QuoteStep
  | .plain,c =>
    if c = '"' then .close
    else if c = '\\' then .move .escaped
    else if c.toNat<0x20 then .refuse
    else .char c
  | .escaped,c =>
    if c = 'u' then .move (.group none 0 0)
    else match shortEscapes.lookup c with
      | some d => .char d
      | none => .refuse
  | .group lead seen value,c =>
    match hexDigit? c with
    | none => .refuse
    | some d =>
      if seen<3 then .move (.group lead (seen+1) (16*value+d)) else closeGroup lead (16*value+d)
  | .pairEscape lead,c => if c = '\\' then .move (.pairLetter lead) else .refuse
  | .pairLetter lead,c => if c = 'u' then .move (.group (some lead) 0 0) else .refuse

/-- Four digits are taken as a whole: text that stops within four bytes has ended there,
whatever stands in them. -/
def refusal (state : QuoteState) (text : List Char) : Fault :=
  match state with
  | .group _ seen _ => if seen+Text.utf8Length (text.take 4)<4 then .ended else .malformed
  | _ => .malformed

/-- Reads up to and with the closing quote; `done` holds the characters so far, last first. -/
def readQuotedFrom (state : QuoteState) (done : List Char) :
    List Char → Except Fault (String × List Char)
  | [] => .error .ended
  | c :: rest =>
    match stepQuoted state c with
    | .move next => readQuotedFrom next done rest
    | .char d => readQuotedFrom .plain (d :: done) rest
    | .close => .ok (String.ofList done.reverse,rest)
    | .refuse => .error (refusal state (c :: rest))

/-- Reads a string whose opening quote has been passed. -/
def readQuoted (text : List Char) : Except Fault (String × List Char) :=
  readQuotedFrom .plain [] text

def hexDigit (n : Nat) : Char := Nat.digitChar (n%16)

/-- Only quotes, backslashes and control characters are escaped. -/
def escapeChar (c : Char) : List Char :=
  if c = '"' then ['\\','"']
  else if c = '\\' then ['\\','\\']
  else if c = '\x08' then ['\\','b']
  else if c = '\x0c' then ['\\','f']
  else if c = '\n' then ['\\','n']
  else if c = '\r' then ['\\','r']
  else if c = '\t' then ['\\','t']
  else if c.toNat<0x20 then ['\\','u','0','0',hexDigit (c.toNat/16),hexDigit c.toNat]
  else [c]

/-- A quoted string in front of more text. -/
def writeQuoted (s : String) (rest : List Char) : List Char :=
  '"' :: s.toList.foldr (fun c tail => escapeChar c++tail) ('"' :: rest)

end FleetConsole.Json
