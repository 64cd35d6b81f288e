import FleetConsole.Json.Basic
import FleetConsole.Json.Fault
import FleetConsole.Number.Decimal
import FleetConsole.Number.Shortest

namespace FleetConsole.Json

def isDigit (c : Char) : Bool := (Text.digit? c).isSome

def startsWithDigit (text : List Char) : Bool := text.head?.any isDigit

/-- Significands stay below this; digits that would take them there count as zeros. -/
def significandBound : Nat := UInt64.size

/-- Takes up digits while the value stays below the bound; the second number counts them. -/
def gather (value count : Nat) : List Char → Nat × Nat × List Char
  | [] => (value,count,[])
  | c :: rest =>
    match Text.digit? c with
    | none => (value,count,c :: rest)
    | some d =>
      if 10*value+d<significandBound then gather (10*value+d) (count+1) rest
      else (value,count,c :: rest)

/-- A number as written, without its sign. -/
structure Numeral where
  significand : Nat
  exponent : Int
  /-- Neither a fraction, nor an exponent, nor a digit that was given up. -/
  whole : Bool
  deriving DecidableEq, Repr

namespace Numeral

def readWhole (text : List Char) : Except Fault (Numeral × List Char) :=
  match text with
  | [] => .error .ended
  | c :: rest =>
    if c = '0' then
      if startsWithDigit rest then .error .malformed else .ok (⟨0,0,true⟩,rest)
    else if isDigit c then
      let (value,_,rest) := gather 0 0 text
      let lost := rest.takeWhile isDigit
      .ok (⟨value,lost.length,lost.isEmpty⟩,rest.dropWhile isDigit)
    else .error .malformed

def readFraction (n : Numeral) (text : List Char) : Except Fault (Numeral × List Char) :=
  match text with
  | '.' :: rest =>
    let (value,count,rest) := gather n.significand 0 rest
    if count=0 && !startsWithDigit rest then
      if rest.isEmpty then .error .ended else .error .malformed
    else .ok (⟨value,n.exponent-count,false⟩,rest.dropWhile isDigit)
  | _ => .ok (n,text)

def readExponent (n : Numeral) (text : List Char) : Except Fault (Numeral × List Char) :=
  match text with
  | [] => .ok (n,[])
  | c :: rest =>
    if c = 'e' ∨ c = 'E' then
      let negative := rest.head?=some '-'
      let rest := if negative ∨ rest.head?=some '+' then rest.tail else rest
      if rest=[] then .error .ended
      else if startsWithDigit rest then
        let e : Int := (Text.digitsFrom? 0 (rest.takeWhile isDigit)).getD 0
        .ok (⟨n.significand,if negative then n.exponent-e else n.exponent+e,false⟩,
          rest.dropWhile isDigit)
      else .error .malformed
    else .ok (n,text)

def read (text : List Char) : Except Fault (Numeral × List Char) := do
  let (n,rest) ← readWhole text
  let (n,rest) ← n.readFraction rest
  n.readExponent rest

/-- Whole numbers that 64 bits hold stay whole; minus zero is none of them. A number that
would be infinite has no value. -/
def toJson? (negative : Bool) (n : Numeral) : Option Json :=
  if n.whole then
    if !negative then some (.int n.significand)
    else if 0<n.significand ∧ 2*n.significand ≤ significandBound then some (.int (-n.significand))
    else some (.float (Binary64.ofNat n.significand).neg)
  else (Binary64.ofParts? n.significand n.exponent).map
    (fun x => .float (if negative then x.neg else x))

end Numeral

/-- Reads a number that starts with a minus sign or a digit. -/
def readNumber (text : List Char) : Except Fault (Json × List Char) := do
  let negative := text.head?=some '-'
  let (n,rest) ← Numeral.read (if negative then text.tail else text)
  match n.toJson? negative with
  | some v => .ok (v,rest)
  | none => .error .malformed

/-- Digits with a point among or behind them, which zeros on either side may have to reach. -/
def positional (d : DecimalDigits) : List Char :=
  if d.exponent<0 then '0' :: '.' :: List.replicate (-d.exponent-1).toNat '0'++d.digits
  else
    let lead := d.exponent.toNat+1
    let fraction := d.digits.drop lead
    d.digits.take lead++List.replicate (lead-d.digits.length) '0'++
      '.' :: (if fraction=[] then ['0'] else fraction)

def scientific (d : DecimalDigits) : List Char :=
  let fraction := d.digits.drop 1
  d.digits.take 1++(if fraction=[] then [] else '.' :: fraction)++
    'e' :: (if d.exponent<0 then '-' else '+') :: Text.decimal d.exponent.natAbs

/-- Leading digits from `10^-5` up to `10^15` are written without an exponent. -/
def writeFloat (x : Binary64) : List Char :=
  if !x.isFinite then "null".toList
  else
    let d := x.shortest
    let magnitude := if -5 ≤ d.exponent ∧ d.exponent<16 then positional d else scientific d
    if x.isNegative then '-' :: magnitude else magnitude

def writeInt (n : Int) : List Char :=
  if n<0 then '-' :: Text.decimal n.natAbs else Text.decimal n.natAbs

end FleetConsole.Json
