namespace FleetConsole

/-- The whole number nearest to `num/den`; of two equally near ones, the even one. -/
def roundHalfEven (num den : Nat) : Nat :=
  let q := num/den
  let r := num%den
  if 2*r<den then q else if den<2*r then q+1 else q+q%2

/-- A 64-bit binary floating-point number, as its bits. -/
structure Binary64 where
  bits : UInt64
  deriving DecidableEq, Repr

namespace Binary64

def fractionBound : Nat := 1<<<52

/-- The exponent field of infinities and of what is no number. -/
def topExponent : Nat := 2047

def exponentField (x : Binary64) : Nat := x.bits.toNat/fractionBound%2048

def fractionField (x : Binary64) : Nat := x.bits.toNat%fractionBound

def isNegative (x : Binary64) : Bool := decide (1<<<63 ≤ x.bits.toNat)

def isFinite (x : Binary64) : Bool := x.exponentField != topExponent

def isNaN (x : Binary64) : Bool := x.exponentField==topExponent && x.fractionField != 0

def isInfinite (x : Binary64) : Bool := x.exponentField==topExponent && x.fractionField==0

/-- Magnitudes are counted in units of the smallest positive one. -/
def unitsPerOne : Nat := 1<<<1074

def significand (x : Binary64) : Nat :=
  if x.exponentField=0 then x.fractionField else fractionBound+x.fractionField

/-- Units in one step of the significand, as a power of two. -/
def scale (x : Binary64) : Nat := x.exponentField-1

/-- The exact magnitude of a finite number. -/
def units (x : Binary64) : Nat := x.significand<<<x.scale

def zero : Binary64 := ⟨0⟩

def infinity : Binary64 := ⟨0x7ff0000000000000⟩

def isZero (x : Binary64) : Bool := x.significand==0

def neg (x : Binary64) : Binary64 := ⟨x.bits^^^0x8000000000000000⟩

/-- The number nearest to `num/den`, with ties to even; beyond the largest one, infinity. A
significand that is rounded past its bound steps the exponent field. -/
def nearest (num den : Nat) : Binary64 :=
  let scaled := num*unitsPerOne
  let scale := (scaled/den).log2+1-53
  let bits := scale*fractionBound+roundHalfEven scaled (den<<<scale)
  ⟨UInt64.ofNat (min bits (topExponent*fractionBound))⟩

def ofNat (n : Nat) : Binary64 := nearest n 1

/-- Sum, product and quotient are exact values rounded once. They are for finite numbers
that are not negative. -/
def add (x y : Binary64) : Binary64 := nearest (x.units+y.units) unitsPerOne

def mul (x y : Binary64) : Binary64 := nearest (x.units*y.units) (unitsPerOne*unitsPerOne)

def div (x y : Binary64) : Binary64 := nearest x.units y.units

/-- Not a number and negative numbers count as zero. -/
def clampNegative (x : Binary64) : Binary64 := if x.isNaN || x.isNegative then zero else x

end Binary64

end FleetConsole
