namespace FleetConsole.Text

/-- First and last code points of the ranges that have the White_Space property. -/
def blankRanges : List (Nat × Nat) :=
  [(0x9,0xd),(0x20,0x20),(0x85,0x85),(0xa0,0xa0),(0x1680,0x1680),
   (0x2000,0x200a),(0x2028,0x2029),(0x202f,0x202f),(0x205f,0x205f),(0x3000,0x3000)]

def isBlank (c : Char) : Bool :=
  blankRanges.any (fun r => r.1 ≤ c.toNat && c.toNat ≤ r.2)

def trimLeft (text : List Char) : List Char := text.dropWhile isBlank

def trimRight (text : List Char) : List Char := (trimLeft text.reverse).reverse

def trim (text : List Char) : List Char := trimRight (trimLeft text)

end FleetConsole.Text
