import FleetConsole.Style.Basic

namespace FleetConsole.Style

/-- A number ranks by its value, and every other code above all numbers. -/
def codeRank (code : List Char) : Nat := (Text.number? codeBound code).getD codeBound

/-- Codes are ordered by rank and, where that leaves a choice, by their characters. -/
def compareCode : List Char → List Char → Ordering :=
  compareLex (compareOn codeRank) (compareOn id)

def sortCodes (codes : List (List Char)) : List (List Char) :=
  codes.mergeSort (fun a b => (compareCode a b).isLE)

/-- One key for all orders of the same codes. No codes at all mean a reset. -/
def canonicalKey (codes : List Char) : List Char :=
  if codes=[] then normalKey
  else Text.joinFields codeSeparator (sortCodes (Text.fields codeSeparator codes))

instance : Std.TransCmp compareCode := inferInstanceAs (Std.TransCmp (compareLex _ _))

theorem eq_of_compareCode {a b : List Char} (h : compareCode a b=.eq) : a=b := by
  simp only [compareCode,compareLex,Ordering.then_eq_eq,compareOn,id] at h
  exact Std.LawfulEqOrd.eq_of_compare h.2

end FleetConsole.Style
