import FleetConsole.Json.Quoted
import Mathlib.Tactic.SplitIfs

namespace FleetConsole.Json

theorem hexDigit?_hexDigit (n : Nat) : hexDigit? (hexDigit n)=some (n%16) := by
  have all : ∀ d : Fin 16,hexDigit? (Nat.digitChar d)=some d.val := by decide
  exact all ⟨n%16,Nat.mod_lt n (by decide)⟩

/-- One more digit of a group that is not full yet. -/
theorem readQuotedFrom_digit {c : Char} {d : Nat} (hd : hexDigit? c=some d) {seen : Nat}
    (hs : seen<3) (lead : Option Nat) (value : Nat) (done tail : List Char) :
    readQuotedFrom (.group lead seen value) done (c :: tail)=
      readQuotedFrom (.group lead (seen+1) (16*value+d)) done tail := by
  simp only [readQuotedFrom,stepQuoted,hd,hs,if_true]

/-- The last digit of a group that stands for a character of its own. -/
theorem readQuotedFrom_lastDigit {c : Char} {d : Nat} (hd : hexDigit? c=some d) {value : Nat}
    (hv : 16*value+d<0xd800) (done tail : List Char) :
    readQuotedFrom (.group none 3 value) done (c :: tail)=
      readQuotedFrom .plain (Char.ofNat (16*value+d) :: done) tail := by
  have ht : isTrailUnit (16*value+d)=false := by
    rw [isTrailUnit,decide_eq_false_iff_not]
    omega
  have hl : isLeadUnit (16*value+d)=false := by
    rw [isLeadUnit,decide_eq_false_iff_not]
    omega
  simp [readQuotedFrom,stepQuoted,hd,closeGroup,ht,hl]

theorem readQuotedFrom_control {c : Char} (h : c.toNat<0x20) (done tail : List Char) :
    readQuotedFrom .plain done
      ('\\' :: 'u' :: '0' :: '0' :: hexDigit (c.toNat/16) :: hexDigit c.toNat :: tail)=
      readQuotedFrom .plain (c :: done) tail := by
  have zero : hexDigit? '0'=some 0 := by decide
  have value : 16*(16*(16*(16*0+0)+0)+c.toNat/16%16)+c.toNat%16=c.toNat := by omega
  show readQuotedFrom (.group none 0 0) done
    ('0' :: '0' :: hexDigit (c.toNat/16) :: hexDigit c.toNat :: tail)=_
  rw [readQuotedFrom_digit zero (by decide),readQuotedFrom_digit zero (by decide),
    readQuotedFrom_digit (hexDigit?_hexDigit _) (by decide),
    readQuotedFrom_lastDigit (hexDigit?_hexDigit _) (by omega),value,Char.ofNat_toNat]

/-- What stands for a character is read as that character. -/
theorem readQuotedFrom_escapeChar (c : Char) (done tail : List Char) :
    readQuotedFrom .plain done (escapeChar c++tail)=readQuotedFrom .plain (c :: done) tail := by
  unfold escapeChar
  split_ifs with quote slash b f n r t control
  · subst quote; rfl
  · subst slash; rfl
  · subst b; rfl
  · subst f; rfl
  · subst n; rfl
  · subst r; rfl
  · subst t; rfl
  · exact readQuotedFrom_control control done tail
  · simp [readQuotedFrom,stepQuoted,quote,slash,control]

theorem readQuotedFrom_escaped (s done rest : List Char) :
    readQuotedFrom .plain done (s.foldr (fun c tail => escapeChar c++tail) ('"' :: rest))=
      .ok (String.ofList (done.reverse++s),rest) := by
  induction s generalizing done with
  | nil => simp [readQuotedFrom,stepQuoted]
  | cons c s ih =>
    rw [List.foldr_cons,readQuotedFrom_escapeChar,ih]
    simp

/-- The text of a quoted string behind its opening quote. -/
def quotedTail (s : String) (rest : List Char) : List Char :=
  s.toList.foldr (fun c tail => escapeChar c++tail) ('"' :: rest)

theorem writeQuoted_eq (s : String) (rest : List Char) :
    writeQuoted s rest = '"' :: quotedTail s rest := rfl

theorem readQuoted_quotedTail (s : String) (rest : List Char) :
    readQuoted (quotedTail s rest)=.ok (s,rest) := by
  rw [readQuoted,quotedTail,readQuotedFrom_escaped]
  simp

end FleetConsole.Json
