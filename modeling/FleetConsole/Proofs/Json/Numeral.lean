import FleetConsole.Json.Numeral
import FleetConsole.Proofs.Text.Numeral

namespace FleetConsole.Json

theorem isDigit_of_isDigit {c : Char} (h : c.isDigit=true) : isDigit c=true :=
  Text.isDigit_iff.mpr h

/-- Digits are taken up to the last one, if there is room for their value. -/
theorem gather_digits {digits rest : List Char} (hd : ∀ c∈digits,c.isDigit=true)
    (hr : startsWithDigit rest=false) {value : Nat}
    (hb : Nat.ofDigitChars 10 digits value<significandBound) (count : Nat) :
    gather value count (digits++rest)=
      (Nat.ofDigitChars 10 digits value,count+digits.length,rest) := by
  induction digits generalizing value count with
  | nil =>
    cases rest with
    | nil => rfl
    | cons c rest =>
      have hn : Text.digit? c=none := by simpa [startsWithDigit,isDigit] using hr
      simp [gather,hn]
  | cons c digits ih =>
    have hc := Text.digit?_of_isDigit (hd c (List.mem_cons_self ..))
    rw [Nat.ofDigitChars_cons] at hb ⊢
    have hv : 10*value+(c.toNat-48)<significandBound :=
      Nat.lt_of_le_of_lt (Text.le_ofDigitChars digits _) hb
    have hi := ih (fun d hm => hd d (List.mem_cons_of_mem _ hm)) hb (count+1)
    rw [List.cons_append,gather,hc]
    simp only [hv,if_true]
    refine hi.trans ?_
    rw [List.length_cons,Nat.add_assoc,Nat.add_comm 1]

/-- Whether a numeral in front of a text ends there. -/
def endsNumeral (rest : List Char) : Bool :=
  rest.head?.all (fun c => !isDigit c && c != '.' && c != 'e' && c != 'E')

theorem not_startsWithDigit {rest : List Char} (h : endsNumeral rest=true) :
    startsWithDigit rest=false := by
  cases rest with
  | nil => rfl
  | cons c rest =>
    simp only [endsNumeral,List.head?_cons,Option.all_some,Bool.and_eq_true,Bool.not_eq_true'] at h
    simpa [startsWithDigit] using h.1.1.1

theorem takeWhile_digits {digits rest : List Char} (hd : ∀ c∈digits,c.isDigit=true)
    (hr : startsWithDigit rest=false) : (digits++rest).takeWhile isDigit=digits :=
  Text.takeWhile_front (fun c hc => isDigit_of_isDigit (hd c hc)) hr

theorem dropWhile_digits {digits rest : List Char} (hd : ∀ c∈digits,c.isDigit=true)
    (hr : startsWithDigit rest=false) : (digits++rest).dropWhile isDigit=rest :=
  Text.dropWhile_front (fun c hc => isDigit_of_isDigit (hd c hc)) hr

theorem takeWhile_of_no_digit {rest : List Char} (hr : startsWithDigit rest=false) :
    rest.takeWhile isDigit=[] :=
  takeWhile_digits (List.forall_mem_nil _) hr

theorem dropWhile_of_no_digit {rest : List Char} (hr : startsWithDigit rest=false) :
    rest.dropWhile isDigit=rest :=
  dropWhile_digits (List.forall_mem_nil _) hr

/-- Digits of a whole number. A zero in front stands alone. -/
structure WholeDigits (digits : List Char) : Prop where
  all : ∀ c∈digits,c.isDigit=true
  nonempty : digits≠[]
  zero : digits.head?=some '0' → digits=['0']

theorem wholeDigits_decimal (n : Nat) : WholeDigits (Text.decimal n) where
  all _ := Text.isDigit_of_mem_decimal
  nonempty := Text.decimal_ne_nil n
  zero h := by
    rcases Nat.eq_zero_or_pos n with rfl | positive
    · rfl
    · exact absurd h (Text.head?_decimal positive)

namespace Numeral

theorem readWhole_digits {digits : List Char} (h : WholeDigits digits)
    (hb : Nat.ofDigitChars 10 digits 0<significandBound) {rest : List Char}
    (hr : startsWithDigit rest=false) :
    readWhole (digits++rest)=.ok (⟨Nat.ofDigitChars 10 digits 0,0,true⟩,rest) := by
  have taken := gather_digits h.all hr hb 0
  obtain ⟨all,nonempty,zero⟩ := h
  cases digits with
  | nil => exact absurd rfl nonempty
  | cons c digits =>
    by_cases hz : c = '0'
    · obtain ⟨_,rfl⟩ := List.cons.inj (zero (congrArg some hz))
      subst hz
      have value : Nat.ofDigitChars 10 ['0'] 0=0 := rfl
      simp [readWhole,hr,value]
    · have hc := isDigit_of_isDigit (all c (List.mem_cons_self ..))
      rw [List.cons_append] at taken ⊢
      simp [readWhole,hz,hc,taken,takeWhile_of_no_digit hr,dropWhile_of_no_digit hr]

theorem readWhole_decimal {n : Nat} (hn : n<significandBound) {rest : List Char}
    (hr : startsWithDigit rest=false) :
    readWhole (Text.decimal n++rest)=.ok (⟨n,0,true⟩,rest) := by
  have value := Text.ofDigitChars_decimal n
  have h := readWhole_digits (wholeDigits_decimal n) (value.symm ▸ hn) hr
  rwa [value] at h

/-- Digits behind a point count on from those before it. -/
theorem readFraction_digits {digits : List Char} (hd : ∀ c∈digits,c.isDigit=true)
    (nonempty : digits≠[]) {n : Numeral}
    (hb : Nat.ofDigitChars 10 digits n.significand<significandBound) {rest : List Char}
    (hr : startsWithDigit rest=false) :
    n.readFraction ('.' :: (digits++rest))=
      .ok (⟨Nat.ofDigitChars 10 digits n.significand,n.exponent-digits.length,false⟩,rest) := by
  have taken := gather_digits hd hr hb 0
  have some : digits.length≠0 := fun e => nonempty (List.length_eq_zero_iff.mp e)
  simp [readFraction,taken,nonempty,dropWhile_of_no_digit hr]

/-- An exponent with its sign. -/
theorem readExponent_digits (n : Numeral) (negative : Prop) [Decidable negative] (k : Nat)
    {rest : List Char} (hr : startsWithDigit rest=false) :
    n.readExponent ('e' :: (if negative then '-' else '+') :: (Text.decimal k++rest))=
      .ok (⟨n.significand,if negative then n.exponent-k else n.exponent+k,false⟩,rest) := by
  have all : ∀ c∈Text.decimal k,c.isDigit=true := fun c => Text.isDigit_of_mem_decimal
  have first : startsWithDigit (Text.decimal k++rest)=true := by
    cases hs : Text.decimal k with
    | nil => exact absurd hs (Text.decimal_ne_nil k)
    | cons c tail =>
      rw [hs] at all
      exact isDigit_of_isDigit (all c (List.mem_cons_self ..))
  have value : Text.digitsFrom? 0 (Text.decimal k)=some k := by
    rw [Text.digitsFrom?_eq all,Text.ofDigitChars_decimal]
  have nonempty : Text.decimal k++rest≠[] := by simp [Text.decimal_ne_nil]
  by_cases minus : negative <;>
    simp [readExponent,minus,nonempty,first,takeWhile_digits all hr,dropWhile_digits all hr,value]

theorem readFraction_of_ends {rest : List Char} (h : endsNumeral rest=true) (n : Numeral) :
    n.readFraction rest=.ok (n,rest) := by
  cases rest with
  | nil => rfl
  | cons c rest =>
    simp only [endsNumeral,List.head?_cons,Option.all_some,Bool.and_eq_true,bne_iff_ne] at h
    simp [readFraction,h.1.1.2]

theorem readExponent_of_ends {rest : List Char} (h : endsNumeral rest=true) (n : Numeral) :
    n.readExponent rest=.ok (n,rest) := by
  cases rest with
  | nil => rfl
  | cons c rest =>
    simp only [endsNumeral,List.head?_cons,Option.all_some,Bool.and_eq_true,bne_iff_ne] at h
    simp [readExponent,h.1.2,h.2]

theorem read_decimal {n : Nat} (hn : n<significandBound) {rest : List Char}
    (hr : endsNumeral rest=true) : read (Text.decimal n++rest)=.ok (⟨n,0,true⟩,rest) := by
  rw [read,readWhole_decimal hn (not_startsWithDigit hr)]
  show (readFraction ⟨n,0,true⟩ rest).bind _=_
  rw [readFraction_of_ends hr]
  exact readExponent_of_ends hr _

end Numeral

theorem readNumber_of_read {text rest : List Char} {n : Numeral} {v : Json}
    (hr : Numeral.read (if text.head?=some '-' then text.tail else text)=.ok (n,rest))
    (hj : n.toJson? (decide (text.head?=some '-'))=some v) :
    readNumber text=.ok (v,rest) := by
  simp [readNumber,hr,hj,bind,Except.bind]

theorem readNumber_decimal {n : Nat} (hn : n<significandBound) {rest : List Char}
    (hr : endsNumeral rest=true) : readNumber (Text.decimal n++rest)=.ok (.int n,rest) := by
  have hd : ∀ c∈Text.decimal n,c.isDigit=true := fun c => Text.isDigit_of_mem_decimal
  have plain : (Text.decimal n++rest).head?≠some '-' := by
    cases hs : Text.decimal n with
    | nil => exact absurd hs Nat.toDigits_ne_nil
    | cons c digits =>
      intro e
      have hc := hd c (hs ▸ List.mem_cons_self ..)
      rw [Option.some.inj e] at hc
      exact absurd hc (by decide)
  have hread := Numeral.read_decimal hn hr
  rw [← if_neg (t := (Text.decimal n++rest).tail) (e := Text.decimal n++rest) plain] at hread
  exact readNumber_of_read hread (by rw [decide_eq_false plain]; rfl)

theorem readNumber_negative {n : Nat} (hp : 0<n) (hn : 2*n ≤ significandBound)
    {rest : List Char} (hr : endsNumeral rest=true) :
    readNumber ('-' :: (Text.decimal n++rest))=.ok (.int (-n),rest) := by
  have hread := Numeral.read_decimal (show n<significandBound by omega) hr
  have hj : Numeral.toJson? true ⟨n,0,true⟩=some (.int (-n)) := by simp [Numeral.toJson?,hp,hn]
  exact readNumber_of_read hread hj

/-- The whole numbers that are read as such: those of 64 bits, with or without a sign. -/
def isWholeRange (n : Int) : Bool :=
  decide (-(significandBound : Int) ≤ 2*n ∧ n<(significandBound : Int))

theorem isWholeRange_natCast {n : Nat} (h : n<significandBound) : isWholeRange n=true := by
  rw [isWholeRange]
  exact decide_eq_true (by omega)

theorem readNumber_writeInt {n : Int} (hn : isWholeRange n=true) {rest : List Char}
    (hr : endsNumeral rest=true) : readNumber (writeInt n++rest)=.ok (.int n,rest) := by
  have hb := of_decide_eq_true hn
  unfold writeInt
  split
  next h =>
    have hv : -(n.natAbs : Int)=n := by omega
    rw [List.cons_append,readNumber_negative (by omega) (by omega) hr,hv]
  next h =>
    have hv : (n.natAbs : Int)=n := by omega
    rw [readNumber_decimal (by omega) hr,hv]

/-- Minus zero is no whole number, and the only number with a fraction that is so read. -/
def minusZero : Binary64 := Binary64.zero.neg

theorem writeFloat_minusZero : writeFloat minusZero=['-','0','.','0'] := by decide +kernel

theorem readNumber_minusZero {rest : List Char} (hr : endsNumeral rest=true) :
    readNumber (writeFloat minusZero++rest)=.ok (.float minusZero,rest) := by
  have hw : Numeral.readWhole ('0' :: '.' :: '0' :: rest)=
      .ok (⟨0,0,true⟩,'.' :: '0' :: rest) := rfl
  have hd : ∀ c∈['0'],c.isDigit=true := List.forall_mem_singleton.mpr rfl
  have hf : Numeral.readFraction ⟨0,0,true⟩ ('.' :: '0' :: rest)=.ok (⟨0,-1,false⟩,rest) :=
    Numeral.readFraction_digits hd (List.cons_ne_nil _ _) (by decide) (not_startsWithDigit hr)
  have hread : Numeral.read ('0' :: '.' :: '0' :: rest)=.ok (⟨0,-1,false⟩,rest) := by
    rw [Numeral.read,hw]
    show (Numeral.readFraction ⟨0,0,true⟩ ('.' :: '0' :: rest)).bind _=_
    rw [hf]
    exact Numeral.readExponent_of_ends hr _
  have hz : Binary64.ofParts? 0 (-1)=some Binary64.zero := by decide +kernel
  have hj : Numeral.toJson? true ⟨0,-1,false⟩=some (.float minusZero) := by
    simp [Numeral.toJson?,hz,minusZero]
  rw [writeFloat_minusZero]
  exact readNumber_of_read hread hj

end FleetConsole.Json
