import FleetConsole.Number.Shortest
import FleetConsole.Proofs.Number.Decimal
import FleetConsole.Proofs.Text.Numeral
import Mathlib.Data.List.TakeWhile

namespace FleetConsole.Binary64

variable {x : Binary64}

theorem roundsTo_bounds {num den : Nat} (h : x.roundsTo num den=true) :
    x.roundingEnds.1*den ≤ 4*num ∧ 4*num ≤ x.roundingEnds.2*den := by
  unfold roundsTo at h
  dsimp only at h
  split at h
  · exact of_decide_eq_true h
  · obtain ⟨low,high⟩ := of_decide_eq_true h
    exact ⟨Nat.le_of_lt low,Nat.le_of_lt high⟩

theorem units_eq (x : Binary64) : x.units=x.significand*2^x.scale := by rw [units,Nat.shiftLeft_eq]

theorem step_le_units (h : x.isZero=false) : 2^x.scale ≤ x.units := by
  have positive : 0<x.significand := by
    rw [isZero,beq_eq_false_iff_ne] at h
    exact Nat.pos_of_ne_zero h
  rw [units_eq]
  exact Nat.le_mul_of_pos_left _ positive

/-- Zero does not lie in the interval of another number. -/
theorem low_pos (h : x.isZero=false) : 0<x.roundingEnds.1 := by
  have step := step_le_units h
  have positive := Nat.two_pow_pos x.scale
  unfold roundingEnds
  dsimp only
  rw [Nat.one_shiftLeft]
  split <;> omega

theorem high_eq (x : Binary64) : x.roundingEnds.2=4*x.units+2*2^x.scale := by
  unfold roundingEnds
  dsimp only
  rw [Nat.one_shiftLeft]

theorem high_le (h : x.isZero=false) : x.roundingEnds.2 ≤ 6*x.units := by
  have step := step_le_units h
  rw [high_eq]
  omega

theorem significand_lt (x : Binary64) : x.significand<2^53 := by
  have fraction : x.fractionField<2^52 := Nat.mod_lt _ (Nat.two_pow_pos 52)
  rw [significand,fractionBound_eq]
  split <;> omega

theorem scale_le (finite : x.isFinite=true) : x.scale ≤ 2045 := by
  have field : x.exponentField<2048 := Nat.mod_lt _ (by decide)
  rw [isFinite,bne_iff_ne,topExponent] at finite
  rw [scale]
  omega

/-- The two largest numbers of either sign. -/
def isTop (x : Binary64) : Bool := x.scale==2045 && decide (2^53 ≤ x.significand+2)

/-- The interval of any other number stays within reach. -/
theorem high_le_reach (finite : x.isFinite=true) (h : x.isTop=false) :
    x.roundingEnds.2 ≤ 4*reach := by
  have small := significand_lt x
  have split : x.roundingEnds.2=(4*x.significand+2)*2^x.scale := by
    rw [high_eq,units_eq]
    ring
  rw [split,reach]
  rcases Nat.lt_or_eq_of_le (scale_le finite) with less | top
  · calc (4*x.significand+2)*2^x.scale
        ≤ 4*(2^54-5)*topHalf :=
          Nat.mul_le_mul (by omega) (two_pow_le_topHalf (Nat.le_of_lt_succ less))
      _=4*((2^54-5)*topHalf) := Nat.mul_assoc _ _ _
  · have room : x.significand+2<2^53 := by
      rw [isTop,top,beq_self_eq_true,Bool.true_and,decide_eq_false_iff_not] at h
      exact Nat.lt_of_not_le h
    calc (4*x.significand+2)*2^x.scale
        =(2*(4*x.significand+2))*topHalf := by rw [two_pow_top top]; ring
      _ ≤ 4*(2^54-5)*topHalf := Nat.mul_le_mul_right _ (by omega)
      _=4*((2^54-5)*topHalf) := Nat.mul_assoc _ _ _

private theorem of_either {p : Nat → Bool} {a b n : Nat}
    (h : (if p a then some a else if p b then some b else none)=some n) : p n=true := by
  split at h
  next first =>
    cases h
    exact first
  next =>
    split at h
    next second =>
      cases h
      exact second
    next => cases h

theorem roundsTo_of_gridPoint? {num den n : Nat} (h : x.gridPoint? num den=some n) :
    x.roundsTo (n*num) den=true := of_either (p := fun n => x.roundsTo (n*num) den) h

/-- A multiple of a power of ten that rounds to a number. -/
def Hits (x : Binary64) (n : Nat) (unit : Int) : Prop :=
  x.roundsTo (n*(Text.placeValue unit.toNat*unitsPerOne)) (Text.placeValue (-unit).toNat)=true

/-- Either nothing is found, or digits that round to the number. -/
theorem shortestFrom_cases (x : Binary64) (lead : Int) (places fuel : Nat) :
    x.shortestFrom lead places fuel=(0,0) ∨
      ∃ p n : Nat,p<places+fuel ∧ x.Hits n (lead-p) ∧
        x.shortestFrom lead places fuel=(n,lead-p) := by
  induction fuel generalizing places with
  | zero => exact .inl rfl
  | succ fuel ih =>
    rw [shortestFrom]
    cases h : x.gridPoint? (Text.placeValue (lead-(places : Int)).toNat*unitsPerOne)
        (Text.placeValue (-(lead-(places : Int))).toNat) with
    | some n => exact .inr ⟨places,n,by omega,roundsTo_of_gridPoint? h,rfl⟩
    | none =>
      rcases ih (places+1) with none | ⟨p,n,hp,found⟩
      · exact .inl none
      · exact .inr ⟨p,n,by omega,found⟩

theorem placeValue_pos (places : Nat) : 0<Text.placeValue places := Nat.pow_pos (by decide)

theorem placeValue_add (a b : Nat) :
    Text.placeValue (a+b)=Text.placeValue a*Text.placeValue b := Nat.pow_add 10 a b

theorem pos_of_hits (h : x.isZero=false) {n : Nat} {unit : Int} (hit : x.Hits n unit) : 0<n := by
  have low := Nat.mul_pos (low_pos h) (placeValue_pos (-unit).toNat)
  have bound := (roundsTo_bounds hit).1
  refine Nat.pos_of_ne_zero ?_
  rintro rfl
  rw [Nat.zero_mul] at bound
  omega

/-- The leading digit stands as far to the left as the number reaches. -/
theorem units_lt_leading (x : Binary64) :
    ∃ length : Nat,x.leadingExponent=length-325 ∧
      x.units*Text.placeValue 324<Text.placeValue length*unitsPerOne := by
  refine ⟨_,rfl,?_⟩
  have below := (Nat.length_toDigits_le_iff (b := 10)
    (n := x.units*Text.placeValue 324/unitsPerOne) (by decide) Nat.length_toDigits_pos).mp
    (Nat.le_refl _)
  exact (Nat.div_lt_iff_lt_mul unitsPerOne_pos).mp below

private theorem lt_of_places {n units low high places tens length unit : Nat}
    (bound : 4*(n*(low*unit)) ≤ 6*units*high) (leading : units*tens<length*unit)
    (places_eq : length*high=low*(10*tens*places)) (positive : 0<high)
    (few : places ≤ 10^16) : n<2^64 := by
  have scaled : 4*n*(low*tens)*unit ≤ 6*high*(units*tens) := by
    have h := Nat.mul_le_mul_right tens bound
    have left : 4*(n*(low*unit))*tens=4*n*(low*tens)*unit := by ring
    have right : 6*units*high*tens=6*high*(units*tens) := by ring
    rwa [left,right] at h
  have strict : 6*high*(units*tens)<60*places*(low*tens)*unit := by
    have h := Nat.mul_lt_mul_of_pos_left leading (Nat.mul_pos (by decide : 0<6) positive)
    have right : 6*high*(length*unit)=60*places*(low*tens)*unit := by
      have same : 6*high*(length*unit)=6*(length*high)*unit := by ring
      rw [same,places_eq]
      ring
    rwa [right] at h
  have less := Nat.lt_of_mul_lt_mul_right (Nat.lt_of_le_of_lt scaled strict)
  have digits := Nat.lt_of_mul_lt_mul_right less
  omega

/-- With seventeen places at most, a significand stays below its bound. -/
theorem lt_of_hits (h : x.isZero=false) {n p : Nat} (hp : p<17)
    (hit : x.Hits n (x.leadingExponent-p)) : n<2^64 := by
  obtain ⟨length,lead,below⟩ := units_lt_leading x
  have high := (roundsTo_bounds hit).2
  rw [lead] at high
  generalize hlow : ((length : Int)-325-p).toNat=low at high
  generalize hhigh : (-((length : Int)-325-p)).toNat=shift at high
  have exponents : length+shift=low+(1+324+p) := by omega
  have powers : Text.placeValue length*Text.placeValue shift=
      Text.placeValue low*(10*Text.placeValue 324*Text.placeValue p) := by
    have one : Text.placeValue 1=10 := rfl
    rw [← placeValue_add,exponents,placeValue_add,placeValue_add,placeValue_add,one]
  exact lt_of_places (high.trans (Nat.mul_le_mul_right _ (high_le h))) below powers
    (placeValue_pos shift) (placeValue_le (Nat.le_of_lt_succ hp))

theorem trailing_zeros (digits : List Char) :
    ∃ z,digits=(digits.reverse.dropWhile (fun c => c == '0')).reverse++List.replicate z '0' := by
  have zeros : ∀ c∈digits.reverse.takeWhile (fun c => c == '0'),c = '0' := fun c hc =>
    eq_of_beq (List.mem_takeWhile_imp (p := fun c : Char => c == '0') hc)
  refine ⟨(digits.reverse.takeWhile (fun c => c == '0')).length,?_⟩
  rw [← List.reverse_replicate,← List.eq_replicate_of_mem zeros,← List.reverse_append,
    List.takeWhile_append_dropWhile,List.reverse_reverse]

/-- Digits of a number other than zero: the first one is not zero, and with no decimal places
behind them they are not beyond the interval around the number. -/
structure Plain (x : Binary64) (d : DecimalDigits) : Prop where
  digits : ∀ c∈d.digits,c.isDigit=true
  first : ∃ c,d.digits.head?=some c ∧ c ≠ '0'
  value_lt : Nat.ofDigitChars 10 d.digits 0<2^64
  within : ∀ e : Nat,d.exponent+1=d.digits.length+e →
    4*(Nat.ofDigitChars 10 d.digits 0*Text.placeValue e*unitsPerOne) ≤ x.roundingEnds.2

private theorem within_of_hits {n z e value : Nat} {unit : Int} (hit : x.Hits n unit)
    (hn : n=Text.placeValue z*value) (he : unit+z=e) :
    4*(value*Text.placeValue e*unitsPerOne) ≤ x.roundingEnds.2 := by
  have high := (roundsTo_bounds hit).2
  generalize hlow : unit.toNat=low at high
  generalize hshift : (-unit).toNat=shift at high
  have exponents : z+low=e+shift := by omega
  have powers : Text.placeValue z*Text.placeValue low=
      Text.placeValue e*Text.placeValue shift := by
    rw [← placeValue_add,exponents,placeValue_add]
  have scaled : 4*(n*(Text.placeValue low*unitsPerOne))=
      4*(value*Text.placeValue e*unitsPerOne)*Text.placeValue shift := by
    have moved : 4*(n*(Text.placeValue low*unitsPerOne))=
        4*(value*(Text.placeValue z*Text.placeValue low)*unitsPerOne) := by
      rw [hn]
      ring
    rw [moved,powers]
    ring
  rw [scaled] at high
  exact Nat.le_of_mul_le_mul_right high (placeValue_pos shift)

theorem plain_of_hits (h : x.isZero=false) {n p : Nat} (hp : p<17)
    (hit : x.Hits n (x.leadingExponent-p)) :
    x.Plain ⟨((Text.decimal n).reverse.dropWhile (fun c => c == '0')).reverse,
      x.leadingExponent-p+((Text.decimal n).length : Int)-1⟩ := by
  have positive := pos_of_hits h hit
  have small := lt_of_hits h hp hit
  obtain ⟨z,split⟩ := trailing_zeros (Text.decimal n)
  have value := Text.ofDigitChars_decimal n
  have leading := Text.head?_decimal positive
  have length := congrArg List.length split
  have all : ∀ c∈Text.decimal n,c.isDigit=true := fun c => Text.isDigit_of_mem_decimal
  generalize ((Text.decimal n).reverse.dropWhile (fun c => c == '0')).reverse=kept
    at split length ⊢
  rw [split,Text.ofDigitChars_append,Nat.ofDigitChars_replicate_zero,List.length_replicate,
    Nat.mul_zero,Nat.add_zero] at value
  rw [split] at leading all
  rw [List.length_append,List.length_replicate] at length
  constructor
  · exact fun c hc => all c (List.mem_append_left _ hc)
  · cases kept with
    | nil =>
      rw [Nat.ofDigitChars_nil,Nat.mul_zero] at value
      omega
    | cons c rest => exact ⟨c,rfl,fun zero => leading (congrArg some zero)⟩
  · have least := Nat.le_mul_of_pos_left (Nat.ofDigitChars 10 kept 0) (placeValue_pos z)
    exact Nat.lt_of_le_of_lt (least.trans (Nat.le_of_eq value)) small
  · intro e he
    refine within_of_hits hit value.symm ?_
    dsimp only at he
    omega

/-- The digits of zero, digits like those of any other number, or no digits at all. -/
theorem shortest_cases (x : Binary64) :
    x.shortest=⟨['0'],0⟩ ∨ x.shortest=⟨[],0⟩ ∨ x.Plain x.shortest := by
  unfold shortest
  split
  · exact .inl rfl
  next nonzero =>
    refine .inr ?_
    rcases shortestFrom_cases x x.leadingExponent 0 17 with none | ⟨p,n,hp,hit,found⟩
    · rw [none]
      exact .inl rfl
    · rw [found]
      exact .inr (plain_of_hits (Bool.eq_false_iff.mpr nonzero) (by omega) hit)

theorem bits_of_isTop (h : x.isTop=true) :
    x.bits∈[0x7fefffffffffffff,0x7feffffffffffffe,0xffefffffffffffff,0xffeffffffffffffe] := by
  have word := x.bits.toNat_lt
  rw [isTop,Bool.and_eq_true,beq_iff_eq,decide_eq_true_eq,scale] at h
  obtain ⟨top,large⟩ := h
  have field : x.exponentField=2046 := by omega
  rw [significand,if_neg (by omega)] at large
  rw [exponentField] at field
  rw [fractionField] at large
  rw [fractionBound_eq] at field large
  have cases : x.bits.toNat=0x7fefffffffffffff ∨ x.bits.toNat=0x7feffffffffffffe ∨
      x.bits.toNat=0xffefffffffffffff ∨ x.bits.toNat=0xffeffffffffffffe := by omega
  simp only [← UInt64.toNat_inj,List.mem_cons,List.not_mem_nil,or_false]
  exact cases

/-- The value of digits has a number. It is in question for the largest numbers only, where the
digits may lie above the number and be rounded up again. -/
theorem isSome_ofParts?_shortest (finite : x.isFinite=true) (h : x.Plain x.shortest) :
    (ofParts? (Nat.ofDigitChars 10 x.shortest.digits 0)
      (x.shortest.exponent+1-x.shortest.digits.length)).isSome=true := by
  by_cases behind : x.shortest.exponent+1-x.shortest.digits.length<0
  · exact isSome_ofParts?_neg _ behind
  cases top : x.isTop with
  | true =>
    have largest : ([0x7fefffffffffffff,0x7feffffffffffffe,0xffefffffffffffff,
        0xffeffffffffffffe] : List UInt64).all (fun bits =>
          (ofParts? (Nat.ofDigitChars 10 (mk bits).shortest.digits 0)
            ((mk bits).shortest.exponent+1-(mk bits).shortest.digits.length)).isSome)=true := by
      decide +kernel
    exact List.all_eq_true.mp largest x.bits (bits_of_isTop top)
  | false =>
    obtain ⟨e,he⟩ := Int.eq_ofNat_of_zero_le (Int.not_lt.mp behind)
    have reached := (h.within e (by omega)).trans (high_le_reach finite top)
    rw [he]
    exact isSome_ofParts? h.value_lt (Nat.le_of_mul_le_mul_left reached (by decide))

end FleetConsole.Binary64
