import FleetConsole.Number.Decimal
import FleetConsole.Proofs.Number.Nearest

namespace FleetConsole.Binary64

theorem unitsPerOne_pos : 0<unitsPerOne := by decide +kernel

theorem lt_limit_of_le {m n : Nat} (hn : n*unitsPerOne<limit) (h : m ≤ n) :
    m*unitsPerOne<limit := Nat.lt_of_le_of_lt (Nat.mul_le_mul_right _ h) hn

section OfNat

variable {n : Nat}

theorem isFinite_ofNat (h : n*unitsPerOne<limit) : (ofNat n).isFinite=true :=
  isFinite_nearest Nat.one_pos (by rwa [Nat.one_mul])

/-- The width of a step is one unit or small beside the number. -/
private theorem units_ofNat (h : n*unitsPerOne<limit) :
    ∃ width,(width=1 ∨ width*2^52 ≤ n*unitsPerOne) ∧
      2*(ofNat n).units ≤ 2*(n*unitsPerOne)+width ∧
      2*(n*unitsPerOne) ≤ 2*(ofNat n).units+width := by
  have up := stepsOf_le_half n Nat.one_pos
  have down := half_le_stepsOf n Nat.one_pos
  have inside : InRange n 1 := inRange_of_lt Nat.one_pos (by rwa [Nat.one_mul])
  have units : (ofNat n).units=2^stepOf n 1*stepsOf n 1 :=
    (units_of_inRange Nat.one_pos inside).trans (Nat.mul_comm _ _)
  rw [Nat.one_mul,← units] at up down
  refine ⟨2^stepOf n 1,?_,up,down⟩
  by_cases smallest : stepOf n 1=0
  · rw [smallest]
    exact .inl rfl
  · have above := stepWidth_le smallest
    rw [Nat.one_mul] at above
    exact .inr above

theorem units_ofNat_le (h : n*unitsPerOne<limit) :
    2^53*(ofNat n).units ≤ (2^53+1)*(n*unitsPerOne) := by
  obtain ⟨width,smallest | small,up,_⟩ := units_ofNat h
  · have whole : (ofNat n).units ≤ n*unitsPerOne := by omega
    exact Nat.mul_le_mul (Nat.le_succ _) whole
  · linarith

theorem le_units_ofNat (h : n*unitsPerOne<limit) : n*unitsPerOne ≤ 2*(ofNat n).units := by
  obtain ⟨width,smallest | small,_,down⟩ := units_ofNat h
  · omega
  · linarith

end OfNat

theorem isFinite_mul {x y : Binary64} (h : x.units*y.units<unitsPerOne*limit) :
    (x.mul y).isFinite=true := by
  apply isFinite_nearest (Nat.mul_pos unitsPerOne_pos unitsPerOne_pos)
  rw [Nat.mul_comm _ unitsPerOne,Nat.mul_assoc]
  exact Nat.mul_lt_mul_of_pos_left h unitsPerOne_pos

theorem placeValue_le {a b : Nat} (h : a ≤ b) : Text.placeValue a ≤ Text.placeValue b :=
  Nat.pow_le_pow_right (by decide) h

theorem lt_limit_of_le_topPower {e : Nat} (h : e ≤ topPower) :
    Text.placeValue e*unitsPerOne<limit := by
  have top : Text.placeValue topPower*unitsPerOne<limit := by decide +kernel
  exact lt_limit_of_le top (placeValue_le h)

/-- All significands are far below the limit. -/
theorem lt_limit_of_lt {n : Nat} (h : n<2^64) : n*unitsPerOne<limit := by
  have top : 2^64*unitsPerOne<limit := by decide +kernel
  exact lt_limit_of_le top (Nat.le_of_lt h)

/-- Up to here a product is finite, though both factors may have been rounded up. -/
def reach : Nat := (2^54-5)*topHalf

private theorem product_lt {x y s t u w : Nat} (hx : 2^53*x ≤ (2^53+1)*s)
    (hy : 2^53*y ≤ (2^53+1)*t) (h : s*t ≤ (2^54-5)*w*u) (pos : 0<w*u) :
    x*y<u*((2^54-1)*w) := by
  have both := Nat.mul_le_mul hx hy
  have left : 2^53*x*(2^53*y)=2^106*(x*y) := by ring
  have right : (2^53+1)*s*((2^53+1)*t)=(2^53+1)^2*(s*t) := by ring
  have bound : (2^54-5)*w*u=(2^54-5)*(w*u) := Nat.mul_assoc _ _ _
  have goal : u*((2^54-1)*w)=(2^54-1)*(w*u) := by ring
  rw [left,right] at both
  rw [bound] at h
  rw [goal]
  generalize x*y=product at both ⊢
  generalize s*t=factors at both h
  generalize w*u=unit at h pos ⊢
  have first : 2^106*product ≤ (2^53+1)^2*((2^54-5)*unit) :=
    both.trans (Nat.mul_le_mul_left _ h)
  -- the errors of both factors together are less than what the limit leaves
  have second : (2^53+1)^2*((2^54-5)*unit)<2^106*((2^54-1)*unit) := by
    rw [← Nat.mul_assoc,← Nat.mul_assoc]
    exact Nat.mul_lt_mul_of_pos_right (by decide) pos
  exact Nat.lt_of_mul_lt_mul_left (Nat.lt_of_le_of_lt first second)

theorem units_ofNat_mul_lt {significand e : Nat} (hs : significand*unitsPerOne<limit)
    (he : e ≤ topPower) (h : significand*Text.placeValue e*unitsPerOne ≤ reach) :
    (ofNat significand).units*(tenPower e).units<unitsPerOne*limit := by
  have up := units_ofNat_le hs
  have up' := units_ofNat_le (lt_limit_of_le_topPower he)
  have factors : significand*unitsPerOne*(Text.placeValue e*unitsPerOne) ≤ reach*unitsPerOne := by
    have same : significand*unitsPerOne*(Text.placeValue e*unitsPerOne)=
        significand*Text.placeValue e*unitsPerOne*unitsPerOne := by ring
    rw [same]
    exact Nat.mul_le_mul_right _ h
  exact product_lt up up' factors (Nat.mul_pos topHalf_pos unitsPerOne_pos)

/-- Only zero has a place so far to the left. -/
theorem eq_zero_of_topPower_lt {significand e : Nat} (he : topPower<e)
    (h : significand*Text.placeValue e*unitsPerOne ≤ reach) : significand=0 := by
  by_contra nonzero
  have power : Text.placeValue (topPower+1) ≤ significand*Text.placeValue e :=
    (placeValue_le he).trans (Nat.le_mul_of_pos_left _ (Nat.pos_of_ne_zero nonzero))
  have far : reach<Text.placeValue (topPower+1)*unitsPerOne := by decide +kernel
  exact Nat.not_lt.mpr ((Nat.mul_le_mul_right _ power).trans h) far

/-- A number with places to the left has a value, if it is within reach. -/
theorem isSome_ofParts? {significand e : Nat} (hs : significand<2^64)
    (h : significand*Text.placeValue e*unitsPerOne ≤ reach) :
    (ofParts? significand e).isSome=true := by
  have small := lt_limit_of_lt hs
  rw [ofParts?,if_neg (by omega),Int.toNat_natCast]
  by_cases he : e ≤ topPower
  · have finite := isFinite_mul (units_ofNat_mul_lt small he h)
    have noInfinity : ((ofNat significand).mul (tenPower e)).isInfinite=false := by
      rw [isFinite,bne_iff_ne] at finite
      rw [isInfinite,beq_eq_false_iff_ne.mpr finite,Bool.false_and]
    rw [if_pos he]
    dsimp only
    rw [noInfinity]
    rfl
  · have zero := eq_zero_of_topPower_lt (Nat.lt_of_not_le he) h
    subst zero
    rw [if_neg he]
    decide +kernel

theorem isSome_ofParts?_neg (significand : Nat) {e : Int} (he : e<0) :
    (ofParts? significand e).isSome=true := by
  rw [ofParts?,if_pos he]
  rfl

/-- What a significand, or a quotient of it, does not exceed. -/
def quotientBound : Nat := 2^65*unitsPerOne

section Div

variable {x y : Binary64}

private theorem lt_of_bound (hx : x.units ≤ quotientBound) (hy : unitsPerOne ≤ 2*y.units) :
    x.units*unitsPerOne<y.units*limit := by
  have numerator : 2*(x.units*unitsPerOne) ≤ 2^66*(unitsPerOne*unitsPerOne) := by
    have h := Nat.mul_le_mul_right unitsPerOne hx
    rw [quotientBound,Nat.mul_assoc] at h
    linarith
  have denominator : unitsPerOne*limit ≤ 2*(y.units*limit) := by
    have h := Nat.mul_le_mul_right limit hy
    rwa [Nat.mul_assoc] at h
  have apart : 2^66*(unitsPerOne*unitsPerOne)<unitsPerOne*limit := by
    have top : 2^66*unitsPerOne<limit := by decide +kernel
    rw [Nat.mul_left_comm]
    exact Nat.mul_lt_mul_of_pos_left top unitsPerOne_pos
  linarith

theorem isFinite_div (hx : x.units ≤ quotientBound) (hy : unitsPerOne ≤ 2*y.units) :
    (x.div y).isFinite=true := by
  have positive := unitsPerOne_pos
  exact isFinite_nearest (by omega) (lt_of_bound hx hy)

/-- By four or more, the quotient is no larger. -/
theorem units_div_le (hx : x.units ≤ quotientBound) (hy : 4*unitsPerOne ≤ y.units) :
    (x.div y).units ≤ quotientBound := by
  have positive := unitsPerOne_pos
  have divisor : 0<y.units := by omega
  have error : y.units*(x.div y).units ≤ 2*(x.units*unitsPerOne)+y.units :=
    units_nearest_le divisor (lt_of_bound hx (by omega))
  have numerator := Nat.mul_le_mul_right unitsPerOne hx
  have denominator := Nat.mul_le_mul_right quotientBound hy
  have bound : 0<quotientBound*unitsPerOne :=
    Nat.mul_pos (Nat.mul_pos (by decide) positive) positive
  by_contra more
  have large : y.units*(quotientBound+1) ≤ y.units*(x.div y).units :=
    Nat.mul_le_mul_left _ (Nat.lt_of_not_le more)
  have split : 4*unitsPerOne*quotientBound=4*(quotientBound*unitsPerOne) := by ring
  rw [Nat.mul_add,Nat.mul_one] at large
  rw [split] at denominator
  linarith

end Div

theorem le_units_tenPower {e : Nat} (he : e ≤ topPower) : unitsPerOne ≤ 2*(tenPower e).units := by
  have one : 1 ≤ Text.placeValue e := Nat.one_le_pow _ _ (by decide)
  have h := le_units_ofNat (lt_limit_of_le_topPower he)
  exact (Nat.le_mul_of_pos_left _ one).trans h

theorem four_le_units_tenPower {e : Nat} (he : e ≤ topPower) (places : 1 ≤ e) :
    4*unitsPerOne ≤ (tenPower e).units := by
  have half : Text.placeValue e*unitsPerOne ≤ 2*(tenPower e).units :=
    le_units_ofNat (lt_limit_of_le_topPower he)
  have ten : 10*unitsPerOne ≤ Text.placeValue e*unitsPerOne :=
    Nat.mul_le_mul_right _ (placeValue_le places)
  have positive := unitsPerOne_pos
  linarith

theorem isFinite_divideByTens {x : Binary64} (finite : x.isFinite=true)
    (hx : x.units ≤ quotientBound) (e : Nat) : (x.divideByTens e).isFinite=true := by
  induction e using Nat.strongRecOn generalizing x with
  | ind e ih =>
    rw [divideByTens]
    split
    next he => exact isFinite_div hx (le_units_tenPower he)
    next he =>
      split
      · exact finite
      · have smaller : e-topPower<e := by
          rw [topPower] at he ⊢
          omega
        exact ih _ smaller (isFinite_div hx (le_units_tenPower (Nat.le_refl _)))
          (units_div_le hx (four_le_units_tenPower (Nat.le_refl _) (by decide)))

theorem isFinite_neg {x : Binary64} (h : x.isFinite=true) : x.neg.isFinite=true := by
  have field : x.neg.exponentField=x.exponentField := by
    have shifted : x.neg.bits.toNat>>>52%2^11=x.bits.toNat>>>52%2^11 := by
      rw [neg,UInt64.toNat_xor,Nat.shiftRight_xor_distrib,Nat.xor_mod_two_pow]
      exact Nat.xor_zero _
    rwa [Nat.shiftRight_eq_div_pow,Nat.shiftRight_eq_div_pow] at shifted
  rwa [isFinite,field]

theorem isFinite_ofNat_of_lt {n : Nat} (h : n<2^64) : (ofNat n).isFinite=true :=
  isFinite_ofNat (lt_limit_of_lt h)

/-- There is no infinite value. -/
theorem isFinite_of_ofParts? {significand : Nat} {exponent : Int} {y : Binary64}
    (hs : significand<2^64) (h : ofParts? significand exponent=some y) : y.isFinite=true := by
  have small := lt_limit_of_lt hs
  rw [ofParts?] at h
  dsimp only at h
  split at h
  · cases h
    refine isFinite_divideByTens (isFinite_ofNat small) ?_ _
    have up := units_ofNat_le small
    have factor := Nat.mul_le_mul_right unitsPerOne (Nat.le_of_lt hs)
    rw [quotientBound]
    linarith
  · split at h
    · split at h
      · cases h
      next bounded =>
        cases h
        exact isFinite_of_not_isInfinite (Bool.eq_false_iff.mpr bounded)
    · split at h
      · cases h
        exact isFinite_ofNat small
      · cases h

end FleetConsole.Binary64
