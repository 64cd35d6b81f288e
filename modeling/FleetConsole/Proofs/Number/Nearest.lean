import FleetConsole.Number.Binary64
import Mathlib.Tactic.Linarith
import Mathlib.Tactic.Ring

namespace FleetConsole

/-- Rounding goes up by no more than a half. -/
theorem roundHalfEven_le (num : Nat) {den : Nat} (h : 0<den) :
    2*(den*roundHalfEven num den) ≤ 2*num+den := by
  have whole := Nat.div_add_mod num den
  have small := Nat.mod_lt num h
  unfold roundHalfEven
  dsimp only
  split_ifs with down up
  · omega
  · rw [Nat.mul_add]
    omega
  · rcases Nat.mod_two_eq_zero_or_one (num/den) with even | odd
    · rw [even,Nat.add_zero]
      omega
    · rw [odd,Nat.mul_add]
      omega

/-- Nor does it go down by more. -/
theorem le_roundHalfEven (num : Nat) {den : Nat} (h : 0<den) :
    2*num ≤ 2*(den*roundHalfEven num den)+den := by
  have whole := Nat.div_add_mod num den
  have small := Nat.mod_lt num h
  unfold roundHalfEven
  dsimp only
  split_ifs with down up
  · omega
  · rw [Nat.mul_add]
    omega
  · rw [Nat.mul_add]
    omega

namespace Binary64

theorem fractionBound_eq : fractionBound=2^52 := rfl

/-- Powers of this size are never multiplied out. -/
theorem two_pow_split (k a b : Nat) (h : k=a+b) : 2^k=2^a*2^b := by rw [h,Nat.pow_add]

/-- The step, as a power of two, in which the number nearest to a quotient is counted. -/
def stepOf (num den : Nat) : Nat := (num*unitsPerOne/den).log2+1-53

/-- How many of these steps it is. -/
def stepsOf (num den : Nat) : Nat := roundHalfEven (num*unitsPerOne) (den<<<stepOf num den)

/-- Step and steps find their place below the exponent of infinity. -/
def InRange (num den : Nat) : Prop :=
  stepOf num den*fractionBound+stepsOf num den<topExponent*fractionBound

section Nearest

variable {num den : Nat}

theorem stepWidth_pos (num : Nat) (hd : 0<den) : 0<den*2^stepOf num den :=
  Nat.mul_pos hd (Nat.two_pow_pos _)

theorem stepsOf_le_half (num : Nat) (hd : 0<den) :
    2*(den*2^stepOf num den*stepsOf num den) ≤ 2*(num*unitsPerOne)+den*2^stepOf num den := by
  rw [stepsOf,Nat.shiftLeft_eq]
  exact roundHalfEven_le _ (stepWidth_pos num hd)

theorem half_le_stepsOf (num : Nat) (hd : 0<den) :
    2*(num*unitsPerOne) ≤ 2*(den*2^stepOf num den*stepsOf num den)+den*2^stepOf num den := by
  rw [stepsOf,Nat.shiftLeft_eq]
  exact le_roundHalfEven _ (stepWidth_pos num hd)

/-- A quotient of its step is below the bound of the significand. -/
theorem lt_stepWidth (num : Nat) (hd : 0<den) : num*unitsPerOne<den*2^stepOf num den*2^53 := by
  have below : num*unitsPerOne/den<2^(stepOf num den+53) :=
    Nat.lt_of_lt_of_le Nat.lt_log2_self
      (Nat.pow_le_pow_right (by decide) (by rw [stepOf]; omega))
  have h := (Nat.div_lt_iff_lt_mul hd).mp below
  rwa [Nat.pow_add,Nat.mul_comm _ den,← Nat.mul_assoc] at h

/-- Where the step is not the smallest one, the quotient is not below the fraction's bound. -/
theorem stepWidth_le (hs : stepOf num den≠0) : den*2^stepOf num den*2^52 ≤ num*unitsPerOne := by
  have log : (num*unitsPerOne/den).log2=stepOf num den+52 := by
    rw [stepOf] at hs ⊢
    omega
  have positive : num*unitsPerOne/den≠0 := by
    intro zero
    rw [stepOf,zero] at hs
    exact hs rfl
  have above : 2^(stepOf num den+52) ≤ num*unitsPerOne/den := by
    rw [← log]
    exact Nat.log2_self_le positive
  have h := (Nat.mul_le_mul_left den above).trans (Nat.mul_div_le _ _)
  rwa [Nat.pow_add,← Nat.mul_assoc] at h

theorem stepsOf_le (num : Nat) (hd : 0<den) : stepsOf num den ≤ 2*fractionBound := by
  have width := stepWidth_pos num hd
  have half := stepsOf_le_half num hd
  have below := lt_stepWidth num hd
  rw [fractionBound_eq]
  by_contra excess
  have more : den*2^stepOf num den*(2^53+1) ≤ den*2^stepOf num den*stepsOf num den :=
    Nat.mul_le_mul_left _ (by omega)
  rw [Nat.mul_add] at more
  omega

theorem le_stepsOf (hd : 0<den) (hs : stepOf num den≠0) : fractionBound ≤ stepsOf num den := by
  have width := stepWidth_pos num hd
  have half := half_le_stepsOf num hd
  have above := stepWidth_le hs
  rw [fractionBound_eq]
  by_contra under
  have less : den*2^stepOf num den*(stepsOf num den+1) ≤ den*2^stepOf num den*2^52 :=
    Nat.mul_le_mul_left _ (by omega)
  rw [Nat.mul_add] at less
  omega

theorem bits_nearest (h : InRange num den) :
    (nearest num den).bits.toNat=stepOf num den*fractionBound+stepsOf num den := by
  have small : stepOf num den*fractionBound+stepsOf num den<UInt64.size :=
    Nat.lt_trans h (by decide)
  change (UInt64.ofNat (min (stepOf num den*fractionBound+stepsOf num den)
    (topExponent*fractionBound))).toNat=_
  rw [Nat.min_eq_left (Nat.le_of_lt h),UInt64.toNat_ofNat_of_lt' small]

theorem isFinite_of_inRange (h : InRange num den) : (nearest num den).isFinite=true := by
  have bits := bits_nearest h
  rw [InRange] at h
  rw [isFinite,bne_iff_ne,exponentField,bits]
  simp only [fractionBound_eq,topExponent] at h ⊢
  omega

/-- What is not in range becomes infinity. -/
theorem nearest_of_not_inRange (h : ¬InRange num den) : nearest num den=infinity := by
  have clipped : min (stepOf num den*fractionBound+stepsOf num den) (topExponent*fractionBound)=
      topExponent*fractionBound := Nat.min_eq_right (Nat.le_of_not_lt h)
  change (⟨UInt64.ofNat (min (stepOf num den*fractionBound+stepsOf num den)
    (topExponent*fractionBound))⟩ : Binary64)=_
  rw [clipped]
  decide

theorem isFinite_of_not_isInfinite (h : (nearest num den).isInfinite=false) :
    (nearest num den).isFinite=true := by
  by_cases inside : InRange num den
  · exact isFinite_of_inRange inside
  · rw [nearest_of_not_inRange inside] at h
    cases h

/-- In range, the steps are counted as they are, also where they fill the significand up and the
exponent goes one further. -/
theorem units_of_inRange (hd : 0<den) (h : InRange num den) :
    (nearest num den).units=stepsOf num den*2^stepOf num den := by
  have bits := bits_nearest h
  have most := stepsOf_le num hd
  have least : stepOf num den≠0 → fractionBound ≤ stepsOf num den := le_stepsOf hd
  rw [InRange] at h
  simp only [fractionBound_eq,topExponent] at h bits most least
  rw [units,Nat.shiftLeft_eq,significand,scale,exponentField,fractionField,bits,fractionBound_eq]
  rcases Nat.lt_or_ge (stepsOf num den) (2^52) with small | normal
  · have zero : stepOf num den=0 := by
      by_contra hs
      have := least hs
      omega
    have field : (stepOf num den*2^52+stepsOf num den)/2^52%2048=0 := by omega
    have fraction : (stepOf num den*2^52+stepsOf num den)%2^52=stepsOf num den := by omega
    rw [if_pos field,field,fraction,zero]
  rcases Nat.eq_or_lt_of_le most with full | room
  · have field : (stepOf num den*2^52+stepsOf num den)/2^52%2048=stepOf num den+2 := by omega
    have fraction : (stepOf num den*2^52+stepsOf num den)%2^52=0 := by omega
    have next : stepOf num den+2-1=stepOf num den+1 := by omega
    rw [if_neg (by omega),field,fraction,full,next,Nat.add_zero,Nat.pow_succ]
    ring
  · have field : (stepOf num den*2^52+stepsOf num den)/2^52%2048=stepOf num den+1 := by omega
    have fraction : 2^52+(stepOf num den*2^52+stepsOf num den)%2^52=stepsOf num den := by omega
    rw [if_neg (by omega),field,fraction,Nat.add_sub_cancel]

/-- Half of the largest step, in units. -/
@[irreducible] def topHalf : Nat := 2^2044

theorem topHalf_pos : 0<topHalf := by decide +kernel

theorem two_pow_le_topHalf {k : Nat} (h : k ≤ 2044) : 2^k ≤ topHalf := by
  have power {j : Nat} (hj : k ≤ j) : 2^k ≤ 2^j := Nat.pow_le_pow_right (by decide) hj
  unfold topHalf
  exact power h

theorem two_pow_top {k : Nat} (h : k=2045) : 2^k=topHalf*2^1 := by
  unfold topHalf
  exact two_pow_split k 2044 1 h

/-- Quotients from here on round to infinity, in units: half a step beyond the largest number. -/
def limit : Nat := (2^54-1)*topHalf

private theorem shifted_lt (k : Nat) : (2^54-1)*2^k<2^(54+k) := by
  rw [Nat.pow_add]
  exact Nat.mul_lt_mul_of_pos_right (by decide) (Nat.two_pow_pos k)

theorem limit_lt : limit<2^(54+2044) := by
  unfold limit topHalf
  exact shifted_lt 2044

private theorem steps_lt {width steps scaled bound : Nat}
    (half : 2*(width*steps) ≤ 2*scaled+width) (twice : 2*bound=width*(2^54-1))
    (h : scaled<bound) : steps<2^53 := by
  by_contra excess
  have more : width*2^53 ≤ width*steps := Nat.mul_le_mul_left _ (Nat.le_of_not_lt excess)
  have spread : width*(2^54-1)+width=2*(width*2^53) := by ring
  linarith

theorem stepOf_le (hd : 0<den) (h : num*unitsPerOne<den*limit) : stepOf num den ≤ 2045 := by
  have floor : num*unitsPerOne/den<limit := by
    rw [Nat.div_lt_iff_lt_mul hd,Nat.mul_comm limit]
    exact h
  by_cases zero : num*unitsPerOne/den=0
  · rw [stepOf,zero]
    decide
  · have log := (Nat.log2_lt zero).mpr (floor.trans limit_lt)
    rw [stepOf]
    omega

/-- With the largest step there, that many steps stay below the bound. -/
theorem stepsOf_lt (hd : 0<den) (h : num*unitsPerOne<den*limit) (top : stepOf num den=2045) :
    stepsOf num den<2*fractionBound := by
  have twice : 2*(den*limit)=den*2^stepOf num den*(2^54-1) := by
    rw [limit,two_pow_top top]
    generalize (2 : Nat)^54-1=steps
    ring
  exact steps_lt (stepsOf_le_half num hd) twice h

theorem inRange_of_lt (hd : 0<den) (h : num*unitsPerOne<den*limit) : InRange num den := by
  have step := stepOf_le hd h
  have most := stepsOf_le num hd
  have room := stepsOf_lt hd h
  clear h
  rw [InRange]
  simp only [fractionBound_eq,topExponent] at most room ⊢
  omega

theorem isFinite_nearest (hd : 0<den) (h : num*unitsPerOne<den*limit) :
    (nearest num den).isFinite=true := isFinite_of_inRange (inRange_of_lt hd h)

/-- A number is its quotient up to half a step, which is half a unit or small beside the
quotient. -/
theorem units_nearest_le (hd : 0<den) (h : num*unitsPerOne<den*limit) :
    den*(nearest num den).units ≤ 2*(num*unitsPerOne)+den := by
  have half := stepsOf_le_half num hd
  rw [units_of_inRange hd (inRange_of_lt hd h)]
  have split : den*(stepsOf num den*2^stepOf num den)=
      den*2^stepOf num den*stepsOf num den := by ring
  rw [split]
  by_cases hs : stepOf num den=0
  · rw [hs,Nat.pow_zero,Nat.mul_one] at half ⊢
    omega
  · have above := stepWidth_le hs
    omega

end Nearest

end Binary64

end FleetConsole
