import FleetConsole.Json.Shape
import FleetConsole.Proofs.Json.Numeral
import FleetConsole.Proofs.Json.Reader
import FleetConsole.Proofs.Number.Shortest

namespace FleetConsole.Json

/-- Digits on both sides of a point. -/
structure Pointed (before behind : List Char) : Prop where
  whole : WholeDigits before
  digits : ∀ c∈behind,c.isDigit=true
  nonempty : behind≠[]
  bounded : Nat.ofDigitChars 10 (before++behind) 0<significandBound

theorem read_pointed {whole fraction rest : List Char} (h : Pointed whole fraction)
    (hr : startsWithDigit rest=false) :
    Numeral.read (whole ++ '.' :: (fraction++rest))=
      Numeral.readExponent
        ⟨Nat.ofDigitChars 10 (whole++fraction) 0,-(fraction.length : Int),false⟩ rest := by
  have bounded := h.bounded
  rw [Nat.ofDigitChars_append] at bounded ⊢
  have first : Numeral.readWhole (whole ++ '.' :: (fraction++rest))=
      .ok (⟨Nat.ofDigitChars 10 whole 0,0,true⟩,'.' :: (fraction++rest)) :=
    Numeral.readWhole_digits h.whole
      (Nat.lt_of_le_of_lt (Text.le_ofDigitChars fraction _) bounded) rfl
  rw [Numeral.read,first]
  show (Numeral.readFraction _ ('.' :: (fraction++rest))).bind _=_
  rw [Numeral.readFraction_digits h.digits h.nonempty bounded hr,Int.zero_sub]
  rfl

theorem wholeDigits_zero : WholeDigits ['0'] where
  all := List.forall_mem_singleton.mpr rfl
  nonempty := List.cons_ne_nil _ _
  zero _ := rfl

theorem wholeDigits_of_first {digits : List Char} (all : ∀ c∈digits,c.isDigit=true)
    (first : ∃ c,digits.head?=some c ∧ c ≠ '0') : WholeDigits digits where
  all := all
  nonempty := by
    rintro rfl
    obtain ⟨c,hc,_⟩ := first
    cases hc
  zero h := by
    obtain ⟨c,hc,nonzero⟩ := first
    rw [h] at hc
    exact absurd (Option.some.inj hc).symm nonzero

theorem forall_isDigit_append {a b : List Char} (ha : ∀ c∈a,c.isDigit=true)
    (hb : ∀ c∈b,c.isDigit=true) : ∀ c∈a++b,c.isDigit=true := by
  intro c hc
  rcases List.mem_append.mp hc with hc | hc
  · exact ha c hc
  · exact hb c hc

theorem isDigit_of_mem_zeros {n : Nat} : ∀ c∈List.replicate n '0',c.isDigit=true := by
  intro c hc
  rw [(List.mem_replicate.mp hc).2]
  rfl

/-- Zeros reach from the point to digits behind it, or from digits to the point behind them. -/
theorem positional_of_plain {x : Binary64} {d : DecimalDigits} (h : x.Plain d)
    (small : d.exponent<16) :
    ∃ whole fraction,positional d=whole ++ '.' :: fraction ∧ Pointed whole fraction := by
  rw [positional]
  split
  next behind =>
    refine ⟨['0'],List.replicate (-d.exponent-1).toNat '0'++d.digits,rfl,wholeDigits_zero,
      forall_isDigit_append isDigit_of_mem_zeros h.digits,?_,?_⟩
    · intro none
      obtain ⟨c,hc,_⟩ := h.first
      rw [(List.append_eq_nil_iff.mp none).2] at hc
      cases hc
    · have zeros : Nat.ofDigitChars 10 (['0']++List.replicate (-d.exponent-1).toNat '0') 0=0 := by
        rw [Text.ofDigitChars_append,Nat.ofDigitChars_replicate_zero]
        rfl
      rw [← List.append_assoc,Text.ofDigitChars_append,zeros,Nat.mul_zero,Nat.zero_add]
      exact h.value_lt
  next ahead =>
    dsimp only
    generalize hlead : d.exponent.toNat+1=lead
    have few : lead ≤ 16 := by omega
    have digits : ∀ c∈d.digits.take lead++List.replicate (lead-d.digits.length) '0',
        c.isDigit=true :=
      forall_isDigit_append (fun c hc => h.digits c (List.mem_of_mem_take hc))
        isDigit_of_mem_zeros
    have first : ∃ c,(d.digits.take lead++List.replicate (lead-d.digits.length) '0').head?=some c ∧
        c ≠ '0' := by
      obtain ⟨c,hc,nonzero⟩ := h.first
      refine ⟨c,?_,nonzero⟩
      subst hlead
      cases hd : d.digits with
      | nil =>
        rw [hd] at hc
        cases hc
      | cons c' rest =>
        rw [hd] at hc
        exact hc
    have whole := wholeDigits_of_first digits first
    by_cases short : d.digits.drop lead=[]
    · rw [if_pos short]
      have length : d.digits.length ≤ lead := List.drop_eq_nil_iff.mp short
      refine ⟨_,['0'],rfl,whole,wholeDigits_zero.all,List.cons_ne_nil _ _,?_⟩
      have value := Text.ofDigitChars_lt (forall_isDigit_append digits wholeDigits_zero.all)
      rw [List.length_append,List.length_append,List.length_take,List.length_replicate] at value
      have places : min lead d.digits.length+(lead-d.digits.length)+['0'].length ≤ 17 := by
        rw [List.length_singleton]
        omega
      have power : 10^17<significandBound := by decide
      exact Nat.lt_trans (Nat.lt_of_lt_of_le value (Nat.pow_le_pow_right (by decide) places)) power
    · rw [if_neg short]
      refine ⟨_,_,rfl,whole,fun c hc => h.digits c (List.mem_of_mem_drop hc),short,?_⟩
      have long : lead-d.digits.length=0 := by
        rw [List.drop_eq_nil_iff] at short
        omega
      rw [long,List.replicate_zero,List.append_nil,List.take_append_drop]
      exact h.value_lt

/-- The exponent counts from behind the last digit. -/
theorem read_scientific {x : Binary64} {d : DecimalDigits} (h : x.Plain d) {rest : List Char}
    (hr : startsWithDigit rest=false) :
    Numeral.read (scientific d++rest)=
      .ok (⟨Nat.ofDigitChars 10 d.digits 0,d.exponent+1-d.digits.length,false⟩,rest) := by
  obtain ⟨digits,exponent⟩ := d
  obtain ⟨all,⟨c,hc,nonzero⟩,bounded,_⟩ := h
  dsimp only at all hc bounded ⊢
  cases digits with
  | nil => cases hc
  | cons c' fraction =>
    obtain rfl : c'=c := Option.some.inj hc
    obtain ⟨one,all⟩ := List.forall_mem_cons.mp all
    have whole : WholeDigits [c'] :=
      wholeDigits_of_first (List.forall_mem_singleton.mpr one) ⟨c',rfl,nonzero⟩
    have sign {e : Int} : (if exponent<0 then e-exponent.natAbs else e+exponent.natAbs)=
        e+exponent := by
      split <;> omega
    have shape : scientific ⟨c' :: fraction,exponent⟩++rest=
        [c']++((if fraction=[] then [] else '.' :: fraction)++
          'e' :: (if exponent<0 then '-' else '+') :: (Text.decimal exponent.natAbs++rest)) := by
      simp [scientific]
    rw [shape]
    by_cases alone : fraction=[]
    · subst alone
      rw [if_pos rfl,List.nil_append,Numeral.read,
        Numeral.readWhole_digits whole bounded (show startsWithDigit ('e' :: _)=false from rfl)]
      refine (Numeral.readExponent_digits _ (exponent<0) exponent.natAbs hr).trans ?_
      rw [sign]
      simp
    · rw [if_neg alone]
      have pointed : Pointed [c'] fraction := ⟨whole,all,alone,bounded⟩
      refine (read_pointed pointed (show startsWithDigit ('e' :: _)=false from rfl)).trans ?_
      rw [Numeral.readExponent_digits _ (exponent<0) exponent.natAbs hr,sign]
      have exponents : -(fraction.length : Int)+exponent=
          exponent+1-((c' :: fraction).length : Int) := by
        rw [List.length_cons]
        omega
      rw [exponents]
      rfl

/-- A number without its sign: it begins with a digit, and is read as a numeral that has a value. -/
structure Magnitude (text : List Char) : Prop where
  first : ∃ c tail,text=c :: tail ∧ c.isDigit=true
  read : ∃ n,n.whole=false ∧ (Binary64.ofParts? n.significand n.exponent).isSome=true ∧
    ∀ rest,endsNumeral rest=true → Numeral.read (text++rest)=.ok (n,rest)

theorem magnitude_pointed {before behind : List Char} (h : Pointed before behind) :
    Magnitude (before ++ '.' :: behind) where
  first := by
    obtain ⟨c,tail,rfl⟩ := List.exists_cons_of_ne_nil h.whole.nonempty
    exact ⟨c,_,rfl,h.whole.all c (List.mem_cons_self ..)⟩
  read := by
    have places := List.length_pos_iff.mpr h.nonempty
    refine ⟨⟨Nat.ofDigitChars 10 (before++behind) 0,-(behind.length : Int),false⟩,rfl,
      Binary64.isSome_ofParts?_neg _ (by dsimp only; omega),?_⟩
    intro rest hr
    rw [List.append_assoc]
    exact (read_pointed h (not_startsWithDigit hr)).trans (Numeral.readExponent_of_ends hr _)

theorem magnitude_scientific {x : Binary64} (finite : x.isFinite=true)
    (plain : x.Plain x.shortest) : Magnitude (scientific x.shortest) where
  first := by
    obtain ⟨c,hc,_⟩ := plain.first
    obtain ⟨tail,digits⟩ := List.head?_eq_some_iff.mp hc
    have digit := plain.digits c (digits ▸ List.mem_cons_self ..)
    rw [scientific,digits]
    exact ⟨c,_,rfl,digit⟩
  read := ⟨_,rfl,Binary64.isSome_ofParts?_shortest finite plain,
    fun _ hr => read_scientific plain (not_startsWithDigit hr)⟩

/-- A finite number is written as a magnitude with its sign. -/
theorem writeFloat_eq {x : Binary64} (finite : x.isFinite=true) :
    ∃ text,Magnitude text ∧ writeFloat x=if x.isNegative then '-' :: text else text := by
  have zero : Pointed ['0'] ['0'] :=
    ⟨wholeDigits_zero,wholeDigits_zero.all,List.cons_ne_nil _ _,by decide⟩
  rw [writeFloat,if_neg (by simp [finite])]
  refine ⟨_,?_,rfl⟩
  rcases Binary64.shortest_cases x with none | none | plain
  · rw [none]
    exact magnitude_pointed zero
  · rw [none]
    exact magnitude_pointed zero
  · split
    next small =>
      obtain ⟨before,behind,shape,h⟩ := positional_of_plain plain small.2
      rw [shape]
      exact magnitude_pointed h
    next => exact magnitude_scientific finite plain

/-- The text of a finite number is read as a number, which may be another one close by. -/
theorem readNumber_writeFloat {x : Binary64} (finite : x.isFinite=true) :
    ∃ y,∀ rest,endsNumeral rest=true → readNumber (writeFloat x++rest)=.ok (.float y,rest) := by
  obtain ⟨text,h,shape⟩ := writeFloat_eq finite
  obtain ⟨n,part,value,read⟩ := h.read
  obtain ⟨y,hy⟩ := Option.isSome_iff_exists.mp value
  have json (sign : Bool) : n.toJson? sign=some (.float (if sign then y.neg else y)) := by
    simp [Numeral.toJson?,part,hy]
  rw [shape]
  cases x.isNegative with
  | true => exact ⟨_,fun rest hr => readNumber_of_read (read rest hr) (json true)⟩
  | false =>
    refine ⟨y,fun rest hr => ?_⟩
    rw [if_neg Bool.false_ne_true]
    have plain : (text++rest).head?≠some '-' := by
      obtain ⟨c,tail,rfl,hc⟩ := h.first
      intro minus
      rw [Option.some.inj minus] at hc
      cases hc
    have unsigned := read rest hr
    rw [← if_neg (t := (text++rest).tail) (e := text++rest) plain] at unsigned
    exact readNumber_of_read unsigned (by rw [decide_eq_false plain]; exact json false)

theorem head_writeFloat {x : Binary64} (finite : x.isFinite=true) :
    ∃ c tail,writeFloat x=c :: tail ∧ (c = '-' ∨ isDigit c=true) := by
  obtain ⟨text,h,shape⟩ := writeFloat_eq finite
  obtain ⟨c,tail,first,digit⟩ := h.first
  rw [shape]
  cases x.isNegative with
  | true => exact ⟨_,_,rfl,.inl rfl⟩
  | false => exact ⟨c,tail,first,.inr (isDigit_of_isDigit digit)⟩

/-- Whether a value, if it is a number, is one that was read: finite, and of 64 bits if whole. -/
def isBounded : Json → Bool
  | .float x => x.isFinite
  | .int n => decide (n.natAbs<significandBound)
  | _ => true

theorem gather_lt {value : Nat} (h : value<significandBound) (count : Nat) (text : List Char) :
    (gather value count text).1<significandBound := by
  induction text generalizing value count with
  | nil => exact h
  | cons c rest ih =>
    rw [gather]
    split
    · exact h
    next d hd =>
      split
      next room => exact ih room _
      next => exact h

namespace Numeral

variable {n m : Numeral} {text rest : List Char}

theorem significand_readWhole (h : readWhole text=.ok (n,rest)) :
    n.significand<significandBound := by
  rw [readWhole.eq_def] at h
  split at h
  · cases h
  next c tail =>
    split_ifs at h
    · cases h
      decide
    · cases h
      have bound : 0<significandBound := by decide
      exact gather_lt bound 0 (c :: tail)

theorem significand_readFraction (hn : n.significand<significandBound)
    (h : n.readFraction text=.ok (m,rest)) : m.significand<significandBound := by
  rw [readFraction.eq_def] at h
  split at h
  next tail =>
    dsimp only at h
    split_ifs at h
    cases h
    exact gather_lt hn 0 _
  · cases h
    exact hn

theorem significand_readExponent (hn : n.significand<significandBound)
    (h : n.readExponent text=.ok (m,rest)) : m.significand<significandBound := by
  rw [readExponent.eq_def] at h
  split at h
  · cases h
    exact hn
  next c tail =>
    dsimp only at h
    split_ifs at h
    all_goals
      cases h
      exact hn

theorem significand_read (h : read text=.ok (n,rest)) : n.significand<significandBound := by
  rw [read] at h
  obtain ⟨⟨whole,_⟩,hw,h⟩ := bind_ok h
  obtain ⟨⟨part,_⟩,hf,h⟩ := bind_ok h
  exact significand_readExponent (significand_readFraction (significand_readWhole hw) hf) h

theorem isBounded_toJson? (hn : n.significand<significandBound) {negative : Bool} {v : Json}
    (h : n.toJson? negative=some v) : v.isBounded=true := by
  rw [toJson?] at h
  split_ifs at h
  · cases h
    exact decide_eq_true hn
  · cases h
    rw [isBounded,decide_eq_true_eq,Int.natAbs_neg]
    exact hn
  · cases h
    exact Binary64.isFinite_neg (Binary64.isFinite_ofNat_of_lt hn)
  · obtain ⟨x,hx,rfl⟩ := Option.map_eq_some_iff.mp h
    exact Binary64.isFinite_neg (Binary64.isFinite_of_ofParts? hn hx)
  · obtain ⟨x,hx,rfl⟩ := Option.map_eq_some_iff.mp h
    exact Binary64.isFinite_of_ofParts? hn hx

end Numeral

theorem isBounded_of_readNumber {text rest : List Char} {v : Json}
    (h : readNumber text=.ok (v,rest)) : v.isBounded=true := by
  obtain ⟨n,read,value⟩ := readNumber_ok h
  exact Numeral.isBounded_toJson? (Numeral.significand_read read) value

theorem isBounded_of_readValue {depth : Nat} {text rest : List Char} {v : Json}
    (h : readValue depth text=.ok (v,rest)) : v.isBounded=true := by
  cases number : v.isNumber with
  | false =>
    cases v with
    | int n => cases number
    | float x => cases number
    | _ => rfl
  | true =>
    obtain ⟨c,tail,rfl,_⟩ := head_of_readValue h
    rcases start_of_readValue h (.inr number) with rfl | start
    · rw [readValue.eq_def] at h
      obtain ⟨_,_,e⟩ := map_ok h
      cases e
      cases number
    · rw [readValue_number start] at h
      exact isBounded_of_readNumber h

/-- A number that was read is finite. -/
theorem isFinite_of_float? {v : Json} {x : Binary64} (hv : v.isBounded=true)
    (h : v.float?=some x) : x.isFinite=true := by
  cases v with
  | float y =>
    cases h
    exact hv
  | int n =>
    have finite := Binary64.isFinite_ofNat_of_lt (of_decide_eq_true hv)
    cases h
    split
    · exact Binary64.isFinite_neg finite
    · exact finite
  | _ => cases h

end FleetConsole.Json
