import FleetConsole.Text.Blank
import FleetConsole.Text.Numeral
import Mathlib.Algebra.GroupWithZero.Nat

namespace FleetConsole.Text

theorem digit?_of_isDigit {c : Char} (h : c.isDigit=true) : digit? c=some (c.toNat-48) := by
  rw [Char.isDigit,Bool.and_eq_true,decide_eq_true_eq,decide_eq_true_eq] at h
  exact if_pos h

theorem isDigit_iff {c : Char} : (digit? c).isSome=true ↔ c.isDigit=true := by
  constructor
  · intro h
    rw [Char.isDigit,Bool.and_eq_true,decide_eq_true_eq,decide_eq_true_eq]
    unfold digit? at h
    split at h
    next within => exact within
    next => cases h
  · intro h
    rw [digit?_of_isDigit h,Option.isSome_some]

theorem isDigit_of_mem_decimal {n : Nat} {c : Char} (h : c∈decimal n) : c.isDigit=true :=
  Nat.isDigit_of_mem_toDigits (by decide) (by decide) h

theorem not_mem_digits {digits : List Char} (h : ∀ c∈digits,c.isDigit=true) {c : Char}
    (hc : c.isDigit=false) : c∉digits := by
  intro member
  rw [h c member] at hc
  cases hc

theorem not_mem_decimal {c : Char} (hc : c.isDigit=false) (n : Nat) : c∉decimal n :=
  not_mem_digits (fun _ => isDigit_of_mem_decimal) hc

theorem ofDigitChars_decimal (n : Nat) : Nat.ofDigitChars 10 (decimal n) 0=n :=
  Nat.ofDigitChars_toDigits (by decide) (by decide)

theorem decimal_ne_nil (n : Nat) : decimal n≠[] := Nat.toDigits_ne_nil

/-- Only zero is written with a zero in front. -/
theorem head?_decimal {n : Nat} (h : 0<n) : (decimal n).head?≠some '0' := by
  have small : ∀ d : Fin 10,0<d.val → Nat.digitChar d ≠ '0' := by decide
  induction n using Nat.strongRecOn with
  | ind n ih =>
    rw [decimal,Nat.toDigits_eq_if (by decide)]
    split
    next hn =>
      intro e
      exact small ⟨n,hn⟩ h (Option.some.inj e)
    next hn =>
      have hi := ih (n/10) (by omega) (by omega)
      rw [decimal] at hi
      cases hs : Nat.toDigits 10 (n/10) with
      | nil => exact absurd hs Nat.toDigits_ne_nil
      | cons c digits =>
        rw [hs] at hi
        exact hi

theorem le_ofDigitChars (digits : List Char) (value : Nat) :
    value ≤ Nat.ofDigitChars 10 digits value := by
  induction digits generalizing value with
  | nil => exact Nat.le_refl value
  | cons c digits ih =>
    rw [Nat.ofDigitChars_cons]
    have h := ih (10*value+(c.toNat - '0'.toNat))
    omega

theorem ofDigitChars_append (a b : List Char) :
    Nat.ofDigitChars 10 (a++b) 0=
      10^b.length*Nat.ofDigitChars 10 a 0+Nat.ofDigitChars 10 b 0 := by
  rw [Nat.ofDigitChars_append,Nat.ofDigitChars_eq_ofDigitChars_zero]

/-- So many digits stay below so many places. -/
theorem ofDigitChars_lt {digits : List Char} (h : ∀ c∈digits,c.isDigit=true) :
    Nat.ofDigitChars 10 digits 0<10^digits.length := by
  induction digits with
  | nil => exact Nat.one_pos
  | cons c digits ih =>
    obtain ⟨hc,hd⟩ := List.forall_mem_cons.mp h
    have rest := ih hd
    have first : Nat.ofDigitChars 10 [c] 0 ≤ 9 := by
      have bound : c ≤ '9' := by
        rw [Char.isDigit,Bool.and_eq_true,decide_eq_true_eq,decide_eq_true_eq] at hc
        exact hc.2
      have code : c.toNat ≤ 57 := bound
      rw [Nat.ofDigitChars_cons,Nat.ofDigitChars_nil]
      have zero : '0'.toNat=48 := rfl
      omega
    rw [← List.singleton_append,ofDigitChars_append,List.length_append,List.length_singleton,
      Nat.add_comm 1,Nat.pow_succ]
    have places := Nat.mul_le_mul_left (10^digits.length) first
    omega

theorem digitsFrom?_eq {digits : List Char} (h : ∀ c∈digits,c.isDigit=true) (value : Nat) :
    digitsFrom? value digits=some (Nat.ofDigitChars 10 digits value) := by
  induction digits generalizing value with
  | nil => rfl
  | cons c digits ih =>
    obtain ⟨hc,hd⟩ := List.forall_mem_cons.mp h
    rw [digitsFrom?,digit?_of_isDigit hc,Nat.ofDigitChars_cons]
    exact ih hd _

section

variable {p : Char → Bool} {front rest : List Char}

theorem takeWhile_front (hf : ∀ c∈front,p c=true) (hr : rest.head?.any p=false) :
    (front++rest).takeWhile p=front := by
  rw [List.takeWhile_append_of_pos hf]
  cases rest with
  | nil => exact List.append_nil front
  | cons c rest =>
    have hc : ¬p c=true := Bool.eq_false_iff.mp hr
    rw [List.takeWhile_cons_of_neg hc,List.append_nil]

theorem dropWhile_front (hf : ∀ c∈front,p c=true) (hr : rest.head?.any p=false) :
    (front++rest).dropWhile p=rest := by
  rw [List.dropWhile_append_of_pos hf]
  cases rest with
  | nil => rfl
  | cons c rest =>
    have hc : ¬p c=true := Bool.eq_false_iff.mp hr
    exact List.dropWhile_cons_of_neg hc

end

theorem isDigit_of_mem_padded {width n : Nat} {c : Char} (h : c∈padded width n) :
    c.isDigit=true := by
  rw [padded] at h
  rcases List.mem_append.mp h with h | h
  · rw [(List.mem_replicate.mp h).2]
    rfl
  · exact isDigit_of_mem_decimal h

theorem not_mem_padded {c : Char} (hc : c.isDigit=false) (width n : Nat) : c∉padded width n :=
  not_mem_digits (fun _ => isDigit_of_mem_padded) hc

theorem padded_ne_nil (width n : Nat) : padded width n≠[] := by
  intro h
  exact decimal_ne_nil n (List.append_eq_nil_iff.mp h).2

theorem ofDigitChars_padded (width n : Nat) : Nat.ofDigitChars 10 (padded width n) 0=n := by
  rw [padded,ofDigitChars_append,Nat.ofDigitChars_replicate_zero,ofDigitChars_decimal]
  omega

theorem length_padded {width n : Nat} (hw : 0<width) (h : n<10^width) :
    (padded width n).length=width := by
  have fits : (decimal n).length ≤ width := (Nat.length_toDigits_le_iff (by decide) hw).mpr h
  rw [padded]
  simp only [List.length_append,List.length_replicate]
  omega

theorem isBlank_of_isDigit {c : Char} (h : c.isDigit=true) : isBlank c=false := by
  rw [Char.isDigit,Bool.and_eq_true,decide_eq_true_eq,decide_eq_true_eq] at h
  have low : 48 ≤ c.toNat := h.1
  have high : c.toNat ≤ 57 := h.2
  simp only [isBlank,blankRanges,List.any_cons,List.any_nil,Bool.or_false,Bool.or_eq_false_iff,
    Bool.and_eq_false_iff,decide_eq_false_iff_not]
  omega

theorem trimLeft_cons {c : Char} (h : isBlank c=false) (rest : List Char) :
    trimLeft (c :: rest)=c :: rest :=
  List.dropWhile_cons_of_neg (Bool.eq_false_iff.mp h)

theorem trimLeft_padded (width n : Nat) (rest : List Char) :
    trimLeft (padded width n++rest)=padded width n++rest := by
  cases h : padded width n with
  | nil => exact absurd h (padded_ne_nil width n)
  | cons c digits =>
    have digit : c.isDigit=true := isDigit_of_mem_padded (by rw [h]; exact List.mem_cons_self ..)
    exact trimLeft_cons (isBlank_of_isDigit digit) _

end FleetConsole.Text
