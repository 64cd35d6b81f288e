import FleetConsole.Text.Utf8
import Mathlib.Order.Bounds.Defs

namespace FleetConsole.Text

theorem fitting_le_length (room : Nat) (text : List Char) : fitting room text ≤ text.length := by
  induction text generalizing room with
  | nil => exact Nat.le_refl 0
  | cons c rest ih =>
    rw [fitting_cons]
    split
    · have := ih (room-c.utf8Size)
      simp only [List.length_cons]
      omega
    · exact Nat.zero_le _

theorem fitting_zero (text : List Char) : fitting 0 text=0 := by
  cases text with
  | nil => rfl
  | cons c rest =>
    have := c.utf8Size_pos
    rw [fitting_cons,if_neg (by omega)]

theorem fitting_of_le {room : Nat} {text : List Char} (h : utf8Length text ≤ room) :
    fitting room text=text.length := by
  induction text generalizing room with
  | nil => rfl
  | cons c rest ih =>
    rw [utf8Length_cons] at h
    have rest_fits : utf8Length rest ≤ room-c.utf8Size := by omega
    rw [fitting_cons,if_pos (by omega),ih rest_fits]
    rfl

/-- A stretch of leading characters can be told from its length in bytes. -/
theorem fitting_utf8Length_take {n : Nat} {text : List Char} (h : n ≤ text.length) :
    fitting (utf8Length (text.take n)) text=n := by
  induction text generalizing n with
  | nil =>
    simp only [List.length_nil,Nat.le_zero_eq] at h
    subst h
    rfl
  | cons c rest ih =>
    cases n with
    | zero => exact fitting_zero _
    | succ n =>
      simp only [List.length_cons,Nat.add_le_add_iff_right] at h
      rw [List.take_succ_cons,utf8Length_cons,fitting_cons,if_pos (Nat.le_add_right ..),
        Nat.add_sub_cancel_left,ih h]

theorem utf8Length_eq_zero_iff {text : List Char} : utf8Length text=0 ↔ text=[] := by
  cases text with
  | nil => exact ⟨fun _ => rfl,fun _ => rfl⟩
  | cons c rest =>
    have := c.utf8Size_pos
    rw [utf8Length_cons]
    exact ⟨fun h => by omega,nofun⟩

/-- Where a text may be cut: behind some of its leading characters. -/
def IsBoundary (text : List Char) (bytes : Nat) : Prop :=
  ∃ before after,text=before++after ∧ utf8Length before=bytes

theorem isBoundary_take (text : List Char) (n : Nat) :
    IsBoundary text (utf8Length (text.take n)) :=
  ⟨text.take n,text.drop n,(List.take_append_drop n text).symm,rfl⟩

theorem le_of_isBoundary {text : List Char} {bytes : Nat} (h : IsBoundary text bytes) :
    bytes ≤ utf8Length text := by
  obtain ⟨before,after,rfl,rfl⟩ := h
  rw [utf8Length_append]
  exact Nat.le_add_right _ _

/-- Leading characters that fit are among those that were found to fit. -/
theorem utf8Length_le_fitting {room : Nat} {before : List Char} (after : List Char)
    (h : utf8Length before ≤ room) :
    utf8Length before ≤
      utf8Length ((before++after).take (fitting room (before++after))) := by
  induction before generalizing room with
  | nil => exact Nat.zero_le _
  | cons c before ih =>
    rw [utf8Length_cons] at h
    have fits : utf8Length before ≤ room-c.utf8Size := by omega
    have rest := ih fits
    rw [List.cons_append,fitting_cons,if_pos (by omega),List.take_succ_cons,utf8Length_cons,
      utf8Length_cons]
    omega

theorem isGreatest_fitting (room : Nat) (text : List Char) :
    IsGreatest {b | IsBoundary text b ∧ b ≤ min room (utf8Length text)}
      (utf8Length (text.take (fitting room text))) := by
  constructor
  · have boundary := isBoundary_take text (fitting room text)
    exact ⟨boundary,Nat.le_min.mpr ⟨utf8Length_take_fitting room text,le_of_isBoundary boundary⟩⟩
  · rintro _ ⟨⟨before,after,rfl,rfl⟩,fits⟩
    exact utf8Length_le_fitting after (Nat.le_trans fits (Nat.min_le_left _ _))

/-- The first character that did not fit has four bytes at most. -/
theorem room_lt_of_fitting {room : Nat} {text : List Char}
    (h : utf8Length (text.take (fitting room text))<utf8Length text) :
    room-utf8Length (text.take (fitting room text))<4 := by
  induction text generalizing room with
  | nil => cases h
  | cons c rest ih =>
    rw [fitting_cons] at h ⊢
    split at h
    next fits =>
      rw [List.take_succ_cons,utf8Length_cons,utf8Length_cons] at h
      rw [if_pos fits,List.take_succ_cons,utf8Length_cons]
      have cut : utf8Length (rest.take (fitting (room-c.utf8Size) rest))<utf8Length rest := by
        omega
      have := ih cut
      omega
    next cut =>
      have := c.utf8Size_le_four
      rw [if_neg cut,List.take_zero,utf8Length_nil]
      omega

/-- Where every character has one byte, any number of bytes may be kept. -/
theorem fitting_of_single {text : List Char} (single : ∀ c∈text,c.utf8Size=1) (room : Nat) :
    fitting room text=min room text.length := by
  induction text generalizing room with
  | nil => exact (Nat.min_zero room).symm
  | cons c rest ih =>
    obtain ⟨first,others⟩ := List.forall_mem_cons.mp single
    have later := ih others (room-1)
    rw [fitting_cons,first,later,List.length_cons]
    split <;> omega

theorem utf8Length_of_single {text : List Char} (single : ∀ c∈text,c.utf8Size=1) :
    utf8Length text=text.length := by
  induction text with
  | nil => rfl
  | cons c rest ih =>
    obtain ⟨first,others⟩ := List.forall_mem_cons.mp single
    rw [utf8Length_cons,first,ih others,List.length_cons,Nat.add_comm]

end FleetConsole.Text
