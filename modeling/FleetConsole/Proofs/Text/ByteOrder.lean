import FleetConsole.Text.Utf8
import Mathlib.Tactic.SplitIfs

namespace FleetConsole.Text

/-- The bytes of a text in UTF-8. -/
def utf8 (text : List Char) : List UInt8 := text.flatMap String.utf8EncodeChar

section

variable {m n : Nat} {a b : List UInt8}

theorem compare_byte_lt (hn : n<256) (h : m<n) : compare (UInt8.ofNat m) (UInt8.ofNat n)=.lt := by
  have less : UInt8.ofNat m<UInt8.ofNat n := by
    rw [UInt8.lt_iff_toNat_lt,UInt8.toNat_ofNat',UInt8.toNat_ofNat']
    omega
  exact if_pos less

/-- The first byte decides unless it is shared. -/
theorem compare_bytes_lt (hn : n<256) (first : m ≤ n) (rest : m=n → compare a b=.lt) :
    compare (UInt8.ofNat m :: a) (UInt8.ofNat n :: b)=.lt := by
  rw [List.compare_cons_cons]
  rcases Nat.lt_or_eq_of_le first with less | same
  · rw [compare_byte_lt hn less]
    rfl
  · rw [rest same,same,Std.ReflOrd.compare_self]
    rfl

end

/-- The bytes of one character: six bits in each but the first, which tells how many there are. -/
inductive Encoded (v : Nat) : List UInt8 → Prop where
  | one (high : v<0x80) : Encoded v [UInt8.ofNat v]
  | two (low : 0x80 ≤ v) (high : v<0x800) :
    Encoded v [UInt8.ofNat (v/64+0xc0),UInt8.ofNat (v%64+0x80)]
  | three (low : 0x800 ≤ v) (high : v<0x10000) :
    Encoded v [UInt8.ofNat (v/4096+0xe0),UInt8.ofNat (v/64%64+0x80),UInt8.ofNat (v%64+0x80)]
  | four (low : 0x10000 ≤ v) (high : v<0x110000) :
    Encoded v [UInt8.ofNat (v/262144+0xf0),UInt8.ofNat (v/4096%64+0x80),
      UInt8.ofNat (v/64%64+0x80),UInt8.ofNat (v%64+0x80)]

theorem encoded (c : Char) : Encoded c.val.toNat (String.utf8EncodeChar c) := by
  have bound : c.val.toNat<0x110000 := by
    rcases c.valid with low | high
    · exact Nat.lt_trans low (by decide)
    · exact high.2
  unfold String.utf8EncodeChar
  generalize c.val.toNat=v at bound
  dsimp only
  split_ifs with one two three
  · exact .one (by omega)
  · have whole : v/64%0x20=v/64 := Nat.mod_eq_of_lt (by omega)
    rw [whole]
    exact .two (by omega) (by omega)
  · have whole : v/4096%0x10=v/4096 := Nat.mod_eq_of_lt (by omega)
    rw [whole]
    exact .three (by omega) (by omega)
  · have whole : v/262144%0x08=v/262144 := Nat.mod_eq_of_lt (by omega)
    rw [whole]
    exact .four (by omega) bound

theorem Encoded.compare_lt {v w : Nat} {front front' : List UInt8} (hv : Encoded v front)
    (hw : Encoded w front') (less : v<w) (a b : List UInt8) :
    compare (front++a) (front'++b)=.lt := by
  -- Of two lengths the greater has the greater first byte; within one length the bytes decide
  -- in turn.
  cases hv with
  | one =>
    cases hw <;> exact compare_bytes_lt (by omega) (by omega) (by omega)
  | two =>
    cases hw with
    | one => omega
    | two =>
      apply compare_bytes_lt (by omega) (by omega)
      intro first
      exact compare_bytes_lt (by omega) (by omega) (by omega)
    | three => exact compare_bytes_lt (by omega) (by omega) (by omega)
    | four => exact compare_bytes_lt (by omega) (by omega) (by omega)
  | three =>
    cases hw with
    | one => omega
    | two => omega
    | three =>
      apply compare_bytes_lt (by omega) (by omega)
      intro first
      apply compare_bytes_lt (by omega) (by omega)
      intro second
      exact compare_bytes_lt (by omega) (by omega) (by omega)
    | four => exact compare_bytes_lt (by omega) (by omega) (by omega)
  | four =>
    cases hw with
    | one => omega
    | two => omega
    | three => omega
    | four =>
      apply compare_bytes_lt (by omega) (by omega)
      intro first
      apply compare_bytes_lt (by omega) (by omega)
      intro second
      apply compare_bytes_lt (by omega) (by omega)
      intro third
      exact compare_bytes_lt (by omega) (by omega) (by omega)

theorem compare_append_left {α : Type} [Ord α] [Std.ReflOrd α] (front a b : List α) :
    compare (front++a) (front++b)=compare a b := by
  induction front with
  | nil => rfl
  | cons x front ih =>
    rw [List.cons_append,List.cons_append,List.compare_cons_cons,Std.ReflOrd.compare_self,ih]
    rfl

theorem compare_utf8_lt {c d : Char} (h : c<d) (a b : List Char) :
    compare (utf8 (c :: a)) (utf8 (d :: b))=.lt :=
  (encoded c).compare_lt (encoded d) h (utf8 a) (utf8 b)

theorem utf8_ne_nil (c : Char) (rest : List Char) : utf8 (c :: rest)≠[] := by
  intro none
  exact String.utf8EncodeChar_ne_nil (List.append_eq_nil_iff.mp none).1

theorem compare_utf8 (a b : List Char) : compare (utf8 a) (utf8 b)=compare a b := by
  induction a generalizing b with
  | nil =>
    cases b with
    | nil => rfl
    | cons d b =>
      obtain ⟨first,rest,hd⟩ := List.exists_cons_of_ne_nil (utf8_ne_nil d b)
      rw [hd]
      rfl
  | cons c a ih =>
    cases b with
    | nil =>
      obtain ⟨first,rest,hc⟩ := List.exists_cons_of_ne_nil (utf8_ne_nil c a)
      rw [hc]
      rfl
    | cons d b =>
      rw [List.compare_cons_cons]
      rcases Std.lt_trichotomy c d with less | same | greater
      · have first : compare c d=.lt := if_pos less
        rw [first,compare_utf8_lt less]
        rfl
      · rw [same,Std.ReflOrd.compare_self,← ih]
        exact compare_append_left (String.utf8EncodeChar d) (utf8 a) (utf8 b)
      · have first : compare d c=.lt := if_pos greater
        have bytes : compare (utf8 (d :: b)) (utf8 (c :: a))=.lt := compare_utf8_lt greater b a
        rw [Std.OrientedOrd.eq_swap,bytes,Std.OrientedOrd.eq_swap (a := c),first]
        rfl

end FleetConsole.Text
