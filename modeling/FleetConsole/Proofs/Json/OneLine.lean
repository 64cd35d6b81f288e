import FleetConsole.Proofs.Json.ReadBack
import FleetConsole.Proofs.Number.Shortest

namespace FleetConsole.Json

/-- What a printer does that puts a text without newlines in front of all that follows. -/
def Unbroken (put : List Char → List Char) : Prop :=
  ∃ text,'\n'∉text ∧ ∀ rest,put rest=text++rest

namespace Unbroken

variable {put put' : List Char → List Char}

theorem nothing : Unbroken (fun rest => rest) := ⟨[],List.not_mem_nil,fun _ => rfl⟩

theorem text (text : List Char) (h : '\n'∉text) : Unbroken (fun rest => text++rest) :=
  ⟨text,h,fun _ => rfl⟩

theorem comp (h : Unbroken put) (h' : Unbroken put') : Unbroken (fun rest => put (put' rest)) := by
  obtain ⟨text,unbroken,e⟩ := h
  obtain ⟨text',unbroken',e'⟩ := h'
  refine ⟨text++text',?_,?_⟩
  · rw [List.mem_append]
    exact not_or.mpr ⟨unbroken,unbroken'⟩
  · intro rest
    show put (put' rest)=_
    rw [e,e',List.append_assoc]

theorem cons {c : Char} (hc : c ≠ '\n') (h : Unbroken put) : Unbroken (fun rest => c :: put rest) :=
  comp (text [c] (by simpa using hc.symm)) h

end Unbroken

theorem newline_not_mem_escapeChar (c : Char) : '\n'∉escapeChar c := by
  have digit (n : Nat) : '\n' ≠ hexDigit n := by
    have all : ∀ d : Fin 16,'\n' ≠ Nat.digitChar d := by decide
    exact all ⟨n%16,Nat.mod_lt n (by decide)⟩
  unfold escapeChar
  split_ifs with quote slash b f newline r t control
  · decide
  · decide
  · decide
  · decide
  · decide
  · decide
  · decide
  · simp [digit]
  · simpa using Ne.symm newline

theorem unbroken_writeQuoted (s : String) : Unbroken (writeQuoted s) := by
  have escaped (l : List Char) :
      Unbroken (fun rest => l.foldr (fun c tail => escapeChar c++tail) ('"' :: rest)) := by
    induction l with
    | nil => exact .cons (by decide) .nothing
    | cons c l ih => exact (Unbroken.text _ (newline_not_mem_escapeChar c)).comp ih
  exact .cons (by decide) (escaped s.toList)

theorem newline_not_mem_decimal (n : Nat) : '\n'∉Text.decimal n :=
  Text.not_mem_decimal (by decide) n

theorem newline_not_mem_writeInt (n : Int) : '\n'∉writeInt n := by
  unfold writeInt
  split <;> simp [newline_not_mem_decimal]

theorem newline_not_mem_shortest (x : Binary64) : '\n'∉x.shortest.digits := by
  rcases x.shortest_cases with zero | none | plain
  · rw [zero]
    decide
  · rw [none]
    exact List.not_mem_nil
  · exact Text.not_mem_digits plain.digits (by decide)

section

variable {d : DecimalDigits} (h : '\n'∉d.digits)
include h

theorem newline_not_mem_positional : '\n'∉positional d := by
  have front (n : Nat) : '\n'∉d.digits.take n := fun m => h (List.mem_of_mem_take m)
  have back (n : Nat) : '\n'∉d.digits.drop n := fun m => h (List.mem_of_mem_drop m)
  unfold positional
  dsimp only
  split_ifs <;> simp [h,front,back]

theorem newline_not_mem_scientific : '\n'∉scientific d := by
  have front : '\n'∉d.digits.take 1 := fun m => h (List.mem_of_mem_take m)
  have back : '\n'∉d.digits.tail := fun m => h (List.mem_of_mem_tail m)
  unfold scientific
  dsimp only
  split_ifs <;> simp [front,back,newline_not_mem_decimal]

end

/-- Besides digits a number has no more than a sign, a point and an exponent. -/
theorem newline_not_mem_writeFloat (x : Binary64) : '\n'∉writeFloat x := by
  have digits := newline_not_mem_shortest x
  have positional := newline_not_mem_positional digits
  have scientific := newline_not_mem_scientific digits
  unfold writeFloat
  dsimp only
  split_ifs
  · decide
  all_goals simp [positional,scientific]

-- The cases are those of the printer, and in each the printers that it calls are composed.
mutual

theorem unbroken_write (v : Json) : Unbroken v.write := by
  match v with
  | .null => exact .text ['n','u','l','l'] (by decide)
  | .bool true => exact .text ['t','r','u','e'] (by decide)
  | .bool false => exact .text ['f','a','l','s','e'] (by decide)
  | .int n => exact .text _ (newline_not_mem_writeInt n)
  | .float x => exact .text _ (newline_not_mem_writeFloat x)
  | .str s => exact unbroken_writeQuoted s
  | .arr [] => exact .text ['[',']'] (by decide)
  | .obj [] => exact .text ['\x7b','\x7d'] (by decide)
  | .arr (v :: items) =>
    have close : Unbroken (fun rest => ']' :: rest) := .cons (by decide) .nothing
    exact .cons (by decide) ((unbroken_write v).comp ((unbroken_writeItems items).comp close))
  | .obj ((name,v) :: members) =>
    have close : Unbroken (fun rest => '\x7d' :: rest) := .cons (by decide) .nothing
    have value := (unbroken_write v).comp ((unbroken_writeMembers members).comp close)
    exact .cons (by decide) ((unbroken_writeQuoted name).comp (.cons (by decide) value))

theorem unbroken_writeItems (items : List Json) : Unbroken (writeItems items) := by
  match items with
  | [] => exact .nothing
  | v :: items => exact .cons (by decide) ((unbroken_write v).comp (unbroken_writeItems items))

theorem unbroken_writeMembers (members : List (String × Json)) :
    Unbroken (writeMembers members) := by
  match members with
  | [] => exact .nothing
  | (name,v) :: members =>
    have value := (unbroken_write v).comp (unbroken_writeMembers members)
    exact .cons (by decide) ((unbroken_writeQuoted name).comp (.cons (by decide) value))

end

/-- A text is one line, and what stands on it is read as an object of exactly these members. -/
def IsLine (members : List (String × Json)) (text : List Char) : Prop :=
  ∃ body,text=body++['\n'] ∧ '\n'∉body ∧ read body=.ok (.obj members)

theorem isLine_write {members : List (String × Json)} (hf : (obj members).fits maxDepth=true)
    (hw : (obj members).isWhole=true) : IsLine members ((obj members).write ['\n']) := by
  obtain ⟨body,unbroken,written⟩ := unbroken_write (obj members)
  -- What is written does not depend on what follows, so the line is the compact text and its end.
  have compact : (obj members).compact=body := (written []).trans (List.append_nil body)
  refine ⟨body,written ['\n'],unbroken,?_⟩
  rw [← compact]
  exact read_compact hf hw

end FleetConsole.Json
