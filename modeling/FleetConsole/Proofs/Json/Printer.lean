import FleetConsole.Json.Printer
import FleetConsole.Proofs.Json.Quoted
import FleetConsole.Proofs.Json.Reader

namespace FleetConsole.Json

/-- Blanks before what a bracket holds, at each depth, and behind a colon. -/
structure Spacing where
  gap : Nat → List Char
  colon : List Char
  blankGap : ∀ depth,(gap depth).all isSpace=true
  blankColon : colon.all isSpace=true

def Spacing.none : Spacing := ⟨fun _ => [],[],fun _ => rfl,rfl⟩

def Spacing.lines : Spacing where
  gap depth := '\n' :: List.replicate (2*depth) ' '
  colon := [' ']
  blankGap depth := by simp [isSpace]
  blankColon := rfl

mutual

/-- A value with given blanks, in front of more text. -/
def spaced (s : Spacing) (depth : Nat) : Json → List Char → List Char
  | .arr (v :: items),rest =>
    '[' :: (s.gap (depth+1)++v.spaced s (depth+1)
      (spacedItems s (depth+1) items (s.gap depth ++ ']' :: rest)))
  | .obj ((name,v) :: members),rest =>
    '\x7b' :: (s.gap (depth+1)++writeQuoted name (':' :: (s.colon++v.spaced s (depth+1)
      (spacedMembers s (depth+1) members (s.gap depth ++ '\x7d' :: rest)))))
  | v,rest => v.write rest

def spacedItems (s : Spacing) (depth : Nat) : List Json → List Char → List Char
  | [],rest => rest
  | v :: items,rest => ',' :: (s.gap depth++v.spaced s depth (spacedItems s depth items rest))

def spacedMembers (s : Spacing) (depth : Nat) : List (String × Json) → List Char → List Char
  | [],rest => rest
  | (name,v) :: members,rest =>
    ',' :: (s.gap depth++writeQuoted name (':' :: (s.colon++v.spaced s depth
      (spacedMembers s depth members rest))))

end

mutual

theorem spaced_none (depth : Nat) (v : Json) (rest : List Char) :
    v.spaced .none depth rest=v.write rest := by
  match v with
  | .null => rfl
  | .bool b => rfl
  | .int n => rfl
  | .float x => rfl
  | .str s => rfl
  | .arr [] => rfl
  | .obj [] => rfl
  | .arr (v :: items) =>
    rw [spaced,write,spaced_none,spacedItems_none]
    rfl
  | .obj ((name,v) :: members) =>
    rw [spaced,write,spaced_none,spacedMembers_none]
    rfl

theorem spacedItems_none (depth : Nat) (items : List Json) (rest : List Char) :
    spacedItems .none depth items rest=writeItems items rest := by
  match items with
  | [] => rfl
  | v :: items =>
    rw [spacedItems,writeItems,spaced_none,spacedItems_none]
    rfl

theorem spacedMembers_none (depth : Nat) (members : List (String × Json)) (rest : List Char) :
    spacedMembers .none depth members rest=writeMembers members rest := by
  match members with
  | [] => rfl
  | (name,v) :: members =>
    rw [spacedMembers,writeMembers,spaced_none,spacedMembers_none]
    rfl

end

theorem writeIndent_eq (depth : Nat) (rest : List Char) :
    writeIndent depth rest=Spacing.lines.gap depth++rest := rfl

mutual

theorem spaced_lines (depth : Nat) (v : Json) (rest : List Char) :
    v.spaced .lines depth rest=v.writePretty depth rest := by
  match v with
  | .null => rfl
  | .bool b => rfl
  | .int n => rfl
  | .float x => rfl
  | .str s => rfl
  | .arr [] => rfl
  | .obj [] => rfl
  | .arr (v :: items) =>
    rw [spaced,writePretty,spaced_lines,spacedItems_lines,writeIndent_eq,writeIndent_eq]
  | .obj ((name,v) :: members) =>
    rw [spaced,writePretty,spaced_lines,spacedMembers_lines,writeIndent_eq,writeIndent_eq]
    rfl

theorem spacedItems_lines (depth : Nat) (items : List Json) (rest : List Char) :
    spacedItems .lines depth items rest=writePrettyItems depth items rest := by
  match items with
  | [] => rfl
  | v :: items =>
    rw [spacedItems,writePrettyItems,spaced_lines,spacedItems_lines,writeIndent_eq]

theorem spacedMembers_lines (depth : Nat) (members : List (String × Json)) (rest : List Char) :
    spacedMembers .lines depth members rest=writePrettyMembers depth members rest := by
  match members with
  | [] => rfl
  | (name,v) :: members =>
    rw [spacedMembers,writePrettyMembers,spaced_lines,spacedMembers_lines,writeIndent_eq]
    rfl

end

-- A reader takes as many rounds as there are characters, so a text has to be at least as long as
-- it has items or members.
theorem le_length_quotedTail (s : String) (rest : List Char) :
    rest.length ≤ (quotedTail s rest).length := by
  unfold quotedTail
  induction s.toList with
  | nil => simp
  | cons c s ih =>
    rw [List.foldr_cons,List.length_append]
    omega

theorem le_length_write_of_isScalar {v : Json} (h : v.isScalar=true) (rest : List Char) :
    rest.length ≤ (v.write rest).length := by
  cases v with
  | bool b =>
    rw [write.eq_def]
    cases b <;> simp only [List.length_cons] <;> omega
  | str s =>
    have hq := le_length_quotedTail s rest
    rw [write,writeQuoted_eq,List.length_cons]
    omega
  | int n => rw [write,List.length_append]; omega
  | float x => rw [write,List.length_append]; omega
  | null =>
    rw [write]
    simp only [List.length_cons]
    omega
  | arr items => cases h
  | obj members => cases h

mutual

theorem le_length_spaced (s : Spacing) (depth : Nat) (v : Json) (rest : List Char) :
    rest.length ≤ (v.spaced s depth rest).length := by
  match v with
  | .null => exact le_length_write_of_isScalar rfl rest
  | .bool b => exact le_length_write_of_isScalar rfl rest
  | .int n => exact le_length_write_of_isScalar rfl rest
  | .float x => exact le_length_write_of_isScalar rfl rest
  | .str t => exact le_length_write_of_isScalar rfl rest
  | .arr [] => exact Nat.le_add_right _ 2
  | .obj [] => exact Nat.le_add_right _ 2
  | .arr (v :: items) =>
    have hi := le_length_spacedItems s (depth+1) items (s.gap depth ++ ']' :: rest)
    have hv := le_length_spaced s (depth+1) v
      (spacedItems s (depth+1) items (s.gap depth ++ ']' :: rest))
    rw [spaced]
    simp only [List.length_cons,List.length_append] at hi ⊢
    omega
  | .obj ((name,v) :: members) =>
    have hm := le_length_spacedMembers s (depth+1) members (s.gap depth ++ '\x7d' :: rest)
    have hv := le_length_spaced s (depth+1) v
      (spacedMembers s (depth+1) members (s.gap depth ++ '\x7d' :: rest))
    have hq := le_length_quotedTail name (':' :: (s.colon++v.spaced s (depth+1)
      (spacedMembers s (depth+1) members (s.gap depth ++ '\x7d' :: rest))))
    rw [spaced,writeQuoted_eq]
    simp only [List.length_cons,List.length_append] at hm hq ⊢
    omega

theorem le_length_spacedItems (s : Spacing) (depth : Nat) (items : List Json)
    (rest : List Char) : items.length+rest.length ≤ (spacedItems s depth items rest).length := by
  match items with
  | [] =>
    rw [spacedItems]
    exact Nat.le_of_eq (Nat.zero_add _)
  | v :: items =>
    have hi := le_length_spacedItems s depth items rest
    have hv := le_length_spaced s depth v (spacedItems s depth items rest)
    rw [spacedItems]
    simp only [List.length_cons,List.length_append]
    omega

theorem le_length_spacedMembers (s : Spacing) (depth : Nat) (members : List (String × Json))
    (rest : List Char) :
    members.length+rest.length ≤ (spacedMembers s depth members rest).length := by
  match members with
  | [] =>
    rw [spacedMembers]
    exact Nat.le_of_eq (Nat.zero_add _)
  | (name,v) :: members =>
    have hm := le_length_spacedMembers s depth members rest
    have hv := le_length_spaced s depth v (spacedMembers s depth members rest)
    have hq := le_length_quotedTail name (':' :: (s.colon++v.spaced s depth
      (spacedMembers s depth members rest)))
    rw [spacedMembers,writeQuoted_eq]
    simp only [List.length_cons,List.length_append] at hq ⊢
    omega

end

end FleetConsole.Json
