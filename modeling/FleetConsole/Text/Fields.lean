namespace FleetConsole.Text

/-- Puts one more character in front of text already cut into fields. -/
def extendFields (sep c : Char) : List (List Char) → List (List Char)
  | [] => [[c]]
  | field :: fields => if c=sep then [] :: field :: fields else (c :: field) :: fields

/-- The stretches of a text between separators, empty ones kept: there is one more
field than there are separators. -/
def fields (sep : Char) (text : List Char) : List (List Char) :=
  text.foldr (extendFields sep) [[]]

def joinFields (sep : Char) (parts : List (List Char)) : List Char :=
  List.intercalate [sep] parts

@[simp] theorem fields_nil (sep : Char) : fields sep []=[[]] := rfl

theorem fields_cons (sep c : Char) (text : List Char) :
    fields sep (c :: text)=extendFields sep c (fields sep text) := rfl

theorem fields_ne_nil (sep : Char) (text : List Char) : fields sep text≠[] := by
  cases text with
  | nil => simp
  | cons c rest =>
    rw [fields_cons]
    cases fields sep rest with
    | nil => simp [extendFields]
    | cons field later =>
      by_cases h : c=sep <;> simp [extendFields,h]

/-- Cutting loses nothing but the separators, and those stand between the fields. -/
theorem joinFields_fields (sep : Char) (text : List Char) :
    joinFields sep (fields sep text)=text := by
  induction text with
  | nil => rfl
  | cons c rest ih =>
    rw [fields_cons]
    cases hf : fields sep rest with
    | nil => exact absurd hf (fields_ne_nil sep rest)
    | cons field later =>
      rw [hf] at ih
      by_cases h : c=sep
      · simp [extendFields,h,joinFields,← ih]
      · cases later with
        | nil => simpa [extendFields,h,joinFields] using ih
        | cons next more =>
          simp only [extendFields,h,if_false]
          simp only [joinFields,List.intercalate_cons_cons,List.cons_append] at ih ⊢
          rw [ih]

theorem not_mem_of_mem_fields {sep : Char} {text field : List Char}
    (h : field∈fields sep text) : sep∉field := by
  induction text generalizing field with
  | nil =>
    simp only [fields_nil,List.mem_singleton] at h
    simp [h]
  | cons c rest ih =>
    rw [fields_cons] at h
    cases hf : fields sep rest with
    | nil => exact absurd hf (fields_ne_nil sep rest)
    | cons first later =>
      rw [hf] at h ih
      by_cases hc : c=sep
      · rw [extendFields,if_pos hc,List.mem_cons] at h
        rcases h with rfl | h
        · simp
        · exact ih h
      · rw [extendFields,if_neg hc,List.mem_cons] at h
        rcases h with rfl | h
        · simp only [List.mem_cons,not_or]
          exact ⟨fun e => hc e.symm,ih (List.mem_cons_self ..)⟩
        · exact ih (List.mem_cons_of_mem _ h)

end FleetConsole.Text
