import FleetConsole.Text.Fields

namespace FleetConsole.Text

theorem intercalate_cons {α : Type} (sep first : List α) (later : List (List α)) :
    sep.intercalate (first :: later)=first++later.flatMap (fun part => sep++part) := by
  induction later generalizing first with
  | nil => simp
  | cons second later ih =>
    rw [List.intercalate_cons_cons,ih]
    simp

theorem intercalate_append_cons {α : Type} (sep : List α) (init : List (List α))
    (last : List α) (later : List (List α)) :
    sep.intercalate (init++last :: later)=
      init.flatMap (fun part => part++sep)++(last++later.flatMap (fun part => sep++part)) := by
  induction init with
  | nil => exact intercalate_cons sep last later
  | cons part init ih =>
    rw [List.cons_append,List.intercalate_cons_of_ne_nil (by simp),ih]
    simp

theorem joinFields_cons (sep : Char) (first : List Char) (later : List (List Char)) :
    joinFields sep (first :: later)=first++later.flatMap (fun field => sep :: field) :=
  intercalate_cons [sep] first later

theorem fields_of_not_mem {sep : Char} {text : List Char} (h : sep∉text) :
    fields sep text=[text] := by
  induction text with
  | nil => rfl
  | cons c rest ih =>
    rw [List.mem_cons,not_or] at h
    rw [fields_cons,ih h.2,extendFields,if_neg (Ne.symm h.1)]

theorem fields_append (sep : Char) (before after : List Char) :
    fields sep (before++sep :: after)=fields sep before++fields sep after := by
  induction before with
  | nil =>
    rw [List.nil_append,fields_cons,fields_nil]
    cases hf : fields sep after with
    | nil => exact absurd hf (fields_ne_nil sep after)
    | cons field later =>
      rw [extendFields,if_pos rfl]
      rfl
  | cons c rest ih =>
    rw [List.cons_append,fields_cons,ih,fields_cons]
    cases hf : fields sep rest with
    | nil => exact absurd hf (fields_ne_nil sep rest)
    | cons field later =>
      rw [List.cons_append,extendFields,extendFields]
      split <;> rfl

theorem fields_joinFields {sep : Char} {parts : List (List Char)} (nonempty : parts≠[])
    (h : ∀ part∈parts,sep∉part) : fields sep (joinFields sep parts)=parts := by
  induction parts with
  | nil => exact absurd rfl nonempty
  | cons first later ih =>
    have own : fields sep first=[first] := fields_of_not_mem (h first List.mem_cons_self)
    cases later with
    | nil => simpa [joinFields] using own
    | cons second later =>
      have others : ∀ part∈second :: later,sep∉part := by
        intro part member
        exact h part (List.mem_cons_of_mem _ member)
      have rest := ih (List.cons_ne_nil _ _) others
      have joined : joinFields sep (first :: second :: later)=
          first++sep :: joinFields sep (second :: later) := by
        simp [joinFields]
      rw [joined,fields_append,own,rest]
      rfl

end FleetConsole.Text
