namespace FleetConsole.Text

/-- Length in bytes of the UTF-8 form. -/
def utf8Length (text : List Char) : Nat := text.foldr (fun c length => c.utf8Size+length) 0

@[simp] theorem utf8Length_nil : utf8Length []=0 := rfl

@[simp] theorem utf8Length_cons (c : Char) (rest : List Char) :
    utf8Length (c :: rest)=c.utf8Size+utf8Length rest := rfl

@[simp] theorem utf8Length_append (a b : List Char) :
    utf8Length (a++b)=utf8Length a+utf8Length b := by
  induction a with
  | nil => simp
  | cons c rest ih =>
    rw [List.cons_append,utf8Length_cons,utf8Length_cons,ih]
    omega

theorem utf8Length_toList (s : String) : utf8Length s.toList=s.utf8ByteSize := by
  have whole (text : List Char) : (String.ofList text).utf8ByteSize=utf8Length text := by
    induction text with
    | nil => rfl
    | cons c rest ih =>
      rw [String.ofList_cons,String.utf8ByteSize_append,String.utf8ByteSize_singleton,ih]
      rfl
  rw [← whole,String.ofList_toList]

/-- Counts on from `n` characters that already found their place. -/
def fittingFrom (n room : Nat) : List Char → Nat
  | [] => n
  | c :: rest => if c.utf8Size ≤ room then fittingFrom (n+1) (room-c.utf8Size) rest else n

/-- How many leading characters fit into `room` bytes, none of them cut in two. -/
def fitting (room : Nat) (text : List Char) : Nat := fittingFrom 0 room text

theorem fittingFrom_eq (n room : Nat) (text : List Char) :
    fittingFrom n room text=n+fitting room text := by
  induction text generalizing n room with
  | nil => rfl
  | cons c rest ih =>
    unfold fitting fittingFrom
    split
    · rw [ih (n+1),ih (0+1)]
      omega
    · rfl

theorem fitting_cons (room : Nat) (c : Char) (rest : List Char) :
    fitting room (c :: rest)=
      if c.utf8Size ≤ room then fitting (room-c.utf8Size) rest+1 else 0 := by
  rw [fitting,fittingFrom]
  split
  · rw [fittingFrom_eq]
    omega
  · rfl

theorem utf8Length_take_fitting (room : Nat) (text : List Char) :
    utf8Length (text.take (fitting room text)) ≤ room := by
  induction text generalizing room with
  | nil => simp
  | cons c rest ih =>
    rw [fitting_cons]
    split
    · have := ih (room-c.utf8Size)
      simp only [List.take_succ_cons,utf8Length_cons]
      omega
    · simp

end FleetConsole.Text
