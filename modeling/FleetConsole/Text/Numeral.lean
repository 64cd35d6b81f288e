namespace FleetConsole.Text

def digit? (c : Char) : Option Nat :=
  if '0' ≤ c ∧ c ≤ '9' then some (c.toNat-48) else none

/-- Reads on from a value whose more significant digits are already known. -/
def digitsFrom? (value : Nat) : List Char → Option Nat
  | [] => some value
  | c :: rest =>
    match digit? c with
    | some d => digitsFrom? (10*value+d) rest
    | none => none

/-- One or more ASCII digits after an optional plus sign; no blanks and no other sign.
A value of `bound` or more is refused. -/
def number? (bound : Nat) (text : List Char) : Option Nat :=
  let digits := if text.head?=some '+' then text.tail else text
  if digits=[] then none
  else (digitsFrom? 0 digits).bind (fun n => if n<bound then some n else none)

theorem number?_lt {bound : Nat} {text : List Char} {n : Nat}
    (h : number? bound text=some n) : n<bound := by
  unfold number? at h
  dsimp only at h
  generalize (if text.head?=some '+' then text.tail else text)=digits at h
  split at h
  · simp at h
  · simp only [Option.bind_eq_some_iff] at h
    obtain ⟨m,_,hm⟩ := h
    split at hm <;> simp at hm
    omega

/-- What a one is worth that many places to the left of the last one. -/
def placeValue (places : Nat) : Nat := Nat.pow 10 places

def decimal (n : Nat) : List Char := Nat.toDigits 10 n

/-- Decimal digits filled up with zeros on the left to at least `width` places. -/
def padded (width n : Nat) : List Char :=
  let digits := decimal n
  List.replicate (width-digits.length) '0'++digits

end FleetConsole.Text
