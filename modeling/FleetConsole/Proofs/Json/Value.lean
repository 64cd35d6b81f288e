import FleetConsole.Proofs.Json.Numeral
import FleetConsole.Json.Reader

namespace FleetConsole.Json

/-- A property holds of all values if it passes from the items or members to the whole. -/
@[elab_as_elim]
theorem induct {motive : Json → Prop} (null : motive .null) (bool : ∀ b,motive (.bool b))
    (int : ∀ n,motive (.int n)) (float : ∀ x,motive (.float x)) (str : ∀ s,motive (.str s))
    (arr : ∀ items : List Json,(∀ v∈items,motive v) → motive (.arr items))
    (obj : ∀ members : List (String × Json),(∀ m∈members,motive m.2) → motive (.obj members))
    (v : Json) : motive v :=
  match v with
  | .null => null
  | .bool b => bool b
  | .int n => int n
  | .float x => float x
  | .str s => str s
  | .arr items => arr items (fun v _ => induct null bool int float str arr obj v)
  | .obj members => obj members (fun m _ => induct null bool int float str arr obj m.2)
termination_by sizeOf v
decreasing_by
  · have := List.sizeOf_lt_of_mem ‹v∈items›
    simp only [Json.arr.sizeOf_spec]
    omega
  · have hm := List.sizeOf_lt_of_mem ‹m∈members›
    have hv : sizeOf m.2<sizeOf m := by
      cases m
      simp only [Prod.mk.sizeOf_spec]
      omega
    simp only [Json.obj.sizeOf_spec]
    omega

mutual

/-- Whether no more than so many arrays and objects are open inside each other. -/
def fits (depth : Nat) : Json → Bool
  | .arr items => match depth with
    | 0 => false
    | depth+1 => itemsFit depth items
  | .obj members => match depth with
    | 0 => false
    | depth+1 => membersFit depth members
  | _ => true

def itemsFit (depth : Nat) : List Json → Bool
  | [] => true
  | v :: rest => v.fits depth && itemsFit depth rest

def membersFit (depth : Nat) : List (String × Json) → Bool
  | [] => true
  | (_,v) :: rest => v.fits depth && membersFit depth rest

end

mutual

/-- Whether all numbers are whole numbers of 64 bits. Minus zero, which is no whole number to
the reader, is let in. -/
def isWhole : Json → Bool
  | .int n => isWholeRange n
  | .float x => x==minusZero
  | .arr items => itemsWhole items
  | .obj members => membersWhole members
  | _ => true

def itemsWhole : List Json → Bool
  | [] => true
  | v :: rest => v.isWhole && itemsWhole rest

def membersWhole : List (String × Json) → Bool
  | [] => true
  | (_,v) :: rest => v.isWhole && membersWhole rest

end

theorem itemsFit_iff {depth : Nat} {items : List Json} :
    itemsFit depth items=true ↔ ∀ v∈items,v.fits depth=true := by
  induction items with
  | nil => simp [itemsFit]
  | cons v rest ih => simp [itemsFit,ih]

theorem membersFit_iff {depth : Nat} {members : List (String × Json)} :
    membersFit depth members=true ↔ ∀ m∈members,m.2.fits depth=true := by
  induction members with
  | nil => simp [membersFit]
  | cons m rest ih =>
    obtain ⟨name,v⟩ := m
    simp [membersFit,ih]

theorem itemsWhole_iff {items : List Json} :
    itemsWhole items=true ↔ ∀ v∈items,v.isWhole=true := by
  induction items with
  | nil => simp [itemsWhole]
  | cons v rest ih => simp [itemsWhole,ih]

theorem membersWhole_iff {members : List (String × Json)} :
    membersWhole members=true ↔ ∀ m∈members,m.2.isWhole=true := by
  induction members with
  | nil => simp [membersWhole]
  | cons m rest ih =>
    obtain ⟨name,v⟩ := m
    simp [membersWhole,ih]

/-- An array that fits is not at the bottom, and its items fit one level below. -/
theorem fits_arr_iff {depth : Nat} {items : List Json} :
    (arr items).fits depth=true ↔ ∃ d,depth=d+1 ∧ ∀ v∈items,v.fits d=true := by
  cases depth with
  | zero => simp [fits]
  | succ d => simp [fits,itemsFit_iff]

theorem fits_obj_iff {depth : Nat} {members : List (String × Json)} :
    (obj members).fits depth=true ↔ ∃ d,depth=d+1 ∧ ∀ m∈members,m.2.fits d=true := by
  cases depth with
  | zero => simp [fits]
  | succ d => simp [fits,membersFit_iff]

theorem isWhole_arr_iff {items : List Json} :
    (arr items).isWhole=true ↔ ∀ v∈items,v.isWhole=true := by
  rw [isWhole,itemsWhole_iff]

theorem isWhole_obj_iff {members : List (String × Json)} :
    (obj members).isWhole=true ↔ ∀ m∈members,m.2.isWhole=true := by
  rw [isWhole,membersWhole_iff]

end FleetConsole.Json
