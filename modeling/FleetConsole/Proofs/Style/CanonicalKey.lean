import FleetConsole.Style.Key
import FleetConsole.Proofs.Text.ByteOrder
import FleetConsole.Proofs.Text.Fields

namespace FleetConsole.Style

/-- Numbers come first, by their values and then by their bytes, and all other codes after them,
by their bytes. -/
def numbersFirst (a b : List Char) : Ordering :=
  match Text.number? codeBound a,Text.number? codeBound b with
  | some x,some y => (compare x y).then (compare (Text.utf8 a) (Text.utf8 b))
  | some _,none => .lt
  | none,some _ => .gt
  | none,none => compare (Text.utf8 a) (Text.utf8 b)

theorem codeRank_of_number {code : List Char} {n : Nat} (h : Text.number? codeBound code=some n) :
    codeRank code=n ∧ n<codeBound :=
  ⟨by rw [codeRank,h]; rfl,Text.number?_lt h⟩

theorem codeRank_of_none {code : List Char} (h : Text.number? codeBound code=none) :
    codeRank code=codeBound := by
  rw [codeRank,h]
  rfl

theorem compareCode_eq_numbersFirst (a b : List Char) : compareCode a b=numbersFirst a b := by
  have unfolded : compareCode a b=
      (compare (codeRank a) (codeRank b)).then (compare (Text.utf8 a) (Text.utf8 b)) := by
    rw [Text.compare_utf8]
    rfl
  rw [unfolded,numbersFirst]
  cases ha : Text.number? codeBound a with
  | none =>
    have ra := codeRank_of_none ha
    cases hb : Text.number? codeBound b with
    | none =>
      rw [ra,codeRank_of_none hb,Std.ReflOrd.compare_self]
      rfl
    | some y =>
      obtain ⟨rb,bound⟩ := codeRank_of_number hb
      rw [ra,rb,Nat.compare_eq_gt.mpr bound]
      rfl
  | some x =>
    obtain ⟨ra,bound⟩ := codeRank_of_number ha
    cases hb : Text.number? codeBound b with
    | none =>
      rw [ra,codeRank_of_none hb,Nat.compare_eq_lt.mpr bound]
      rfl
    | some y => rw [ra,(codeRank_of_number hb).1]

theorem compareCode_eq_iff {a b : List Char} : compareCode a b=.eq ↔ a=b := by
  constructor
  · exact eq_of_compareCode
  · intro same
    rw [same]
    exact Std.ReflCmp.compare_self

theorem isLE_compareCode_total (a b : List Char) :
    (compareCode a b).isLE=true ∨ (compareCode b a).isLE=true := by
  have swapped : compareCode b a=(compareCode a b).swap := Std.OrientedCmp.eq_swap
  rw [swapped]
  cases compareCode a b <;> simp

theorem isLE_compareCode_antisymm {a b : List Char} (hab : (compareCode a b).isLE=true)
    (hba : (compareCode b a).isLE=true) : a=b :=
  eq_of_compareCode (Std.OrientedCmp.isLE_antisymm hab hba)

def Sorted (codes : List (List Char)) : Prop :=
  codes.Pairwise (fun a b => (compareCode a b).isLE=true)

theorem sorted_sortCodes (codes : List (List Char)) : Sorted (sortCodes codes) := by
  apply List.pairwise_mergeSort
  · intro a b c hab hbc
    exact Std.TransCmp.isLE_trans hab hbc
  · intro a b
    simpa using isLE_compareCode_total a b

theorem sortCodes_perm (codes : List (List Char)) : (sortCodes codes).Perm codes :=
  List.mergeSort_perm codes _

/-- There is but one way to sort codes. -/
theorem eq_sortCodes {codes sorted : List (List Char)} (perm : sorted.Perm codes)
    (inOrder : Sorted sorted) : sorted=sortCodes codes := by
  have both := perm.trans (sortCodes_perm codes).symm
  apply both.eq_of_pairwise _ inOrder (sorted_sortCodes codes)
  intro a b _ _ hab hba
  exact isLE_compareCode_antisymm hab hba

theorem sortCodes_eq_iff {a b : List (List Char)} : sortCodes a=sortCodes b ↔ a.Perm b := by
  constructor
  · intro same
    have left := sortCodes_perm a
    rw [same] at left
    exact left.symm.trans (sortCodes_perm b)
  · intro perm
    exact eq_sortCodes ((sortCodes_perm a).trans perm) (sorted_sortCodes a)

/-- The codes that a key holds. -/
theorem fields_canonicalKey {codes : List Char} (nonempty : codes≠[]) :
    Text.fields codeSeparator (canonicalKey codes)=
      sortCodes (Text.fields codeSeparator codes) := by
  have perm := sortCodes_perm (Text.fields codeSeparator codes)
  have someCodes : sortCodes (Text.fields codeSeparator codes)≠[] := by
    intro noCodes
    rw [noCodes] at perm
    exact Text.fields_ne_nil codeSeparator codes perm.symm.eq_nil
  rw [canonicalKey,if_neg nonempty]
  apply Text.fields_joinFields someCodes
  intro code member
  exact Text.not_mem_of_mem_fields (perm.mem_iff.mp member)

theorem canonicalKey_eq_iff {a b : List Char} (ha : a≠[]) (hb : b≠[]) :
    canonicalKey a=canonicalKey b ↔
      (Text.fields codeSeparator a).Perm (Text.fields codeSeparator b) := by
  rw [← sortCodes_eq_iff,← fields_canonicalKey ha,← fields_canonicalKey hb]
  constructor
  · intro same
    rw [same]
  · intro same
    have joined := congrArg (Text.joinFields codeSeparator) same
    rwa [Text.joinFields_fields,Text.joinFields_fields] at joined

theorem canonicalKey_normalKey : canonicalKey normalKey=normalKey := by decide +kernel

theorem canonicalKey_ne_nil (codes : List Char) : canonicalKey codes≠[] := by
  by_cases empty : codes=[]
  · rw [empty]
    exact List.cons_ne_nil '0' []
  · intro noKey
    have held := fields_canonicalKey empty
    have perm := sortCodes_perm (Text.fields codeSeparator codes)
    rw [← held,noKey,Text.fields_nil] at perm
    have single := List.singleton_perm.mp perm
    apply empty
    rw [← Text.joinFields_fields codeSeparator codes,← single]
    rfl

theorem canonicalKey_canonicalKey (codes : List Char) :
    canonicalKey (canonicalKey codes)=canonicalKey codes := by
  by_cases empty : codes=[]
  · rw [empty]
    exact canonicalKey_normalKey
  · rw [canonicalKey_eq_iff (canonicalKey_ne_nil codes) empty,fields_canonicalKey empty]
    exact sortCodes_perm _

theorem sorted_fields_canonicalKey (codes : List Char) :
    Sorted (Text.fields codeSeparator (canonicalKey codes)) := by
  by_cases empty : codes=[]
  · rw [empty]
    exact List.pairwise_singleton _ _
  · rw [fields_canonicalKey empty]
    exact sorted_sortCodes _

/-- Two lists of codes have one key when they hold the same codes, each as often, and only then.
The codes of a key stand in the one order that numbers, values and bytes give them. -/
theorem canonicalKey_forgets_order :
    (∀ a b,a≠[] → b≠[] → (canonicalKey a=canonicalKey b ↔
      (Text.fields codeSeparator a).Perm (Text.fields codeSeparator b))) ∧
    canonicalKey []=canonicalKey ['0'] ∧
    (∀ codes,canonicalKey (canonicalKey codes)=canonicalKey codes) ∧
    (∀ codes,Sorted (Text.fields codeSeparator (canonicalKey codes))) ∧
    (∀ a b,compareCode a b=numbersFirst a b) ∧
    (∀ a b,compareCode a b=.eq ↔ a=b) ∧
    (∀ a b,compareCode b a=(compareCode a b).swap) ∧
    (∀ a b c,(compareCode a b).isLE=true → (compareCode b c).isLE=true →
      (compareCode a c).isLE=true) ∧
    (∀ codes sorted,sorted.Perm codes → Sorted sorted → sorted=sortCodes codes) := by
  refine ⟨?_,canonicalKey_normalKey.symm,canonicalKey_canonicalKey,sorted_fields_canonicalKey,
    compareCode_eq_numbersFirst,?_,?_,?_,?_⟩
  · intro a b ha hb
    exact canonicalKey_eq_iff ha hb
  · intro a b
    exact compareCode_eq_iff
  · intro a b
    exact Std.OrientedCmp.eq_swap
  · intro a b c hab hbc
    exact Std.TransCmp.isLE_trans hab hbc
  · intro codes sorted perm inOrder
    exact eq_sortCodes perm inOrder

/-- A leading zero and a plus sign make codes of equal value differ, but not from themselves. -/
theorem canonicalKey_of_shuffled :
    canonicalKey "31;+4;04".toList=canonicalKey "04;31;+4".toList ∧
      canonicalKey "4".toList≠canonicalKey "04".toList := by
  have forgets := canonicalKey_forgets_order.1
  constructor
  · apply (forgets _ _ (by decide) (by decide)).mpr
    decide
  · intro same
    have perm := (forgets _ _ (by decide) (by decide)).mp same
    revert perm
    decide

end FleetConsole.Style
