import FleetConsole.Proofs.Json.Sorted
import FleetConsole.Proofs.Json.Tagged

namespace FleetConsole.Json

/-- A value as a reader leaves it that follows so many open arrays and objects. -/
inductive Legible : Nat → Json → Prop where
  | scalar {v : Json} (depth : Nat) (plain : v.isScalar=true) (bounded : v.isBounded=true) :
      Legible depth v
  | arr {depth : Nat} {items : List Json} (each : ∀ v∈items,Legible depth v) :
      Legible (depth+1) (.arr items)
  | obj {depth : Nat} {members : List (String × Json)} (each : ∀ m∈members,Legible depth m.2) :
      Legible (depth+1) (.obj members)

theorem legible_of_readValue {depth : Nat} {text rest : List Char} {v : Json}
    (h : readValue depth text=.ok (v,rest)) : Legible depth v := by
  induction depth generalizing text v rest with
  | zero =>
    rcases readValue_ok h with hs | ⟨d,_,_,hd,_⟩ | ⟨d,_,_,hd,_⟩
    · exact .scalar 0 hs (isBounded_of_readValue h)
    · cases hd
    · cases hd
  | succ depth ih =>
    rcases readValue_ok h with hs | ⟨d,tail,done,hd,_,hi,rfl⟩ | ⟨d,tail,done,hd,_,hm,rfl⟩
    · exact .scalar _ hs (isBounded_of_readValue h)
    · cases hd
      have each : ∀ v∈done,Legible depth v := by
        refine readItems_preserves (motive := fun done => ∀ v∈done,Legible depth v) ?_
          (by simp) hi
        intro done text done' rest hs h
        obtain ⟨⟨v,rest'⟩,hv,e⟩ := map_ok h
        cases e
        exact List.forall_mem_cons.mpr ⟨ih hv,hs⟩
      exact .arr (fun v hv => each v (List.mem_reverse.mp hv))
    · cases hd
      have each : ∀ m∈done,Legible depth m.2 := by
        refine readMembers_preserves (motive := fun done => ∀ m∈done,Legible depth m.2) ?_
          (by simp) hm
        intro done name text done' rest hs h
        unfold memberReader at h
        split at h
        · cases h
        · obtain ⟨⟨v,rest'⟩,hv,e⟩ := map_ok h
          cases e
          exact List.forall_mem_cons.mpr ⟨ih hv,hs⟩
      exact .obj (fun m hm => each m (List.mem_reverse.mp hm))

theorem fits_of_legible {depth : Nat} {v : Json} (h : Legible depth v) :
    v.fits depth=true := by
  induction h with
  | scalar depth plain bounded => exact fits_of_isScalar plain depth
  | arr each ih => exact fits_arr_iff.mpr ⟨_,rfl,ih⟩
  | obj each ih => exact fits_obj_iff.mpr ⟨_,rfl,ih⟩

theorem legible_sorted {depth : Nat} {v : Json} (h : Legible depth v) :
    Legible depth v.sorted := by
  induction h with
  | @scalar v depth plain bounded =>
    have same : v.sorted=v := by
      cases v with
      | arr items => cases plain
      | obj members => cases plain
      | _ => rfl
    rw [same]
    exact .scalar depth plain bounded
  | arr each ih =>
    rw [sorted_arr]
    refine .arr (fun w hw => ?_)
    obtain ⟨v,hv,rfl⟩ := List.mem_map.mp hw
    exact ih v hv
  | obj each ih =>
    rw [sorted_obj]
    refine .obj (fun e he => ?_)
    obtain ⟨m,hm,rfl⟩ := exists_of_mem_sorted he
    exact ih m hm

/-- Digits behind a sign are read as a number, if there are not too many of them. -/
theorem readsAs_int {n : Int} (bounded : (int n).isBounded=true) (s : Spacing)
    (d depth : Nat) : ∃ w,ReadsAs s d depth (.int n) w := by
  have small : n.natAbs<significandBound := of_decide_eq_true bounded
  by_cases whole : isWholeRange n=true
  · have same : (int n).isWhole=true := by rw [isWhole,whole]
    exact ⟨.int n,fun rest hr => readValue_scalar rfl same d hr⟩
  · -- Beyond 64 bits with its sign, so that it comes back as a number with a fraction.
    have negative : n<0 := by
      rw [isWholeRange,decide_eq_true_eq] at whole
      omega
    have far : ¬(0<n.natAbs ∧ 2*n.natAbs ≤ significandBound) := by
      rw [isWholeRange,decide_eq_true_eq] at whole
      omega
    refine ⟨.float (Binary64.ofNat n.natAbs).neg,fun rest hr => ?_⟩
    have digits := Numeral.read_decimal small hr
    have value : Numeral.toJson? true ⟨n.natAbs,0,true⟩=
        some (.float (Binary64.ofNat n.natAbs).neg) := by
      rw [Numeral.toJson?,if_pos rfl,if_neg (by decide),if_neg far]
    have read : readNumber ('-' :: (Text.decimal n.natAbs++rest))=_ :=
      readNumber_of_read digits value
    have text : writeInt n++rest = '-' :: (Text.decimal n.natAbs++rest) := by
      rw [writeInt,if_pos negative]
      rfl
    show readValue d (writeInt n++rest)=_
    rw [text,readValue_number (.inl rfl),read]

theorem readsAs_scalar {v : Json} (plain : v.isScalar=true) (bounded : v.isBounded=true)
    (s : Spacing) (d depth : Nat) : ∃ w,ReadsAs s d depth v w := by
  cases v with
  | int n => exact readsAs_int bounded s d depth
  | float x =>
    obtain ⟨y,hy⟩ := readsAs_float bounded s d depth
    exact ⟨.float y,hy⟩
  | arr items => cases plain
  | obj members => cases plain
  | null => exact ⟨.null,readsBack s rfl rfl depth⟩
  | bool b => exact ⟨.bool b,readsBack s rfl rfl depth⟩
  | str t => exact ⟨.str t,readsBack s rfl rfl depth⟩

theorem exists_forall₂ {α β : Type} {R : α → β → Prop} {l : List α} (h : ∀ a∈l,∃ b,R a b) :
    ∃ l',List.Forall₂ R l l' := by
  induction l with
  | nil => exact ⟨[],.nil⟩
  | cons a l ih =>
    obtain ⟨⟨b,hb⟩,hl⟩ := List.forall_mem_cons.mp h
    obtain ⟨l',hl'⟩ := ih hl
    exact ⟨b :: l',.cons hb hl'⟩

theorem readsAs_of_legible {d : Nat} {v : Json} (h : Legible d v) (s : Spacing) (depth : Nat) :
    ∃ w,ReadsAs s d depth v w := by
  induction h generalizing depth with
  | scalar d plain bounded => exact readsAs_scalar plain bounded s d depth
  | arr each ih =>
    obtain ⟨content,hc⟩ := exists_forall₂ (fun v hv => ih v hv (depth+1))
    exact ⟨.arr content,readsAs_arr hc⟩
  | @obj d members each ih =>
    have read : ∀ m∈members,∃ c,MemberReads s d (depth+1) m c := by
      intro m hm
      obtain ⟨w,hw⟩ := ih m hm (depth+1)
      exact ⟨(m.1,w),rfl,hw⟩
    obtain ⟨content,hc⟩ := exists_forall₂ read
    exact ⟨.obj content,readsAs_obj hc⟩

end FleetConsole.Json
