import FleetConsole.SortedMap

namespace FleetConsole.SortedMap

variable {κ α β : Type} [Ord κ]

@[simp] theorem get?_empty (k : κ) : (empty : SortedMap κ α).get? k=none := rfl

theorem find?_insertEntry [Std.LawfulEqOrd κ] [DecidableEq κ] (k k' : κ) (v : α)
    (l : List (κ × α)) :
    (insertEntry k v l).find? (fun e => compare e.1 k'==.eq)=
      if k=k' then some (k,v) else l.find? (fun e => compare e.1 k'==.eq) := by
  induction l with
  | nil => by_cases h : k=k' <;> simp [insertEntry,h]
  | cons e rest ih =>
    unfold insertEntry
    split
    · by_cases h : k=k' <;> simp [h]
    next hc =>
      have he : k=e.1 := Std.LawfulEqOrd.eq_of_compare hc
      by_cases h : k=k'
      · simp [h]
      · have h' : ¬e.1=k' := he ▸ h
        simp [h,h']
    next hc =>
      by_cases h : e.1=k'
      · have hk : ¬k=k' := by
          intro hk
          simp [hk,← h] at hc
        simp [h,hk]
      · simp [h,ih]

theorem get?_insert [Std.TransOrd κ] [Std.LawfulEqOrd κ] [DecidableEq κ] (m : SortedMap κ α)
    (k k' : κ) (v : α) :
    (m.insert k v).get? k'=if k=k' then some v else m.get? k' := by
  unfold get? insert
  rw [find?_insertEntry]
  split <;> simp

/-- An entry is found under its key. -/
theorem get?_eq_some_iff [Std.LawfulEqOrd κ] {m : SortedMap κ α} {k : κ} {v : α} :
    m.get? k=some v ↔ (k,v)∈m.entries := by
  obtain ⟨l,hl⟩ := m
  unfold get?
  simp only
  induction l with
  | nil => simp
  | cons e rest ih =>
    obtain ⟨he,hr⟩ := List.pairwise_cons.mp hl
    by_cases h : e.1=k
    · have hn : (k,v)∉rest := by
        intro hm
        have := he _ hm
        simp [h] at this
      rw [List.find?_cons_of_pos (by simp [h])]
      simp only [Option.map_some,Option.some.injEq,List.mem_cons,hn,or_false]
      constructor
      · rintro rfl
        rw [← h]
      · intro hk
        rw [← hk]
    · rw [List.find?_cons_of_neg (by simp [h]),ih hr,List.mem_cons]
      constructor
      · exact .inr
      · rintro (hk | hm)
        · exact absurd (congrArg Prod.fst hk).symm h
        · exact hm

theorem contains_iff_mem_keys [Std.LawfulEqOrd κ] {m : SortedMap κ α} {k : κ} :
    m.contains k=true ↔ k∈m.keys := by
  unfold contains keys
  rw [Option.isSome_iff_exists,List.mem_map]
  constructor
  · rintro ⟨v,hv⟩
    exact ⟨(k,v),get?_eq_some_iff.mp hv,rfl⟩
  · rintro ⟨e,he,rfl⟩
    exact ⟨e.2,get?_eq_some_iff.mpr he⟩

theorem get?_filter [Std.LawfulEqOrd κ] (p : κ → α → Bool) (m : SortedMap κ α) (k : κ) :
    (m.filter p).get? k=(m.get? k).filter (p k) := by
  apply Option.ext
  intro v
  rw [get?_eq_some_iff,Option.filter_eq_some_iff,get?_eq_some_iff]
  simp [filter]

theorem get?_erase [Std.LawfulEqOrd κ] [DecidableEq κ] (m : SortedMap κ α) (k k' : κ) :
    (m.erase k).get? k'=if k=k' then none else m.get? k' := by
  unfold erase
  rw [get?_filter]
  by_cases h : k=k'
  · simp [h]
  · have h' : ¬k'=k := fun e => h e.symm
    cases m.get? k' <;> simp [Option.filter,h,h']

theorem get?_mapValues [Std.LawfulEqOrd κ] (f : κ → α → β) (m : SortedMap κ α) (k : κ) :
    (m.mapValues f).get? k=(m.get? k).map (f k) := by
  apply Option.ext
  intro v
  rw [get?_eq_some_iff,Option.map_eq_some_iff]
  simp only [mapValues,List.mem_map,Prod.mk.injEq]
  constructor
  · rintro ⟨e,he,rfl,rfl⟩
    exact ⟨e.2,get?_eq_some_iff.mpr he,rfl⟩
  · rintro ⟨a,ha,rfl⟩
    exact ⟨(k,a),get?_eq_some_iff.mp ha,rfl,rfl⟩

/-- Maps in which the same is found under every key are equal. -/
theorem ext_get? [Std.TransOrd κ] [Std.LawfulEqOrd κ] {a b : SortedMap κ α}
    (h : ∀ k, a.get? k=b.get? k) : a=b := by
  have hm : ∀ e, e∈a.entries ↔ e∈b.entries := by
    intro e
    rw [← get?_eq_some_iff,← get?_eq_some_iff,h]
  obtain ⟨l,hl⟩ := a
  obtain ⟨l',hl'⟩ := b
  simp only at hm
  congr 1
  clear h
  induction l generalizing l' with
  | nil =>
    cases l' with
    | nil => rfl
    | cons e rest => exact absurd ((hm e).mpr (List.mem_cons_self ..)) (by simp)
  | cons e rest ih =>
    cases l' with
    | nil => exact absurd ((hm e).mp (List.mem_cons_self ..)) (by simp)
    | cons e' rest' =>
      obtain ⟨he,hr⟩ := List.pairwise_cons.mp hl
      obtain ⟨he',hr'⟩ := List.pairwise_cons.mp hl'
      have irrefl : ∀ x : κ, compare x x≠.lt := by
        intro x
        simp
      have hh : e=e' := by
        rcases List.mem_cons.mp ((hm e).mp (List.mem_cons_self ..)) with h | h
        · exact h
        · rcases List.mem_cons.mp ((hm e').mpr (List.mem_cons_self ..)) with h' | h'
          · exact h'.symm
          · exact absurd (Std.TransCmp.lt_trans (he' _ h) (he _ h')) (irrefl _)
      subst hh
      congr 1
      refine ih hr rest' hr' (fun x => ?_)
      have hx := hm x
      rw [List.mem_cons,List.mem_cons] at hx
      constructor
      · intro h
        rcases hx.mp (.inr h) with rfl | h'
        · exact absurd (he _ h) (irrefl _)
        · exact h'
      · intro h
        rcases hx.mpr (.inr h) with rfl | h'
        · exact absurd (he' _ h) (irrefl _)
        · exact h'

end FleetConsole.SortedMap
