import FleetConsole.SortedMap.Lookup
import Mathlib.Data.List.Induction
import Mathlib.Data.List.Nodup

namespace FleetConsole.SortedMap

variable {κ α β σ : Type} [Ord κ]

omit [Ord κ] in
/-- Where the new value does not depend on the state, the pass maps the values. -/
theorem foldEntries_fst {f : σ → κ → α → β × σ} {g : κ → α → β}
    (h : ∀ s k v, (f s k v).1=g k v) (s : σ) (l : List (κ × α)) :
    (foldEntries f s l).1=l.map (fun e => (e.1,g e.1 e.2)) := by
  induction l generalizing s with
  | nil => rfl
  | cons e rest ih => simp only [foldEntries,h,ih,List.map_cons]

theorem mapWithState_snd (f : σ → κ → α → β × σ) (s : σ) (m : SortedMap κ α) :
    (m.mapWithState f s).2=m.entries.foldl (fun s e => (f s e.1 e.2).2) s := by
  obtain ⟨l,hl⟩ := m
  simp only [mapWithState]
  clear hl
  induction l generalizing s with
  | nil => rfl
  | cons e rest ih => simp only [foldEntries,ih,List.foldl_cons]

theorem get?_mapWithState [Std.LawfulEqOrd κ] {f : σ → κ → α → β × σ} {g : κ → α → β}
    (h : ∀ s k v, (f s k v).1=g k v) (s : σ) (m : SortedMap κ α) (k : κ) :
    (m.mapWithState f s).1.get? k=(m.get? k).map (g k) := by
  have e : (m.mapWithState f s).1=m.mapValues g := by
    simp only [mapWithState,mapValues,foldEntries_fst h]
  rw [e,get?_mapValues]

/-- Changing the value under a key, where there is one. -/
theorem get?_insert_of_get? [Std.TransOrd κ] [Std.LawfulEqOrd κ] [DecidableEq κ]
    {m : SortedMap κ α} {k : κ} {v : α} (h : m.get? k=some v) (f : α → α) (k' : κ) :
    (m.insert k (f v)).get? k'=if k=k' then (m.get? k').map f else m.get? k' := by
  rw [get?_insert]
  by_cases e : k=k'
  · subst e
    rw [if_pos rfl,if_pos rfl,h,Option.map_some]
  · rw [if_neg e,if_neg e]

theorem ite_map_get?_of_none [DecidableEq κ] {m : SortedMap κ α} {k : κ} (h : m.get? k=none)
    (f : α → α) (k' : κ) : (if k=k' then (m.get? k').map f else m.get? k')=m.get? k' := by
  by_cases e : k=k'
  · subst e
    rw [if_pos rfl,h,Option.map_none]
  · rw [if_neg e]

/-- One key has at most one entry. -/
theorem filter_entries_eq [Std.LawfulEqOrd κ] [DecidableEq κ] (m : SortedMap κ α) (k : κ) :
    m.entries.filter (fun e => decide (e.1=k))=((m.get? k).map (fun v => (k,v))).toList := by
  obtain ⟨l,hl⟩ := m
  rw [get?]
  simp only
  induction l with
  | nil => rfl
  | cons e rest ih =>
    obtain ⟨he,hr⟩ := List.pairwise_cons.mp hl
    by_cases h : e.1=k
    · have hn : rest.filter (fun e => decide (e.1=k))=[] := by
        rw [List.filter_eq_nil_iff]
        intro d hd
        have := he d hd
        simp only [decide_eq_true_eq]
        rintro rfl
        simp [h] at this
      rw [List.filter_cons_of_pos (by simp [h]),List.find?_cons_of_pos (by simp [h]),hn]
      simp [← h]
    · rw [List.filter_cons_of_neg (by simp [h]),List.find?_cons_of_neg (by simp [h]),ih hr]

theorem keys_nodup [Std.TransOrd κ] (m : SortedMap κ α) : m.keys.Nodup := by
  rw [keys,List.Nodup,List.pairwise_map]
  refine m.ascending.imp ?_
  intro a b h e
  simp [e] at h

/-- Only which keys there are counts. -/
theorem countP_keys_congr [Std.TransOrd κ] [Std.LawfulEqOrd κ] {a : SortedMap κ α}
    {b : SortedMap κ β} (h : ∀ k,a.contains k=b.contains k) (p : κ → Bool) :
    a.keys.countP p=b.keys.countP p := by
  have hp : a.keys.Perm b.keys := by
    rw [List.perm_ext_iff_of_nodup a.keys_nodup b.keys_nodup]
    intro k
    rw [← contains_iff_mem_keys,← contains_iff_mem_keys,h]
  exact hp.countP_eq p

theorem countP_keys_insert [Std.TransOrd κ] [Std.LawfulEqOrd κ] [DecidableEq κ]
    {m : SortedMap κ α} {k : κ} (h : m.contains k=false) (v : α) (p : κ → Bool) :
    (m.insert k v).keys.countP p=m.keys.countP p+if p k then 1 else 0 := by
  have hk : k∉m.keys := by
    rw [← contains_iff_mem_keys,h]
    simp
  have hp : (m.insert k v).keys.Perm (k :: m.keys) := by
    rw [List.perm_ext_iff_of_nodup (keys_nodup _) (List.nodup_cons.mpr ⟨hk,m.keys_nodup⟩)]
    intro k'
    rw [List.mem_cons,← contains_iff_mem_keys,← contains_iff_mem_keys,contains,contains,get?_insert]
    by_cases e : k=k'
    · simp [e]
    · simp [e,Ne.symm e]
  rw [hp.countP_eq,List.countP_cons]

theorem countP_keys_erase [Std.TransOrd κ] [Std.LawfulEqOrd κ] [DecidableEq κ]
    {m : SortedMap κ α} {k : κ} (h : m.contains k=true) (p : κ → Bool) :
    m.keys.countP p=(m.erase k).keys.countP p+if p k then 1 else 0 := by
  have hk : k∉(m.erase k).keys := by
    rw [← contains_iff_mem_keys,contains,get?_erase,if_pos rfl]
    simp
  have hp : m.keys.Perm (k :: (m.erase k).keys) := by
    rw [List.perm_ext_iff_of_nodup m.keys_nodup (List.nodup_cons.mpr ⟨hk,keys_nodup _⟩)]
    intro k'
    rw [List.mem_cons,← contains_iff_mem_keys,← contains_iff_mem_keys,contains,contains,get?_erase]
    by_cases e : k=k'
    · subst e
      simpa [contains] using h
    · simp [e,Ne.symm e]
  rw [hp.countP_eq,List.countP_cons]

theorem ofList_concat [Std.TransOrd κ] (l : List (κ × α)) (e : κ × α) :
    ofList (l++[e])=(ofList l).insert e.1 e.2 := by
  rw [ofList,List.foldl_append]
  rfl

theorem mem_of_mem_ofList [Std.TransOrd κ] {l : List (κ × α)} {e : κ × α}
    (h : e∈(ofList l).entries) : e∈l := by
  induction l using List.reverseRecOn with
  | nil => cases h
  | append_singleton l d ih =>
    rw [ofList_concat] at h
    rcases mem_insertEntry h with rfl | h
    · simp
    · exact List.mem_append_left _ (ih h)

/-- The value given last counts. -/
theorem get?_ofList [Std.TransOrd κ] [Std.LawfulEqOrd κ] [DecidableEq κ] (l : List (κ × α))
    (k : κ) : (ofList l).get? k=(l.reverse.find? (fun e => decide (e.1=k))).map Prod.snd := by
  induction l using List.reverseRecOn with
  | nil => rfl
  | append_singleton l e ih =>
    rw [ofList_concat,get?_insert,ih,List.reverse_append,List.reverse_singleton,
      List.singleton_append,List.find?_cons]
    by_cases h : e.1=k <;> simp [h]

/-- In whatever order and however often its entries are given, they make up the map. -/
theorem ofList_eq [Std.TransOrd κ] [Std.LawfulEqOrd κ] [DecidableEq κ] {l : List (κ × α)}
    {m : SortedMap κ α} (h : ∀ e,e∈l ↔ e∈m.entries) : ofList l=m := by
  apply ext_get?
  intro k
  rw [get?_ofList]
  cases hf : l.reverse.find? (fun e => decide (e.1=k)) with
  | none =>
    rw [Option.map_none,eq_comm,Option.eq_none_iff_forall_ne_some]
    intro v hv
    have given : (k,v)∈l := (h (k,v)).mpr (get?_eq_some_iff.mp hv)
    exact List.find?_eq_none.mp hf (k,v) (List.mem_reverse.mpr given) (decide_eq_true rfl)
  | some e =>
    have own := List.find?_some hf
    obtain rfl : e.1=k := of_decide_eq_true own
    have given : e∈l := List.mem_reverse.mp (List.mem_of_find?_eq_some hf)
    exact (get?_eq_some_iff.mpr ((h e).mp given)).symm

theorem ofList_entries [Std.TransOrd κ] [Std.LawfulEqOrd κ] [DecidableEq κ] (m : SortedMap κ α) :
    ofList m.entries=m := ofList_eq (fun _ => Iff.rfl)

end FleetConsole.SortedMap
