import FleetConsole.Proofs.Json.Value
import FleetConsole.Proofs.SortedMap

namespace FleetConsole.Json

theorem sortedItems_eq_map (items : List Json) : sortedItems items=items.map sorted := by
  induction items with
  | nil => rfl
  | cons v rest ih => rw [sortedItems,ih,List.map_cons]

theorem sortedMembers_eq_map (members : List (String × Json)) :
    sortedMembers members=members.map (fun m => (m.1,m.2.sorted)) := by
  induction members with
  | nil => rfl
  | cons m rest ih =>
    obtain ⟨name,v⟩ := m
    rw [sortedMembers,ih,List.map_cons]

theorem sorted_arr (items : List Json) : (arr items).sorted=arr (items.map sorted) := by
  rw [sorted,sortedItems_eq_map]

theorem sorted_obj (members : List (String × Json)) :
    (obj members).sorted=
      obj (SortedMap.ofList (members.map (fun m => (m.1,m.2.sorted)))).entries := by
  rw [sorted,sortedMembers_eq_map]

/-- Each member in key order stands for a member of the object. -/
theorem exists_of_mem_sorted {members : List (String × Json)} {e : String × Json}
    (h : e∈(SortedMap.ofList (members.map (fun m => (m.1,m.2.sorted)))).entries) :
    ∃ m∈members,(m.1,m.2.sorted)=e := List.mem_map.mp (SortedMap.mem_of_mem_ofList h)

theorem fits_sorted {v : Json} {depth : Nat} (h : v.fits depth=true) :
    v.sorted.fits depth=true := by
  induction v using induct generalizing depth with
  | arr items ih =>
    obtain ⟨d,rfl,fit⟩ := fits_arr_iff.mp h
    rw [sorted_arr]
    refine fits_arr_iff.mpr ⟨d,rfl,fun w hw => ?_⟩
    obtain ⟨v,hv,rfl⟩ := List.mem_map.mp hw
    exact ih v hv (fit v hv)
  | obj members ih =>
    obtain ⟨d,rfl,fit⟩ := fits_obj_iff.mp h
    rw [sorted_obj]
    refine fits_obj_iff.mpr ⟨d,rfl,fun e he => ?_⟩
    obtain ⟨m,hm,rfl⟩ := exists_of_mem_sorted he
    exact ih m hm (fit m hm)
  | _ => exact h

theorem isWhole_sorted {v : Json} (h : v.isWhole=true) : v.sorted.isWhole=true := by
  induction v using induct with
  | arr items ih =>
    rw [isWhole_arr_iff] at h
    rw [sorted_arr,isWhole_arr_iff]
    intro w hw
    obtain ⟨v,hv,rfl⟩ := List.mem_map.mp hw
    exact ih v hv (h v hv)
  | obj members ih =>
    rw [isWhole_obj_iff] at h
    rw [sorted_obj,isWhole_obj_iff]
    intro e he
    obtain ⟨m,hm,rfl⟩ := exists_of_mem_sorted he
    exact ih m hm (h m hm)
  | _ => exact h

theorem sorted_sorted (v : Json) : v.sorted.sorted=v.sorted := by
  induction v using induct with
  | arr items ih =>
    rw [sorted_arr,sorted_arr,List.map_map]
    exact congrArg arr (List.map_congr_left ih)
  | obj members ih =>
    rw [sorted_obj,sorted_obj]
    have same : (SortedMap.ofList (members.map (fun m => (m.1,m.2.sorted)))).entries.map
        (fun m => (m.1,m.2.sorted))=
        (SortedMap.ofList (members.map (fun m => (m.1,m.2.sorted)))).entries := by
      refine (List.map_congr_left (fun e he => ?_)).trans (List.map_id _)
      obtain ⟨m,hm,rfl⟩ := exists_of_mem_sorted he
      rw [ih m hm]
      rfl
    rw [same,SortedMap.ofList_entries]
  | _ => rfl

/-- The value that an object has under a key. -/
def valueUnder (key : String) (members : List (String × Json)) : Option Json :=
  (SortedMap.ofList (sortedMembers members)).get? key

theorem valueUnder_eq (key : String) (members : List (String × Json)) :
    valueUnder key members=
      (members.reverse.find? (fun m => decide (m.1=key))).map (fun m => m.2.sorted) := by
  rw [valueUnder,SortedMap.get?_ofList,sortedMembers_eq_map,← List.map_reverse,List.find?_map,
    Option.map_map]
  rfl

theorem valueUnder_cons {key name : String} (h : name≠key) (v : Json)
    (members : List (String × Json)) :
    valueUnder key ((name,v) :: members)=valueUnder key members := by
  simp [valueUnder_eq,List.find?_append,h]

theorem valueUnder_filter {key name : String} (h : key≠name) (members : List (String × Json)) :
    valueUnder key (members.filter (fun m => m.1 != name))=valueUnder key members := by
  have same : (fun m : String × Json => decide ((m.1 != name)=true ∧ decide (m.1=key)=true))=
      fun m => decide (m.1=key) := by
    funext m
    by_cases e : m.1=key
    · simp [e,h]
    · simp [e]
  rw [valueUnder_eq,valueUnder_eq,← List.filter_reverse,List.find?_filter,same]

theorem valueUnder_eq_none_iff {key : String} {members : List (String × Json)} :
    valueUnder key members=none ↔ ∀ m∈members,m.1≠key := by
  rw [valueUnder_eq,Option.map_eq_none_iff,List.find?_eq_none]
  simp

/-- Members in key order have the same values. -/
theorem valueUnder_entries (key : String) (members : List (String × Json)) :
    valueUnder key (SortedMap.ofList (sortedMembers members)).entries=valueUnder key members := by
  have h := sorted_sorted (obj members)
  rw [sorted,sorted] at h
  have e := congrArg SortedMap.ofList (Json.obj.inj h)
  rw [SortedMap.ofList_entries,SortedMap.ofList_entries] at e
  rw [valueUnder,e,valueUnder]

end FleetConsole.Json
