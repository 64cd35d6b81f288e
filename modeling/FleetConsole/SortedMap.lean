namespace FleetConsole

/-- A finite map listed in strictly ascending key order, so equal contents are equal maps. -/
structure SortedMap (κ α : Type) [Ord κ] where
  entries : List (κ × α)
  ascending : entries.Pairwise (fun a b => compare a.1 b.1=.lt)

namespace SortedMap

variable {κ α β σ : Type} [Ord κ]

def insertEntry (k : κ) (v : α) : List (κ × α) → List (κ × α)
  | [] => [(k,v)]
  | e :: rest =>
    match compare k e.1 with
    | .lt => (k,v) :: e :: rest
    | .eq => (k,v) :: rest
    | .gt => e :: insertEntry k v rest

theorem mem_insertEntry {k : κ} {v : α} {l : List (κ × α)} {e : κ × α}
    (h : e∈insertEntry k v l) : e=(k,v) ∨ e∈l := by
  induction l with
  | nil => simpa [insertEntry] using h
  | cons d rest ih =>
    unfold insertEntry at h
    split at h
    · simpa using h
    · rcases List.mem_cons.mp h with h | h
      · exact .inl h
      · exact .inr (List.mem_cons_of_mem _ h)
    · rcases List.mem_cons.mp h with h | h
      · exact .inr (h ▸ List.mem_cons_self ..)
      · exact (ih h).imp id (List.mem_cons_of_mem _)

theorem insertEntry_ascending [Std.TransOrd κ] (k : κ) (v : α) (l : List (κ × α))
    (h : l.Pairwise (fun a b => compare a.1 b.1=.lt)) :
    (insertEntry k v l).Pairwise (fun a b => compare a.1 b.1=.lt) := by
  induction l with
  | nil => simp [insertEntry]
  | cons d rest ih =>
    obtain ⟨hd,hr⟩ := List.pairwise_cons.mp h
    unfold insertEntry
    split
    next hc =>
      refine List.pairwise_cons.mpr ⟨fun e he => ?_,h⟩
      rcases List.mem_cons.mp he with rfl | he
      · exact hc
      · exact Std.TransCmp.lt_trans hc (hd e he)
    next hc =>
      exact List.pairwise_cons.mpr ⟨fun e he => Std.TransCmp.lt_of_eq_of_lt hc (hd e he),hr⟩
    next hc =>
      refine List.pairwise_cons.mpr ⟨fun e he => ?_,ih hr⟩
      rcases mem_insertEntry he with rfl | he
      · exact Std.OrientedCmp.lt_of_gt hc
      · exact hd e he

def empty : SortedMap κ α := ⟨[],.nil⟩

def size (m : SortedMap κ α) : Nat := m.entries.length

def isEmpty (m : SortedMap κ α) : Bool := m.entries.isEmpty

def keys (m : SortedMap κ α) : List κ := m.entries.map Prod.fst

def get? (m : SortedMap κ α) (k : κ) : Option α :=
  (m.entries.find? (fun e => compare e.1 k==.eq)).map Prod.snd

def contains (m : SortedMap κ α) (k : κ) : Bool := (m.get? k).isSome

def insert [Std.TransOrd κ] (m : SortedMap κ α) (k : κ) (v : α) : SortedMap κ α :=
  ⟨insertEntry k v m.entries,insertEntry_ascending k v m.entries m.ascending⟩

def filter (p : κ → α → Bool) (m : SortedMap κ α) : SortedMap κ α :=
  ⟨m.entries.filter (fun e => p e.1 e.2),m.ascending.filter _⟩

def erase (m : SortedMap κ α) (k : κ) : SortedMap κ α :=
  m.filter (fun k' _ => compare k' k != .eq)

def mapValues (f : κ → α → β) (m : SortedMap κ α) : SortedMap κ β :=
  ⟨m.entries.map (fun e => (e.1,f e.1 e.2)),List.pairwise_map.mpr m.ascending⟩

def foldEntries (f : σ → κ → α → β × σ) : σ → List (κ × α) → List (κ × β) × σ
  | s,[] => ([],s)
  | s,e :: rest =>
    let (v,s') := f s e.1 e.2
    let (done,last) := foldEntries f s' rest
    ((e.1,v) :: done,last)

omit [Ord κ] in
theorem foldEntries_keys (f : σ → κ → α → β × σ) (s : σ) (l : List (κ × α)) :
    (foldEntries f s l).1.map Prod.fst=l.map Prod.fst := by
  induction l generalizing s with
  | nil => rfl
  | cons e rest ih => simp [foldEntries,ih]

/-- Replaces every value, in key order, while a state is handed from one key to the next. -/
def mapWithState (f : σ → κ → α → β × σ) (s : σ) (m : SortedMap κ α) : SortedMap κ β × σ :=
  let r := foldEntries f s m.entries
  (⟨r.1,by
    have h : (m.entries.map Prod.fst).Pairwise (fun a b => compare a b=.lt) :=
      List.pairwise_map.mpr m.ascending
    rw [← foldEntries_keys f s m.entries] at h
    exact List.pairwise_map.mp h⟩,r.2)

def ofList [Std.TransOrd κ] (l : List (κ × α)) : SortedMap κ α :=
  l.foldl (fun m e => m.insert e.1 e.2) empty

instance [DecidableEq κ] [DecidableEq α] : DecidableEq (SortedMap κ α) := fun a b =>
  if h : a.entries=b.entries then isTrue (by cases a; cases b; simp_all)
  else isFalse (fun e => h (e ▸ rfl))

end SortedMap

end FleetConsole
