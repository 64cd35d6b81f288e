import FleetConsole.Style.Key

namespace FleetConsole.Style

/-- Styles met so far, in order of first appearance, the normal one first. Each key has one entry,
and entries stay where they are: a position in the list names a style for good. -/
structure Table where
  styles : List Style
  head_normal : styles.head?=some normal
  faithful : ∀ s∈styles,s=ofKey s.key
  keys_nodup : (styles.map Style.key).Nodup
  deriving DecidableEq

/-- A style together with its position in the table it came from. -/
structure Entry where
  slot : Nat
  style : Style
  deriving DecidableEq

namespace Table

def initial : Table where
  styles := [normal]
  head_normal := rfl
  faithful := by simp [← ofKey_normalKey]; decide
  keys_nodup := by simp

def size (t : Table) : Nat := t.styles.length

def find? (t : Table) (key : List Char) : Option Entry :=
  (t.styles.findIdx? (fun s => s.key==key)).bind
    (fun slot => t.styles[slot]?.map (fun s => ⟨slot,s⟩))

theorem findIdx?_none_of_find?_none {t : Table} {key : List Char} (h : t.find? key=none) :
    t.styles.findIdx? (fun s => s.key==key)=none := by
  cases hi : t.styles.findIdx? (fun s => s.key==key) with
  | none => rfl
  | some slot =>
    have hb : slot<t.styles.length := (List.findIdx?_eq_some_iff_getElem.mp hi).1
    simp [find?,hi,List.getElem?_eq_getElem hb] at h

/-- Adds a key that no entry has yet. -/
def extend (t : Table) (key : List Char) (h : t.find? key=none) : Table where
  styles := t.styles++[ofKey key]
  head_normal := by simp [t.head_normal]
  faithful := by
    intro s hs
    rcases List.mem_append.mp hs with hs | hs
    · exact t.faithful s hs
    · rw [List.mem_singleton.mp hs]
      rfl
  keys_nodup := by
    have hn := List.findIdx?_eq_none_iff.mp (findIdx?_none_of_find?_none h)
    rw [List.map_append,List.nodup_append]
    refine ⟨t.keys_nodup,by simp,?_⟩
    intro k hk k' hk' e
    obtain ⟨s,hs,rfl⟩ := List.mem_map.mp hk
    simp only [List.map_cons,List.map_nil,List.mem_singleton] at hk'
    have := hn s hs
    simp_all [ofKey]

/-- The entry for a code list, made on first use. -/
def resolve (t : Table) (codes : List Char) : Entry × Table :=
  let key := canonicalKey codes
  match h : t.find? key with
  | some entry => (entry,t)
  | none => (⟨t.size,ofKey key⟩,t.extend key h)

/-- The entry under a key. A key without one stands for a style outside of the table. -/
def entryUnder (t : Table) (key : List Char) : Entry := (t.find? key).getD ⟨t.size,⟨key,[]⟩⟩

def normalEntry (t : Table) : Entry := t.entryUnder normalKey

theorem style_of_find? {t : Table} {key : List Char} {entry : Entry}
    (h : t.find? key=some entry) :
    t.styles[entry.slot]?=some entry.style ∧ entry.style=ofKey key := by
  unfold find? at h
  obtain ⟨slot,hs,h⟩ := Option.bind_eq_some_iff.mp h
  obtain ⟨s,hg,rfl⟩ := Option.map_eq_some_iff.mp h
  refine ⟨hg,?_⟩
  obtain ⟨hb,hk,_⟩ := List.findIdx?_eq_some_iff_getElem.mp hs
  obtain ⟨_,rfl⟩ := List.getElem?_eq_some_iff.mp hg
  rw [← eq_of_beq hk]
  exact t.faithful _ (List.getElem_mem hb)

/-- What a code list resolves to does not depend on the table. -/
theorem resolve_style (t : Table) (codes : List Char) :
    (t.resolve codes).1.style=ofKey (canonicalKey codes) := by
  unfold resolve
  dsimp only
  split
  next h => exact (style_of_find? h).2
  next => rfl

end Table

end FleetConsole.Style
