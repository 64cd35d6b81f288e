import FleetConsole.Proofs.Style.CanonicalKey
import FleetConsole.Proofs.Style.Segments
import Mathlib.Data.List.Dedup
import Mathlib.Data.List.Nodup

namespace FleetConsole.Style

/-- The code lists that a text closes, in order. -/
def codeLists (text : List Char) : List (List Char) :=
  (segments text).tail.filterMap (fun segment => (splitCodes? segment).map Prod.fst)

namespace Table

/-- What a table is used for. -/
inductive Use where
  | resolve (codes : List Char)
  | scan (text : List Char)

/-- The code lists that a use looks up, one after the other. -/
def Use.codeLists : Use → List (List Char)
  | .resolve codes => [codes]
  | .scan text => Style.codeLists text

def after (t : Table) : Use → Table
  | .resolve codes => (t.resolve codes).2
  | .scan text => (scan t text).2

def afterAll (t : Table) (uses : List Use) : Table := uses.foldl after t

def resolveAll (t : Table) (asked : List (List Char)) : Table :=
  asked.foldl (fun t codes => (t.resolve codes).2) t

theorem scanSegments_snd (t : Table) (current : Style) (later : List (List Char)) :
    (scanSegments t current later).2=
      t.resolveAll (later.filterMap (fun segment => (splitCodes? segment).map Prod.fst)) := by
  induction later generalizing t current with
  | nil => rfl
  | cons segment later ih =>
    cases closed : splitCodes? segment with
    | none => simp [scanSegments,closed,ih]
    | some parts => simp [scanSegments,closed,ih,resolveAll]

theorem after_eq_resolveAll (t : Table) (u : Use) : t.after u=t.resolveAll u.codeLists := by
  cases u with
  | resolve codes => rfl
  | scan text =>
    obtain ⟨first,later,cut⟩ := List.exists_cons_of_ne_nil (segments_ne_nil text)
    simp [after,scan,Use.codeLists,codeLists,cut,scanSegments_snd]

theorem afterAll_eq_resolveAll (t : Table) (uses : List Use) :
    t.afterAll uses=t.resolveAll (uses.flatMap Use.codeLists) := by
  have each : after=fun t u => t.resolveAll u.codeLists :=
    funext fun t => funext fun u => t.after_eq_resolveAll u
  rw [afterAll,resolveAll,List.foldl_flatMap,each]
  rfl

def keys (t : Table) : List (List Char) := t.styles.map Style.key

theorem find?_eq (t : Table) (key : List Char) :
    t.find? key=if key∈t.keys then some ⟨t.keys.idxOf key,ofKey key⟩ else none := by
  cases found : t.find? key with
  | none =>
    have absent := List.findIdx?_eq_none_iff.mp (findIdx?_none_of_find?_none found)
    have missing : key∉t.keys := by
      intro member
      obtain ⟨s,hs,rfl⟩ := List.mem_map.mp member
      simpa using absent s hs
    rw [if_neg missing]
  | some entry =>
    obtain ⟨stored,style⟩ := style_of_find? found
    have placed : t.keys[entry.slot]?=some key := by
      rw [keys,List.getElem?_map,stored,style]
      rfl
    obtain ⟨inside,same⟩ := List.getElem?_eq_some_iff.mp placed
    have place : t.keys.idxOf t.keys[entry.slot]=entry.slot :=
      List.Nodup.idxOf_getElem t.keys_nodup entry.slot inside
    rw [same] at place
    rw [if_pos (List.mem_of_getElem? placed),place,← style]

theorem find?_eq_some_iff {t : Table} {key : List Char} {entry : Entry} :
    t.find? key=some entry ↔ key∈t.keys ∧ entry=⟨t.keys.idxOf key,ofKey key⟩ := by
  rw [find?_eq]
  split
  next h => simp [h,eq_comm]
  next h => simp [h]

theorem find?_eq_none_iff {t : Table} {key : List Char} : t.find? key=none ↔ key∉t.keys := by
  rw [find?_eq]
  split <;> simp_all

theorem isSome_find?_iff {t : Table} {key : List Char} :
    (t.find? key).isSome=true ↔ key∈t.keys := by
  rw [find?_eq]
  split <;> simp_all

theorem keys_initial : initial.keys=[normalKey] := rfl

theorem keys_resolve (t : Table) (codes : List Char) :
    (t.resolve codes).2.keys=
      if canonicalKey codes∈t.keys then t.keys else t.keys++[canonicalKey codes] := by
  unfold resolve
  dsimp only
  split
  next entry found => rw [if_pos (find?_eq_some_iff.mp found).1]
  next unknown =>
    rw [if_neg (find?_eq_none_iff.mp unknown)]
    exact List.map_append

/-- A code list gets the place that its key has from then on. -/
theorem resolve_fst (t : Table) (codes : List Char) :
    (t.resolve codes).1=
      ⟨(t.resolve codes).2.keys.idxOf (canonicalKey codes),ofKey (canonicalKey codes)⟩ := by
  rw [keys_resolve]
  unfold resolve
  dsimp only
  split
  next entry found =>
    obtain ⟨member,same⟩ := find?_eq_some_iff.mp found
    rw [if_pos member]
    exact same
  next unknown =>
    have missing := find?_eq_none_iff.mp unknown
    have size : t.keys.length=t.size := List.length_map ..
    rw [if_neg missing,List.idxOf_append_of_notMem missing,List.idxOf_cons_self,size,Nat.add_zero]

theorem keys_prefix_resolve (t : Table) (codes : List Char) :
    t.keys <+: (t.resolve codes).2.keys := by
  rw [keys_resolve]
  split
  · exact List.prefix_refl _
  · exact List.prefix_append _ _

theorem mem_keys_resolve {t : Table} {codes key : List Char} :
    key∈(t.resolve codes).2.keys ↔ key∈t.keys ∨ key=canonicalKey codes := by
  rw [keys_resolve]
  split
  next member =>
    constructor
    · exact .inl
    · rintro (old | rfl)
      · exact old
      · exact member
  next => simp

theorem canonicalKey_mem_keys_resolve (t : Table) (codes : List Char) :
    canonicalKey codes∈(t.resolve codes).2.keys := mem_keys_resolve.mpr (.inr rfl)

/-- Entries are neither replaced nor removed. -/
theorem keys_prefix_resolveAll (t : Table) (asked : List (List Char)) :
    t.keys <+: (t.resolveAll asked).keys := by
  induction asked generalizing t with
  | nil => exact List.prefix_refl _
  | cons codes asked ih => exact (t.keys_prefix_resolve codes).trans (ih _)

theorem keys_prefix_afterAll (t : Table) (uses : List Use) :
    t.keys <+: (t.afterAll uses).keys := by
  rw [afterAll_eq_resolveAll]
  exact t.keys_prefix_resolveAll _

theorem mem_keys_resolveAll {t : Table} {asked : List (List Char)} {key : List Char} :
    key∈(t.resolveAll asked).keys ↔ key∈t.keys ∨ key∈asked.map canonicalKey := by
  induction asked generalizing t with
  | nil => simp [resolveAll]
  | cons codes asked ih =>
    have rest := ih (t := (t.resolve codes).2)
    rw [mem_keys_resolve] at rest
    rw [List.map_cons,List.mem_cons,← or_assoc]
    exact rest

theorem idxOf_kept {t later : Table} (h : t.keys <+: later.keys) {key : List Char}
    (member : key∈t.keys) : later.keys.idxOf key=t.keys.idxOf key := by
  obtain ⟨more,same⟩ := h
  rw [← same,List.idxOf_append_of_mem member]

theorem find?_kept {t later : Table} (h : t.keys <+: later.keys) {key : List Char}
    {entry : Entry} (found : t.find? key=some entry) : later.find? key=some entry := by
  obtain ⟨member,rfl⟩ := find?_eq_some_iff.mp found
  exact find?_eq_some_iff.mpr ⟨h.mem member,by rw [idxOf_kept h member]⟩

theorem find?_resolve (t : Table) (codes : List Char) :
    (t.resolve codes).2.find? (canonicalKey codes)=some (t.resolve codes).1 :=
  find?_eq_some_iff.mpr ⟨t.canonicalKey_mem_keys_resolve codes,t.resolve_fst codes⟩

/-- An entry that was resolved is met again exactly under its key. -/
theorem slot_eq_iff (t : Table) (codes : List Char) (between : List Use) (codes' : List Char) :
    (t.resolve codes).1.slot=
        ((t.afterAll (.resolve codes :: between)).resolve codes').1.slot ↔
      canonicalKey codes=canonicalKey codes' := by
  have first := t.canonicalKey_mem_keys_resolve codes
  have kept : (t.resolve codes).2.keys <+:
      ((t.afterAll (.resolve codes :: between)).resolve codes').2.keys :=
    ((t.resolve codes).2.keys_prefix_afterAll between).trans (keys_prefix_resolve _ codes')
  rw [resolve_fst,resolve_fst (t.afterAll _),← idxOf_kept kept first]
  exact List.idxOf_inj (kept.mem first)

/-- There are as many entries as keys were asked for, besides that of the normal style. -/
theorem size_resolveAll (asked : List (List Char)) :
    (initial.resolveAll asked).size=(normalKey :: asked.map canonicalKey).dedup.length := by
  have size : (initial.resolveAll asked).keys.length=(initial.resolveAll asked).size :=
    List.length_map ..
  have same : (initial.resolveAll asked).keys.Perm (normalKey :: asked.map canonicalKey).dedup := by
    have distinct : (initial.resolveAll asked).keys.Nodup := keys_nodup _
    apply (List.perm_ext_iff_of_nodup distinct (List.nodup_dedup _)).mpr
    intro key
    rw [mem_keys_resolveAll,keys_initial,List.mem_singleton,List.mem_dedup,List.mem_cons]
  rw [← size,same.length_eq]

/-- The normal style has the first place. -/
theorem find?_normalKey (t : Table) : t.find? normalKey=some ⟨0,normal⟩ := by
  have first : t.keys.head?=some normalKey := by
    rw [keys,List.head?_map,t.head_normal]
    rfl
  obtain ⟨later,cut⟩ := List.head?_eq_some_iff.mp first
  have member : normalKey∈t.keys := List.mem_of_mem_head? first
  refine find?_eq_some_iff.mpr ⟨member,?_⟩
  rw [cut,List.idxOf_cons_self,ofKey_normalKey]

theorem normalEntry_eq (t : Table) : t.normalEntry=⟨0,normal⟩ := by
  rw [normalEntry,entryUnder,find?_normalKey]
  rfl

/-- A table holds the keys looked up so far and the normal one, each with its style and in one place
for good, and no answer but the place depends on what came before. -/
theorem table_interns (uses : List Use) :
    let t := initial.afterAll uses
    let asked := uses.flatMap Use.codeLists
    t=initial.resolveAll asked ∧
    (∀ key entry,t.find? key=some entry → entry.style.key=key ∧
      entry.style.attributes=(Text.fields codeSeparator key).filterMap Attribute.ofCode?) ∧
    (∀ key,(t.find? key).isSome=true ↔ key=normalKey ∨ key∈asked.map canonicalKey) ∧
    t.find? normalKey=some ⟨0,⟨normalKey,[]⟩⟩ ∧ t.normalEntry=⟨0,⟨normalKey,[]⟩⟩ ∧
    (∀ codes,(t.resolve codes).2.find? (canonicalKey codes)=some (t.resolve codes).1) ∧
    (∀ more key entry,t.find? key=some entry → (t.afterAll more).find? key=some entry) ∧
    (∀ codes between codes',
      (t.resolve codes).1.slot=
          ((t.afterAll (.resolve codes :: between)).resolve codes').1.slot ↔
        canonicalKey codes=canonicalKey codes') ∧
    t.size=(normalKey :: asked.map canonicalKey).dedup.length ∧
    ∀ others,
      (∀ codes,(t.resolve codes).1.style=((initial.afterAll others).resolve codes).1.style) ∧
      ∀ text,(scan t text).1=(scan (initial.afterAll others) text).1 := by
  intro t asked
  have looked : t=initial.resolveAll asked := afterAll_eq_resolveAll initial uses
  refine ⟨looked,?_,?_,t.find?_normalKey,t.normalEntry_eq,t.find?_resolve,?_,t.slot_eq_iff,?_,?_⟩
  · intro key entry found
    obtain ⟨_,rfl⟩ := find?_eq_some_iff.mp found
    exact ⟨rfl,rfl⟩
  · intro key
    rw [isSome_find?_iff,looked,mem_keys_resolveAll,keys_initial,List.mem_singleton]
  · intro more key entry found
    exact find?_kept (t.keys_prefix_afterAll more) found
  · rw [looked]
    exact size_resolveAll asked
  · intro others
    refine ⟨?_,fun text => scan_runs _ _ text⟩
    intro codes
    rw [resolve_style,resolve_style]

end Table

end FleetConsole.Style
