import FleetConsole.Proofs.Json.Legible
import FleetConsole.Proofs.Settings.Saving

namespace FleetConsole.Settings

/-- Settings as a reader leaves them: no other member has our name, and all of them are in key
order at every level and can be read again. -/
structure Proper (s : Settings) : Prop where
  foreign : ∀ e∈s.other.entries,e.1≠limitKey
  ordered : ∀ e∈s.other.entries,e.2.sorted=e.2
  legible : ∀ e∈s.other.entries,Json.Legible (Json.maxDepth-1) e.2

theorem proper_empty : empty.Proper := ⟨nofun,nofun,nofun⟩

theorem proper_setRateLimit {s : Settings} (h : s.Proper) (limit : RateLimit) :
    (s.setRateLimit limit).Proper := ⟨h.foreign,h.ordered,h.legible⟩

/-- Each of the other settings stands for a member of the object that they were read from. -/
theorem exists_of_mem_other {members : List (String × Json)} {e : String × Json}
    (h : e∈(SortedMap.ofList (Json.sortedMembers (others members))).entries) :
    ∃ m∈members,m.1≠limitKey ∧ (m.1,m.2.sorted)=e := by
  rw [Json.sortedMembers_eq_map] at h
  obtain ⟨m,hm,e⟩ := Json.exists_of_mem_sorted h
  obtain ⟨within,other⟩ := List.mem_filter.mp hm
  exact ⟨m,within,bne_iff_ne.mp other,e⟩

theorem proper_of_read {text : List Char} {s : Settings} (h : read text=.ok s) : s.Proper := by
  obtain ⟨members,limit,object,_,rfl⟩ := read_iff.mp h
  obtain ⟨rest,hv,_⟩ := Json.read_ok object
  have legible : ∀ m∈members,Json.Legible (Json.maxDepth-1) m.2 := by
    cases Json.legible_of_readValue hv with
    | scalar depth plain bounded => cases plain
    | obj each => exact each
  constructor
  · intro e he
    obtain ⟨m,_,other,rfl⟩ := exists_of_mem_other he
    exact other
  · intro e he
    obtain ⟨m,_,_,rfl⟩ := exists_of_mem_other he
    exact Json.sorted_sorted m.2
  · intro e he
    obtain ⟨m,hm,_,rfl⟩ := exists_of_mem_other he
    exact Json.legible_sorted (legible m hm)

theorem write_eq (s : Settings) : s.write=(Json.obj s.members).pretty := rfl

/-- Our own member, if there is a limit. -/
def ownMembers (limit : Option RateLimit) : List (String × Json) :=
  (limit.map (fun limit => (limitKey,Json.int limit.kbPerSec.toNat))).toList

theorem members_eq (s : Settings) : s.members=ownMembers s.rateLimit++s.other.entries := rfl

theorem memberReads_limit (limit : RateLimit) :
    Json.MemberReads .lines (Json.maxDepth-1) 1 (limitKey,.int limit.kbPerSec.toNat)
      (limitKey,.int limit.kbPerSec.toNat) :=
  ⟨rfl,Json.readsBack .lines rfl (isWhole_limit limit) 1⟩

theorem limitOf?_limit (limit : RateLimit) :
    limitOf? (.int limit.kbPerSec.toNat)=some (some limit) := by
  have meaning (n : Int) : limitOf? (.int n)=(Json.int n).uint32?.map (fun kb => some ⟨kb⟩) := rfl
  rw [meaning,Json.uint32?_toNat]
  rfl

section

variable {content : List (String × Json)} (foreign : ∀ c∈content,c.1≠limitKey)

include foreign

theorem own_of_foreign : own content=[] := by
  apply List.filter_eq_nil_iff.mpr
  intro c hc
  simpa using foreign c hc

theorem others_of_foreign : others content=content := by
  apply List.filter_eq_self.mpr
  intro c hc
  exact bne_iff_ne.mpr (foreign c hc)

/-- An object with our own member in front of others means the limit and those others. -/
theorem read_of_members_own {text : List Char} {limit : Option RateLimit}
    (h : Json.read text=.ok (.obj (ownMembers limit++content))) :
    read text=.ok ⟨limit,SortedMap.ofList (Json.sortedMembers content)⟩ := by
  apply read_iff.mpr
  refine ⟨_,limit,h,?_,?_⟩
  · cases limit with
    | none =>
      show ownLimit? content=_
      rw [ownLimit?,own_of_foreign foreign]
    | some limit =>
      show ownLimit? ((limitKey,_) :: content)=_
      rw [ownLimit?_cons_own _ _ rfl,if_pos (own_of_foreign foreign),limitOf?_limit]
  · cases limit with
    | none =>
      show _=Settings.mk none (SortedMap.ofList (Json.sortedMembers (others content)))
      rw [others_of_foreign foreign]
    | some limit =>
      show _=Settings.mk _ (SortedMap.ofList
        (Json.sortedMembers (others ((limitKey,_) :: content))))
      rw [others_cons_own _ _ rfl,others_of_foreign foreign]

end

/-- Written settings are read with their limit, and with the others as these are read. -/
theorem read_write_as {s : Settings} (proper : s.Proper) {content : List (String × Json)}
    (h : List.Forall₂ (Json.MemberReads .lines (Json.maxDepth-1) 1) s.other.entries content) :
    read s.write=.ok ⟨s.rateLimit,SortedMap.ofList (Json.sortedMembers content)⟩ := by
  have names : s.other.entries.map Prod.fst=content.map Prod.fst :=
    List.forall₂_eq_eq_eq ▸ List.forall₂_map_left_iff.mpr
      (List.forall₂_map_right_iff.mpr (h.imp (fun _ _ member => member.same)))
  have foreign : ∀ c∈content,c.1≠limitKey := by
    intro c hc own
    have named : limitKey∈s.other.entries.map Prod.fst := by
      rw [names,← own]
      exact List.mem_map_of_mem hc
    obtain ⟨e,he,same⟩ := List.mem_map.mp named
    exact proper.foreign e he same
  have whole : List.Forall₂ (Json.MemberReads .lines (Json.maxDepth-1) 1) s.members
      (ownMembers s.rateLimit++content) := by
    rw [members_eq]
    refine List.rel_append ?_ h
    cases s.rateLimit with
    | none => exact .nil
    | some limit => exact .cons (memberReads_limit limit) .nil
  apply read_of_members_own foreign
  rw [write_eq]
  exact Json.read_pretty_of_readsAs (Json.readsAs_obj whole)

/-- The limit is read as it was written, whatever numbers the others hold. -/
theorem rateLimit_read_write {s : Settings} (proper : s.Proper) :
    ∃ s',read s.write=.ok s' ∧ s'.rateLimit=s.rateLimit := by
  have each : ∀ e∈s.other.entries,∃ c,Json.MemberReads .lines (Json.maxDepth-1) 1 e c := by
    intro e he
    obtain ⟨w,hw⟩ := Json.readsAs_of_legible (proper.legible e he) .lines 1
    exact ⟨(e.1,w),rfl,hw⟩
  obtain ⟨content,h⟩ := Json.exists_forall₂ each
  exact ⟨_,read_write_as proper h,rfl⟩

/-- Where all numbers are whole, what is read is what was written. -/
theorem read_write_self {s : Settings} (proper : s.Proper)
    (whole : ∀ e∈s.other.entries,e.2.isWhole=true) : read s.write=.ok s := by
  have same : List.Forall₂ (Json.MemberReads .lines (Json.maxDepth-1) 1) s.other.entries
      s.other.entries := by
    apply List.forall₂_same.mpr
    intro e he
    have fit := Json.fits_of_legible (proper.legible e he)
    exact ⟨rfl,Json.readsBack .lines fit (whole e he) 1⟩
  have sorted : Json.sortedMembers s.other.entries=s.other.entries := by
    rw [Json.sortedMembers_eq_map]
    refine (List.map_congr_left (fun e he => ?_)).trans (List.map_id _)
    rw [proper.ordered e he]
    rfl
  have read := read_write_as proper same
  rwa [sorted,SortedMap.ofList_entries] at read

theorem proper_ofReadOrEmpty (r : FileRead) : (ofReadOrEmpty r).Proper := by
  cases r with
  | content content =>
    cases content with
    | binary bytes => exact proper_empty
    | text text =>
      rw [ofReadOrEmpty,ofRead]
      cases h : read text.toList with
      | ok s => exact proper_of_read h
      | error fault => exact proper_empty
  | _ => exact proper_empty

/-- What a reader finds of a limit that was saved, whatever the settings were read from. -/
theorem rateLimit_of_save {s : Settings} (proper : s.Proper) {files : FileTree} {path : FilePath}
    {limit : RateLimit} (h : ((s.setRateLimit limit).save files path).1=.ok ()) :
    (ofReadOrEmpty (((s.setRateLimit limit).save files path).2.read path)).rateLimit=
      some limit := by
  obtain ⟨s',reads,same⟩ := rateLimit_read_write (proper_setRateLimit proper limit)
  rw [read_of_save h,ofReadOrEmpty,ofRead,String.toList_ofList,reads]
  exact same

theorem nodup_members {s : Settings} (proper : s.Proper) : (s.members.map Prod.fst).Nodup := by
  have others : (s.other.entries.map Prod.fst).Nodup := s.other.keys_nodup
  obtain ⟨rateLimit,other⟩ := s
  cases rateLimit with
  | none => exact others
  | some limit =>
    refine List.nodup_cons.mpr ⟨?_,others⟩
    intro own
    obtain ⟨e,he,same⟩ := List.mem_map.mp own
    exact proper.foreign e he same

/-- Settings that were read and are written are read again: the limit always, the others where all
numbers are whole. None of the others has our own name. -/
theorem settings_survive_writing {text : List Char} {s : Settings} (h : read text=.ok s) :
    (∃ members,Json.read text=.ok (.obj members) ∧ ((Json.obj members).isWhole=true →
      read s.write=.ok s ∧
      ∀ limit,read (s.setRateLimit limit).write=.ok ⟨some limit,s.other⟩)) ∧
    s.other.contains limitKey=false ∧
    (s.write=(Json.obj s.members).pretty ∧ (s.members.map Prod.fst).Nodup) ∧
    ∀ limit,(s.setRateLimit limit).write=(Json.obj (s.setRateLimit limit).members).pretty ∧
      ((s.setRateLimit limit).members.map Prod.fst).Nodup := by
  have proper := proper_of_read h
  obtain ⟨members,limit,object,_,made⟩ := read_iff.mp h
  refine ⟨⟨members,object,?_⟩,?_,⟨write_eq s,nodup_members proper⟩,?_⟩
  · intro whole
    have others : ∀ e∈s.other.entries,e.2.isWhole=true := by
      intro e he
      rw [made] at he
      obtain ⟨m,hm,_,rfl⟩ := exists_of_mem_other he
      exact Json.isWhole_sorted (Json.isWhole_obj_iff.mp whole m hm)
    refine ⟨read_write_self proper others,?_⟩
    intro limit
    exact read_write_self (proper_setRateLimit proper limit) others
  · apply Bool.eq_false_iff.mpr
    intro own
    obtain ⟨e,he,same⟩ := List.mem_map.mp (SortedMap.contains_iff_mem_keys.mp own)
    exact proper.foreign e he same
  · intro limit
    exact ⟨write_eq _,nodup_members (proper_setRateLimit proper limit)⟩

/-- A limit between others, one of which is given twice, with nothing in some of the panes and
marks in the text of another. -/
def panesText : List Char :=
  ("\x7b\"panes\": [\x7b\x7d, [], \x7b\"b\": \"\\u00e9\\n\", \"a\": [-7, 18446744073709551615]\x7d],"++
    "\"console_rate_limit\": 250, \"font\": \"Mono\", \"font\": \"Monospace 10\"\x7d").toList

theorem settings_survive_writing_panes :
    ∃ s,read panesText=.ok s ∧ s.rateLimit=some ⟨250⟩ ∧ s.other.keys=["font","panes"] ∧
      read s.write=.ok s ∧ read (s.setRateLimit ⟨0⟩).write=.ok ⟨some ⟨0⟩,s.other⟩ := by
  have found : (read panesText).toOption.map (fun s => (s.rateLimit,s.other.keys))=
      some (some ⟨250⟩,["font","panes"]) := by decide +kernel
  have numbers : (Json.read panesText).toOption.map Json.isWhole=some true := by decide +kernel
  cases hs : read panesText with
  | error fault =>
    rw [hs] at found
    cases found
  | ok s =>
    rw [hs] at found
    obtain ⟨limit,keys⟩ := Prod.mk.inj (Option.some.inj found)
    obtain ⟨⟨members,object,survive⟩,_⟩ := settings_survive_writing hs
    rw [object] at numbers
    obtain ⟨back,limited⟩ := survive (Option.some.inj numbers)
    exact ⟨s,rfl,limit,keys,back,limited ⟨0⟩⟩

end FleetConsole.Settings
