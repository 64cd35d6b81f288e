import FleetConsole.Proofs.FileTree
import FleetConsole.Proofs.Json.ReadBack
import FleetConsole.Proofs.Settings.Reading
import FleetConsole.Settings.Store

namespace FleetConsole.Settings

/-- What settings are written as: our own member, and the others. -/
def members (s : Settings) : List (String × Json) :=
  (s.rateLimit.map (fun limit => (limitKey,Json.int limit.kbPerSec.toNat))).toList++
    s.other.entries

theorem members_setRateLimit (s : Settings) (limit : RateLimit) :
    (s.setRateLimit limit).members=(limitKey,.int limit.kbPerSec.toNat) :: s.other.entries := rfl

theorem valueUnder_setRateLimit {key : String} (h : key≠limitKey) (s : Settings)
    (limit : RateLimit) :
    Json.valueUnder key (s.setRateLimit limit).members=Json.valueUnder key s.other.entries := by
  rw [members_setRateLimit,Json.valueUnder_cons h.symm]

/-- Others that can be read back below the top. -/
def OthersReadable (s : Settings) : Prop :=
  ∀ m∈s.other.entries,m.2.fits (Json.maxDepth-1)=true ∧ m.2.isWhole=true

theorem othersReadable_empty : empty.OthersReadable := by
  intro m hm
  cases hm

theorem isWhole_limit (limit : RateLimit) :
    (Json.int limit.kbPerSec.toNat).isWhole=true := by
  have small : UInt32.size<Json.significandBound := by decide
  have word := limit.kbPerSec.toNat_lt_size
  rw [Json.isWhole,Json.isWholeRange_natCast (Nat.lt_trans word small)]

theorem read_write {s : Settings} (h : s.OthersReadable) :
    Json.read s.write=.ok (.obj s.members) := by
  have own : ∀ m∈s.members,m.2.fits (Json.maxDepth-1)=true ∧ m.2.isWhole=true := by
    intro m hm
    rcases List.mem_append.mp hm with hm | hm
    · obtain ⟨limit,_,rfl⟩ := Option.map_eq_some_iff.mp (Option.mem_toList.mp hm)
      exact ⟨rfl,isWhole_limit limit⟩
    · exact h m hm
  exact Json.read_pretty (Json.fits_obj_iff.mpr ⟨_,rfl,fun m hm => (own m hm).1⟩)
    (Json.isWhole_obj_iff.mpr (fun m hm => (own m hm).2))

theorem read_of_save {s : Settings} {t : FileTree} {path : FilePath}
    (h : (s.save t path).1=.ok ()) :
    (s.save t path).2.read path=.content (.text (String.ofList s.write)) := by
  unfold save at h ⊢
  cases ha : t.applyAll (s.changes path) with
  | mk done t' =>
    rw [ha] at h
    have hd : done=true := by
      cases done with
      | true => rfl
      | false => cases h
    rw [changes,FileTree.applyAll] at ha
    split at ha
    next t'' _ => exact FileTree.read_of_replaced (hd ▸ ha)
    next => cases hd ▸ ha

/-- What settings a text stands for that is an object: none, if its own member is no limit. -/
theorem ofReadOrEmpty_of_obj {text : String} {members : List (String × Json)}
    (h : Json.read text.toList=.ok (.obj members)) :
    ofReadOrEmpty (.content (.text text))=(ownLimit? members).elim empty
      (fun limit => ⟨limit,SortedMap.ofList (Json.sortedMembers (others members))⟩) := by
  have hr := read_of_obj h
  cases ho : ownLimit? members with
  | some limit =>
    rw [ho] at hr
    have hs : Settings.read text.toList=
      .ok ⟨limit,SortedMap.ofList (Json.sortedMembers (others members))⟩ := hr
    simp only [ofReadOrEmpty,ofRead,hs,Option.elim_some]
  | none =>
    rw [ho] at hr
    obtain ⟨fault,hf⟩ := hr
    simp only [ofReadOrEmpty,ofRead,hf,Option.elim_none]

theorem othersReadable_of_obj {text : String} {members : List (String × Json)}
    (h : Json.read text.toList=.ok (.obj members)) (hw : (Json.obj members).isWhole=true) :
    (ofReadOrEmpty (.content (.text text))).OthersReadable := by
  rw [ofReadOrEmpty_of_obj h]
  cases ownLimit? members with
  | none => exact othersReadable_empty
  | some limit =>
    intro e he
    rw [Json.sortedMembers_eq_map] at he
    obtain ⟨m,hm,rfl⟩ := Json.exists_of_mem_sorted he
    obtain ⟨rest,hv,_⟩ := Json.read_ok h
    obtain ⟨d,hd,fit⟩ := Json.fits_obj_iff.mp (Json.fits_of_readValue hv)
    cases Nat.succ.inj hd
    have hm' := List.mem_of_mem_filter hm
    exact ⟨Json.fits_sorted (fit m hm'),
      Json.isWhole_sorted (Json.isWhole_obj_iff.mp hw m hm')⟩

end FleetConsole.Settings
