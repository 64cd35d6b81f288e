import FleetConsole.FileTree
import FleetConsole.SortedMap.Lookup

namespace FleetConsole.FileTree

theorem slot?_eq_some {t : FileTree} {path : FilePath} {place : Place}
    (h : t.slot? path=some place) :
    ∃ name directory,path.names.getLast?=some name ∧
      t.follow (t.start path) path.names.dropLast=.to directory ∧ path.isSound=true ∧
      path.endsIdle=false ∧ name≠".." ∧ FilePath.isTooLong name=false ∧
      t.isDirectory directory=true ∧ place=directory++[name] := by
  unfold slot? at h
  split at h
  next name directory hn hd =>
    split at h
    next hc =>
      cases h
      simp only [Bool.and_eq_true,Bool.not_eq_true',bne_iff_ne] at hc
      exact ⟨name,directory,hn,hd,hc.1.1.1.1,hc.1.1.1.2,hc.1.1.2,hc.1.2,hc.2,rfl⟩
    next => cases h
  next => cases h

/-- A way to a directory leads through directories. -/
theorem isDirectory_of_follow {t : FileTree} {place target : Place} {names : List String}
    (h : t.follow place names=.to target) (hd : t.isDirectory target=true) :
    t.isDirectory place=true := by
  cases names with
  | nil =>
    cases h
    exact hd
  | cons name rest =>
    rw [follow] at h
    split at h
    · cases h
    next hc =>
      simp only [Bool.or_eq_true,Bool.not_eq_true',not_or,Bool.not_eq_false] at hc
      exact hc.1

theorem follow_of_directories {t t' : FileTree}
    (keeps : ∀ p,t.isDirectory p=true → t'.isDirectory p=true) {place target : Place}
    {names : List String} (h : t.follow place names=.to target)
    (hd : t.isDirectory target=true) : t'.follow place names=.to target := by
  induction names generalizing place with
  | nil => exact h
  | cons name rest ih =>
    have here := keeps place (isDirectory_of_follow h hd)
    rw [follow] at h ⊢
    split at h
    · cases h
    next hc =>
      split at h
      · cases h
      next =>
        have found : t'.node? (enter place name)=some .directory :=
          eq_of_beq (keeps _ (isDirectory_of_follow h hd))
        simp only [Bool.or_eq_true,not_or] at hc
        simp only [here,hc.2,found,Bool.not_true,Bool.or_self,Bool.false_eq_true,if_false,
          Option.isNone_some]
        exact ih h

theorem follow_concat {t : FileTree} {place middle : Place} {names : List String}
    (h : t.follow place names=.to middle) (name : String) :
    t.follow place (names++[name])=t.follow middle [name] := by
  induction names generalizing place with
  | nil =>
    cases h
    rfl
  | cons first rest ih =>
    rw [List.cons_append,follow]
    rw [follow] at h
    split at h
    · cases h
    next hc =>
      split at h
      · cases h
      next hn =>
        rw [if_neg hc,if_neg hn]
        exact ih h

/-- Where a file goes does not change as long as directories stay. -/
theorem slot?_of_directories {t t' : FileTree}
    (keeps : ∀ p,t.isDirectory p=true → t'.isDirectory p=true) {path : FilePath}
    {place : Place} (h : t.slot? path=some place) (same : t'.here=t.here) :
    t'.slot? path=some place := by
  obtain ⟨name,directory,hn,hf,sound,idle,up,long,hd,rfl⟩ := slot?_eq_some h
  have start : t'.start path=t.start path := by rw [FileTree.start,FileTree.start,same]
  have follows := follow_of_directories keeps hf hd
  rw [← start] at follows
  simp [slot?,hn,follows,sound,idle,up,long,keeps directory hd]

theorem isEmpty_of_names {path : FilePath} {name : String}
    (h : path.names.getLast?=some name) : path.isEmpty=false := by
  rcases path with ⟨_ | ⟨piece,_ | ⟨next,rest⟩⟩⟩
  · cases h
  · rw [FilePath.isEmpty,beq_eq_false_iff_ne]
    rintro rfl
    cases h
  · rfl

/-- What is put where a path has its file is read under that path. -/
theorem read_of_slot {t : FileTree} {path : FilePath} {place : Place} {content : FileContent}
    (hs : t.slot? path=some place) (hc : t.node? place=some (.file content)) :
    t.read path=.content content := by
  obtain ⟨name,directory,hn,hf,sound,idle,up,long,hd,rfl⟩ := slot?_eq_some hs
  have names : path.names=path.names.dropLast++[name] := by
    obtain ⟨above,e⟩ := List.getLast?_eq_some_iff.mp hn
    rw [e,List.dropLast_concat]
  have named := isEmpty_of_names hn
  have last : t.follow directory [name]=.to (directory++[name]) := by
    have he : enter directory name=directory++[name] := if_neg up
    simp [follow,hd,long,he,hc]
  have follows : t.follow (t.start path) path.names=.to (directory++[name]) := by
    rw [names,follow_concat hf,last]
  simp [read,way,sound,named,follows,idle,hc]

theorem node?_put {place : Place} (h : place≠[]) (t : FileTree) (node : FileNode) (p : Place) :
    (t.put place node).node? p=if place=p then some node else t.node? p := by
  unfold node? put
  by_cases hp : p=[]
  · subst hp
    rw [if_pos rfl,if_neg h,if_pos rfl]
  · rw [if_neg hp,if_neg hp]
    exact SortedMap.get?_insert t.nodes place p node

theorem node?_erase {place p : Place} (h : place≠p) (t : FileTree) :
    ({ t with nodes := t.nodes.erase place } : FileTree).node? p=t.node? p := by
  unfold node?
  by_cases hp : p=[]
  · rw [if_pos hp,if_pos hp]
  · rw [if_neg hp,if_neg hp]
    exact (SortedMap.get?_erase t.nodes place p).trans (if_neg h)

theorem slot_ne_nil {t : FileTree} {path : FilePath} {place : Place}
    (h : t.slot? path=some place) : place≠[] := by
  obtain ⟨name,directory,_,_,_,_,_,_,_,rfl⟩ := slot?_eq_some h
  simp

/-- A file put where no directory is leaves all directories. -/
theorem isDirectory_put {t : FileTree} {place : Place} (hn : place≠[])
    (h : t.isDirectory place=false) (content : FileContent) {p : Place}
    (hp : t.isDirectory p=true) : (t.put place (.file content)).isDirectory p=true := by
  have other : place≠p := by
    rintro rfl
    rw [hp] at h
    cases h
  rw [isDirectory,node?_put hn,if_neg other]
  exact hp

theorem write?_eq_some {t t' : FileTree} {path : FilePath} {content : FileContent}
    (h : t.write? path content=some t') :
    ∃ place,t.slot? path=some place ∧ t.isDirectory place=false ∧
      t'=t.put place (.file content) := by
  unfold write? at h
  split at h
  next place hs =>
    split at h
    · cases h
    next hd =>
      cases h
      exact ⟨place,hs,Bool.eq_false_iff.mpr hd,rfl⟩
  next => cases h

theorem rename?_eq_some {t t' : FileTree} {source target : FilePath}
    (h : t.rename? source target=some t') :
    ∃ old new content,t.slot? source=some old ∧ t.slot? target=some new ∧
      t.node? old=some (.file content) ∧ t.isDirectory new=false ∧
      t'=({ t with nodes := t.nodes.erase old } : FileTree).put new (.file content) := by
  unfold rename? at h
  split at h
  next old new hold hnew =>
    split at h
    next content hc =>
      split at h
      · cases h
      next hd =>
        cases h
        exact ⟨old,new,content,hold,hnew,hc,Bool.eq_false_iff.mpr hd,rfl⟩
    next => cases h
  next => cases h

theorem isDirectory_moved {t : FileTree} {old new : Place} {content : FileContent}
    (hc : t.node? old=some (.file content)) (hn : new≠[]) (hd : t.isDirectory new=false)
    {p : Place} (hp : t.isDirectory p=true) :
    (({ t with nodes := t.nodes.erase old } : FileTree).put new (.file content)).isDirectory p=
      true := by
  have awayOld : old≠p := by
    rintro rfl
    rw [isDirectory,hc] at hp
    cases hp
  have awayNew : new≠p := by
    rintro rfl
    rw [hp] at hd
    cases hd
  rw [isDirectory,node?_put hn,if_neg awayNew,node?_erase awayOld]
  exact hp

theorem read_of_renamed {t t' : FileTree} {source target : FilePath} {place : Place}
    {content : FileContent} (hs : t.slot? source=some place)
    (hc : t.node? place=some (.file content)) (h : t.rename? source target=some t') :
    t'.read target=.content content := by
  obtain ⟨old,new,content',hold,hnew,hc',hd,rfl⟩ := rename?_eq_some h
  cases hs.symm.trans hold
  cases hc.symm.trans hc'
  have hn := slot_ne_nil hnew
  have keeps : ∀ p,t.isDirectory p=true →
      (({ t with nodes := t.nodes.erase place } : FileTree).put new (.file content)).isDirectory p=
        true := fun p => isDirectory_moved hc hn hd
  exact read_of_slot (slot?_of_directories keeps hnew rfl) (by rw [node?_put hn,if_pos rfl])

/-- A file that is written and moved to another path is what is read there. -/
theorem read_of_replaced {t t' : FileTree} {temporary path : FilePath} {content : FileContent}
    (h : t.applyAll [.write temporary content,.rename temporary path]=(true,t')) :
    t'.read path=.content content := by
  cases hw : t.write? temporary content with
  | none => simp [applyAll,change?,hw] at h
  | some written =>
    cases hr : written.rename? temporary path with
    | none => simp [applyAll,change?,hw,hr] at h
    | some moved =>
      have he : moved=t' := by simpa [applyAll,change?,hw,hr] using h
      obtain ⟨place,hs,hd,rfl⟩ := write?_eq_some hw
      have hn := slot_ne_nil hs
      have keeps : ∀ p,t.isDirectory p=true →
          (t.put place (.file content)).isDirectory p=true :=
        fun p => isDirectory_put hn hd content
      exact he ▸ read_of_renamed (slot?_of_directories keeps hs rfl)
        (by rw [node?_put hn,if_pos rfl]) hr

end FleetConsole.FileTree
