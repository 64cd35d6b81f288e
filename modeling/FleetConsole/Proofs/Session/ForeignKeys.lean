import FleetConsole.Proofs.Settings.Saving
import FleetConsole.Session.Program

namespace FleetConsole.Program

/-- How the session of a run ends. -/
def lastSession (config : Config) (settings : Settings) (inputs : List (Reading × Session.Input))
    (last : Reading) : Session :=
  (((Session.start config settings.rateLimit).run inputs).session.finish last).session

theorem files_run {args : List String} {config : Config} (h : configure args=.ok config)
    (configDir : FilePath) (files : FileTree) (inputs : List (Reading × Session.Input))
    (last : Reading) :
    (run args configDir files inputs last).files=
      let path := settingsPath config configDir
      let settings := Settings.ofReadOrEmpty (files.read path)
      saveSettings (lastSession config settings inputs last) settings path files := by
  simp only [run,h]
  rfl

/-- What a session has to save, if anything, can be written. -/
def Saves (s : Session) (settings : Settings) (path : FilePath) (files : FileTree) : Prop :=
  ∀ saved,settingsToSave s settings=some saved → (saved.save files path).1=.ok ()

theorem settingsToSave_eq_some {s : Session} {settings saved : Settings}
    (h : settingsToSave s settings=some saved) : ∃ limit,saved=settings.setRateLimit limit := by
  obtain ⟨limit,_,e⟩ := Option.map_eq_some_iff.mp h
  exact ⟨limit,e.symm⟩

/-- What stands in a file as an object. -/
def ReadsAs (files : FileTree) (path : FilePath) (members : List (String × Json)) : Prop :=
  ∃ text,files.read path=.content (.text text) ∧ Json.read text.toList=.ok (.obj members)

theorem readsAs_unique {files : FileTree} {path : FilePath} {a b : List (String × Json)}
    (ha : ReadsAs files path a) (hb : ReadsAs files path b) : a=b := by
  obtain ⟨text,hr,hj⟩ := ha
  obtain ⟨text',hr',hj'⟩ := hb
  cases hr.symm.trans hr'
  cases hj.symm.trans hj'
  rfl

theorem readsAs_of_save {s : Settings} {files : FileTree} {path : FilePath}
    (hs : s.OthersReadable) (h : (s.save files path).1=.ok ()) :
    ReadsAs (s.save files path).2 path s.members :=
  ⟨_,Settings.read_of_save h,by rw [String.toList_ofList]; exact Settings.read_write hs⟩

/-- The members other than our own are the same. -/
def SameOthers (a b : List (String × Json)) : Prop :=
  ∀ key,key≠Settings.limitKey → Json.valueUnder key a=Json.valueUnder key b

theorem sameOthers_of_own {members : List (String × Json)} {limit : Option RateLimit}
    (h : Settings.ownLimit? members=some limit) {text : String}
    (hj : Json.read text.toList=.ok (.obj members)) (new : RateLimit) :
    SameOthers ((Settings.ofReadOrEmpty (.content (.text text))).setRateLimit new).members
      members := by
  intro key hk
  rw [Settings.valueUnder_setRateLimit hk,Settings.ofReadOrEmpty_of_obj hj,h]
  exact (Json.valueUnder_entries key (Settings.others members)).trans
    (Json.valueUnder_filter hk members)

theorem sameOthers_empty_iff {members : List (String × Json)} (new : RateLimit) :
    SameOthers (Settings.empty.setRateLimit new).members members ↔
      Settings.others members=[] := by
  have nothing {key : String} (hk : key≠Settings.limitKey) :
      Json.valueUnder key (Settings.empty.setRateLimit new).members=none := by
    rw [Settings.valueUnder_setRateLimit hk]
    rfl
  rw [Settings.others,List.filter_eq_nil_iff]
  constructor
  · intro same m hm
    rw [bne_iff_ne]
    intro hk
    have hv := (nothing hk).symm.trans (same m.1 hk)
    exact Json.valueUnder_eq_none_iff.mp hv.symm m hm rfl
  · intro only key hk
    rw [nothing hk]
    refine (Json.valueUnder_eq_none_iff.mpr (fun m hm e => ?_)).symm
    exact only m hm (by rw [bne_iff_ne,e]; exact hk)

/-- What is saved at the end takes the place of the file. Only settings that were read from it keep
its members. -/
theorem others_saved_iff {session : Session} {settings : Settings} {path : FilePath}
    {files : FileTree} {text : String} {members : List (String × Json)}
    (found : files.read path=.content (.text text))
    (object : Json.read text.toList=.ok (.obj members))
    (whole : (Json.obj members).isWhole=true)
    (loaded : settings=Settings.ofReadOrEmpty (.content (.text text)))
    (written : Saves session settings path files) :
    ∃ members',ReadsAs (saveSettings session settings path files) path members' ∧
      (SameOthers members' members ↔
        saveSettings session settings path files=files ∨
          (Settings.ownLimit? members).isSome=true ∨ Settings.others members=[]) := by
  have before : ReadsAs files path members := ⟨text,found,object⟩
  cases hs : settingsToSave session settings with
  | none =>
    have same : saveSettings session settings path files=files := by rw [saveSettings,hs]
    exact ⟨members,same.symm ▸ before,iff_of_true (fun _ _ => rfl) (.inl same)⟩
  | some saved =>
    have after : saveSettings session settings path files=(saved.save files path).2 := by
      rw [saveSettings,hs]
    obtain ⟨new,rfl⟩ := settingsToSave_eq_some hs
    have readable : (settings.setRateLimit new).OthersReadable :=
      loaded ▸ Settings.othersReadable_of_obj object whole
    have reads := readsAs_of_save readable (written _ hs)
    rw [← after] at reads
    refine ⟨_,reads,?_⟩
    cases ho : Settings.ownLimit? members with
    | some limit =>
      exact iff_of_true (loaded ▸ sameOthers_of_own ho object new) (.inr (.inl rfl))
    | none =>
      have lost : settings=Settings.empty := by
        rw [loaded,Settings.ofReadOrEmpty_of_obj object,ho,Option.elim_none]
      rw [lost] at reads ⊢
      constructor
      · intro same
        exact .inr (.inr ((sameOthers_empty_iff new).mp same))
      · rintro (same | h | only)
        · rw [same] at reads
          rw [readsAs_unique reads before]
          exact fun _ _ => rfl
        · cases h
        · exact (sameOthers_empty_iff new).mpr only

/-- The members that are not ours are kept if the files are, if our own member was a limit or none,
or if there are no others; in all other cases some are lost. -/
theorem others_kept_iff {args : List String} {configDir : FilePath} {files : FileTree}
    (inputs : List (Reading × Session.Input)) (last : Reading) {config : Config}
    {text : String} {members : List (String × Json)} (configured : configure args=.ok config)
    (found : files.read (settingsPath config configDir)=.content (.text text))
    (object : Json.read text.toList=.ok (.obj members))
    (whole : (Json.obj members).isWhole=true)
    (written : let settings := Settings.ofReadOrEmpty (.content (.text text))
      Saves (lastSession config settings inputs last) settings (settingsPath config configDir)
        files) :
    let left := (run args configDir files inputs last).files
    ∃ members',ReadsAs left (settingsPath config configDir) members' ∧
      (SameOthers members' members ↔
        left=files ∨ (Settings.ownLimit? members).isSome=true ∨ Settings.others members=[]) := by
  have leaves := files_run configured configDir files inputs last
  dsimp only at leaves ⊢
  rw [leaves,found]
  exact others_saved_iff found object whole rfl written

/-- A file with a font that is not ours and a given value for our own member. -/
def panelMembers (own : Json) : List (String × Json) :=
  [("console_font",.str "Monospace 10"),("console_rate_limit",own)]

def panelText (own : Json) : String := String.ofList (Json.obj (panelMembers own)).pretty

def panelFiles (own : Json) : FileTree :=
  FileTree.empty.put ["panel.json"] (.file (.text (panelText own)))

def panelArgs : List String := ["--settings=panel.json","--rate-limit-kb=40"]

def panelConfig : Config :=
  { Config.standard with rateLimitKb := some 40, settings := some "panel.json" }

theorem read_panelText {own : Json} (hf : own.isScalar=true) (hw : own.isWhole=true) :
    Json.read (panelText own).toList=.ok (.obj (panelMembers own)) := by
  rw [panelText,String.toList_ofList]
  refine Json.read_pretty (Json.fits_obj_iff.mpr ⟨_,rfl,?_⟩) (Json.isWhole_obj_iff.mpr ?_)
  · simp [panelMembers,Json.fits_of_isScalar hf,Json.fits]
  · simp [panelMembers,hw,Json.isWhole]

theorem saves_panel (own : Json) (session : Session) (settings : Settings) :
    Saves session settings (settingsPath panelConfig .empty) (panelFiles own) :=
  fun _ _ => rfl

theorem others_kept_in_panel :
    ∃ members',
      ReadsAs (run panelArgs .empty (panelFiles (.int 250)) [] ⟨.masked,⟨0,0⟩,0⟩).files
        (settingsPath panelConfig .empty) members' ∧
      SameOthers members' (panelMembers (.int 250)) := by
  have configured : configure panelArgs=.ok panelConfig := by decide +kernel
  obtain ⟨members',reads,same⟩ := others_kept_iff [] ⟨.masked,⟨0,0⟩,0⟩ configured
    (show (panelFiles (.int 250)).read (settingsPath panelConfig .empty)=_ by rfl)
    (read_panelText rfl rfl) rfl (saves_panel _ _ _)
  exact ⟨members',reads,same.mpr (.inr (.inl (by decide +kernel)))⟩

/-- A limit in words is none, and the font goes with it. -/
theorem others_lost_in_panel :
    Json.read (panelText (.str "fast")).toList=.ok (.obj (panelMembers (.str "fast"))) ∧
    ReadsAs (run panelArgs .empty (panelFiles (.str "fast")) [] ⟨.masked,⟨0,0⟩,0⟩).files
      (settingsPath panelConfig .empty) [(Settings.limitKey,.int 40)] ∧
    ¬SameOthers [(Settings.limitKey,.int 40)] (panelMembers (.str "fast")) := by
  refine ⟨read_panelText rfl rfl,⟨String.ofList (Settings.empty.setRateLimit ⟨40⟩).write,?_,?_⟩,?_⟩
  · decide +kernel
  · rw [String.toList_ofList]
    exact Settings.read_write Settings.othersReadable_empty
  · intro same
    have lost : Json.valueUnder "console_font" (panelMembers (.str "fast"))=none :=
      (same "console_font" (by decide)).symm.trans (by rfl)
    exact Json.valueUnder_eq_none_iff.mp lost _ (List.mem_cons_self ..) rfl

end FleetConsole.Program
