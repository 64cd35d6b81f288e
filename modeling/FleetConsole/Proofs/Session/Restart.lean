import FleetConsole.Proofs.CommandLine.LeftOut
import FleetConsole.Proofs.Console.Step
import FleetConsole.Proofs.Session.ForeignKeys
import FleetConsole.Proofs.Settings.RoundTrip

namespace FleetConsole

/-- A limit is in force, and the quota is that limit's. -/
def RouterConfig.Limited (config : RouterConfig) (limit : RateLimit) : Prop :=
  config.rateLimit=some limit ∧ config.windowQuota=limit.windowQuota

theorem RouterConfig.limited_onConfig {config : RouterConfig} {limit : RateLimit}
    (h : config.Limited limit) {op : Router.Op} (hop : ∀ quota,op≠.setWindowQuota quota) :
    ∃ limit',(op.onConfig config).Limited limit' := by
  cases op with
  | setRateLimit limit' => exact ⟨limit',rfl,rfl⟩
  | setWindowQuota quota => exact absurd rfl (hop quota)
  | setMaxLines maxLines =>
    rw [Router.Op.onConfig]
    split
    · exact ⟨limit,h⟩
    · exact ⟨limit,h⟩
  | _ => exact ⟨limit,h⟩

/-- A quota in bytes cannot be asked for from outside. -/
theorem Console.Input.routerOp_ne_setWindowQuota {input : Console.Input} {op : Router.Op}
    (h : input.routerOp=some op) (quota : UInt64) : op≠.setWindowQuota quota := by
  rintro rfl
  cases input with
  | event stamp event =>
    cases event with
    | lifecycle event => cases event <;> cases h
    | _ => cases h
  | upkeep stamp => cases h
  | reconcile live now => cases h

theorem Console.limited_step {c : Console} {limit : RateLimit}
    (h : c.router.config.Limited limit) (input : Console.Input) :
    ∃ limit',(c.step input).console.router.config.Limited limit' := by
  rw [Console.router_step]
  cases ho : input.routerOp with
  | none => exact ⟨limit,h⟩
  | some op =>
    rw [Option.elim_some,Router.config_step]
    exact RouterConfig.limited_onConfig h (Console.Input.routerOp_ne_setWindowQuota ho)

namespace Session

/-- What holds at the start and survives every input holds when a session has ended. -/
theorem run_induction {motive : Session → Prop}
    (step : ∀ s r input,motive s → motive (s.step r input).session) {s : Session}
    (start : motive s) (inputs : List (Reading × Input)) : motive (s.run inputs).session := by
  induction inputs generalizing s with
  | nil => exact start
  | cons e rest ih =>
    obtain ⟨r,input⟩ := e
    have next := step s r input start
    rw [run]
    cases hp : s.step r input with
    | mk flow signals output s' =>
      rw [hp] at next
      cases flow with
      | stop => exact next
      | proceed => exact ih next

/-- The last upkeep is one like the others. -/
theorem session_finish (s : Session) (r : Reading) :
    (s.finish r).session=(s.step r .upkeep).session := rfl

/-- A session that was started with given settings: how it was started does not change, and
some limit is in force. -/
structure Started (config : Config) (saved : Option RateLimit) (s : Session) : Prop where
  given : s.config=config
  startedWith : s.startedWith=config.rateLimit saved
  limited : ∃ limit,s.console.router.config.Limited limit

variable {config : Config} {saved : Option RateLimit} {s : Session}

theorem started_start (config : Config) (saved : Option RateLimit) :
    (start config saved).Started config saved := ⟨rfl,rfl,config.rateLimit saved,rfl,rfl⟩

theorem started_of_console (h : s.Started config saved) (input : Console.Input) {s' : Session}
    (hc : s'.config=s.config) (hs : s'.startedWith=s.startedWith)
    (hn : s'.console=(s.console.step input).console) : s'.Started config saved where
  given := hc.trans h.given
  startedWith := hs.trans h.startedWith
  limited := by
    obtain ⟨limit,limited⟩ := h.limited
    rw [hn]
    exact Console.limited_step limited input

theorem started_step (h : s.Started config saved) (r : Reading) (input : Input) :
    (s.step r input).session.Started config saved := by
  cases input with
  | line text =>
    rw [step,readLine]
    split
    next event _ => exact started_of_console h (.event r.stamp event) rfl rfl rfl
    next => exact h
  | upkeep => exact started_of_console h (.upkeep r.stamp) rfl rfl rfl
  | reconcile =>
    exact started_of_console h (.reconcile (s.fleet.liveDeputies r.steady).1 r.now) rfl rfl rfl
  | print => exact ⟨h.given,h.startedWith,h.limited⟩

end Session

namespace Program

theorem started_lastSession (config : Config) (settings : Settings)
    (inputs : List (Reading × Session.Input)) (last : Reading) :
    (lastSession config settings inputs last).Started config settings.rateLimit := by
  rw [lastSession,Session.session_finish]
  apply Session.started_step
  exact Session.run_induction (motive := fun s => s.Started config settings.rateLimit)
    (fun _ r input h => Session.started_step h r input)
    (Session.started_start config settings.rateLimit) inputs

theorem settingsPath_withoutLimit (config : Config) (configDir : FilePath) :
    settingsPath config.withoutLimit configDir=settingsPath config configDir := rfl

/-- The operator chose a limit, before the run or in it. -/
def Chosen (config : Config) (startedWith limit : RateLimit) : Prop :=
  config.rateLimitKb.isSome=true ∨ limit≠startedWith

instance (config : Config) (startedWith limit : RateLimit) :
    Decidable (Chosen config startedWith limit) := inferInstanceAs (Decidable (_ ∨ _))

theorem settingsToSave_eq {config : Config} {saved : Option RateLimit} {s : Session}
    {limit : RateLimit} (h : s.Started config saved)
    (limited : s.console.router.config.rateLimit=some limit) (settings : Settings) :
    settingsToSave s settings=
      if Chosen config (config.rateLimit saved) limit then some (settings.setRateLimit limit)
      else none := by
  rw [settingsToSave,Session.limitToSave,h.given,h.startedWith,limited,Config.limitToSave,
    Option.filter_some]
  have same : (config.rateLimitKb.isSome || limit != config.rateLimit saved)=
      decide (Chosen config (config.rateLimit saved) limit) := by
    rw [Bool.eq_iff_iff,decide_eq_true_iff,Bool.or_eq_true,bne_iff_ne,Chosen]
  rw [same]
  by_cases chosen : Chosen config (config.rateLimit saved) limit
  · rw [if_pos chosen,decide_eq_true chosen]
    rfl
  · rw [if_neg chosen,decide_eq_false chosen]
    rfl

/-- The session that a configuration starts on given files. -/
def firstSession (config : Config) (configDir : FilePath) (files : FileTree) : Session :=
  Session.start config (Settings.ofReadOrEmpty (files.read (settingsPath config configDir))).rateLimit

/-- Without an option the limit is the one in the file. -/
theorem startedWith_withoutLimit {config : Config} {configDir : FilePath} {files : FileTree}
    {settings : Settings} {limit : RateLimit}
    (found : Settings.ofReadOrEmpty (files.read (settingsPath config configDir))=settings)
    (h : settings.rateLimit.getD RateLimit.defaultLimit=limit) :
    (firstSession config.withoutLimit configDir files).startedWith=limit := by
  rw [firstSession,settingsPath_withoutLimit,found]
  exact h

theorem startedWith_of_not_chosen {config : Config} {configDir : FilePath} {files : FileTree}
    {limit : RateLimit}
    (h : ¬Chosen config (firstSession config configDir files).startedWith limit) :
    (firstSession config.withoutLimit configDir files).startedWith=limit := by
  obtain ⟨unset,same⟩ := not_or.mp h
  have none : config.rateLimitKb=none := Option.not_isSome_iff_eq_none.mp unset
  have bare : config.withoutLimit=config := by rw [Config.withoutLimit,← none]
  rw [bare]
  exact (not_not.mp same).symm

/-- When a run has ended a limit is in force, and the same command line without an option for the
limit starts with it. It is written if the operator chose one, and else the files are left. -/
theorem limit_survives_restart {args : List String} {config : Config}
    (configured : configure args=.ok config) (configDir : FilePath) (files : FileTree)
    (inputs : List (Reading × Session.Input)) (last : Reading)
    (written : let settings := Settings.ofReadOrEmpty (files.read (settingsPath config configDir))
      Saves (lastSession config settings inputs last) settings (settingsPath config configDir)
        files) :
    let settings := Settings.ofReadOrEmpty (files.read (settingsPath config configDir))
    let startedWith := (firstSession config configDir files).startedWith
    let ended := lastSession config settings inputs last
    let left := (run args configDir files inputs last).files
    ∃ limit,ended.console.router.config.rateLimit=some limit ∧
      ended.console.router.config.windowQuota=limit.windowQuota ∧
      (configure (CommandLine.withoutLimit args)=.ok config.withoutLimit ∧
        let again := firstSession config.withoutLimit configDir left
        again.startedWith=limit ∧
          again.console.router.config=.ofLimit limit config.maxLines.toNat) ∧
      (settingsToSave ended settings).isSome=decide (Chosen config startedWith limit) ∧
      left=if Chosen config startedWith limit then
          ((settings.setRateLimit limit).save files (settingsPath config configDir)).2
        else files := by
  intro settings startedWith ended left
  have started : ended.Started config settings.rateLimit :=
    started_lastSession config settings inputs last
  obtain ⟨limit,inForce,quota⟩ := started.limited
  have saves := settingsToSave_eq started inForce settings
  have leaves : left=saveSettings ended settings (settingsPath config configDir) files :=
    files_run configured configDir files inputs last
  have restarts (h : (firstSession config.withoutLimit configDir left).startedWith=limit) :
      (firstSession config.withoutLimit configDir left).console.router.config=
        .ofLimit limit config.maxLines.toNat := by
    rw [← h]
    rfl
  rw [saveSettings] at leaves
  refine ⟨limit,inForce,quota,?_⟩
  by_cases chosen : Chosen config startedWith limit
  · have saved : settingsToSave ended settings=some (settings.setRateLimit limit) :=
      saves.trans (if_pos chosen)
    rw [saved] at leaves
    have found : (Settings.ofReadOrEmpty (left.read (settingsPath config configDir))).rateLimit=
        some limit := by
      rw [leaves]
      exact Settings.rateLimit_of_save (Settings.proper_ofReadOrEmpty _) (written _ saved)
    have again : (firstSession config.withoutLimit configDir left).startedWith=limit :=
      startedWith_withoutLimit rfl (by rw [found,Option.getD_some])
    refine ⟨⟨configure_withoutLimit configured,again,restarts again⟩,?_,?_⟩
    · rw [saved,decide_eq_true chosen]
      rfl
    · rw [leaves,if_pos chosen]
  · have unsaved : settingsToSave ended settings=none := saves.trans (if_neg chosen)
    rw [unsaved] at leaves
    have again : (firstSession config.withoutLimit configDir left).startedWith=limit := by
      rw [leaves]
      exact startedWith_of_not_chosen chosen
    refine ⟨⟨configure_withoutLimit configured,again,restarts again⟩,?_,?_⟩
    · rw [unsaved,decide_eq_false chosen]
      rfl
    · rw [leaves,if_neg chosen]

/-- The limit of the command line is put to zero while the console is running. -/
def panelInputs : List (Reading × Session.Input) :=
  [(⟨.masked,⟨0,0⟩,0⟩,.upkeep),
   (⟨.masked,⟨1,0⟩,0⟩,.line "\x7b\"type\":\"set_rate_limit\",\"kb_per_sec\":0\x7d".toList)]

theorem limit_survives_restart_of_panel :
    configure panelArgs=.ok panelConfig ∧
    CommandLine.withoutLimit panelArgs=["--settings=panel.json"] ∧
    (firstSession panelConfig.withoutLimit .empty
      (run panelArgs .empty (panelFiles (.int 250)) panelInputs ⟨.masked,⟨2,0⟩,0⟩).files).startedWith=
      ⟨0⟩ := by
  have configured : configure panelArgs=.ok panelConfig := by decide +kernel
  have left : CommandLine.withoutLimit panelArgs=["--settings=panel.json"] := by decide +kernel
  obtain ⟨limit,inForce,_,⟨_,again,_⟩,_⟩ := limit_survives_restart configured .empty
    (panelFiles (.int 250)) panelInputs ⟨.masked,⟨2,0⟩,0⟩ (saves_panel _ _ _)
  have zero : (lastSession panelConfig (Settings.ofReadOrEmpty ((panelFiles (.int 250)).read
      (settingsPath panelConfig .empty))) panelInputs ⟨.masked,⟨2,0⟩,0⟩).console.router.config.rateLimit=
      some ⟨0⟩ := by decide +kernel
  cases zero.symm.trans inForce
  exact ⟨configured,left,again⟩

end Program

end FleetConsole
