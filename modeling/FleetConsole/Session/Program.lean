import FleetConsole.CommandLine.Parser
import FleetConsole.Session.Basic
import FleetConsole.Settings.Store

namespace FleetConsole

/-- Why a console does not start. -/
inductive Refusal where
  | arguments (fault : CommandLine.ArgFault)
  | configuration (error : ConsoleError)
  deriving DecidableEq, Repr

/-- Asking for help is no failure. -/
def Refusal.exitCode : Refusal → Nat
  | .arguments .displayHelp => 0
  | .arguments _ => 2
  | .configuration _ => 1

namespace Program

def configure (args : List String) : Except Refusal Config :=
  match CommandLine.parse args with
  | .error fault => .error (.arguments fault)
  | .ok config =>
    match config.validate with
    | .error error => .error (.configuration error)
    | .ok _ => .ok config

def settingsPath (config : Config) (configDir : FilePath) : FilePath :=
  match config.settings with
  | some path => FilePath.ofString path
  | none => configDir.append Settings.defaultNames

/-- The settings to leave behind, when there are any. -/
def settingsToSave (s : Session) (settings : Settings) : Option Settings :=
  s.limitToSave.map settings.setRateLimit

structure Outcome where
  exitCode : Nat
  signals : List Signal
  output : List (List Char)
  files : FileTree

/-- Settings that cannot be saved are given up. -/
def saveSettings (s : Session) (settings : Settings) (path : FilePath) (files : FileTree) : FileTree :=
  match settingsToSave s settings with
  | some settings => (settings.save files path).2
  | none => files

/-- A whole run on given inputs. -/
def run (args : List String) (configDir : FilePath) (files : FileTree)
    (inputs : List (Reading × Session.Input)) (last : Reading) : Outcome :=
  match configure args with
  | .error refusal => ⟨refusal.exitCode,[],[],files⟩
  | .ok config =>
    let path := settingsPath config configDir
    let settings := Settings.ofReadOrEmpty (files.read path)
    let p := (Session.start config settings.rateLimit).run inputs
    let q := p.session.finish last
    ⟨0,p.signals++q.signals,p.output++q.output,saveSettings q.session settings path files⟩

end Program

end FleetConsole
