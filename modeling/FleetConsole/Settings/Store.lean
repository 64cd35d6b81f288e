import FleetConsole.Error
import FleetConsole.FileTree
import FleetConsole.Settings.Basic

namespace FleetConsole.Settings

/-- Where settings are kept below the directory for configurations. -/
def defaultNames : List String := ["sheriff-console","settings.json"]

/-- There need not be a settings file. -/
def ofRead : FileRead → Except ConsoleError Settings
  | .missing => .ok empty
  | .unreadable => .error .settingsIo
  | .content (.binary _) => .error .settingsIo
  | .content (.text s) =>
    match read s.toList with
    | .ok settings => .ok settings
    | .error fault => .error (.settingsJson fault)

def load (t : FileTree) (path : FilePath) : Except ConsoleError Settings := ofRead (t.read path)

/-- Settings that cannot be used do not keep a console from starting. -/
def ofReadOrEmpty (r : FileRead) : Settings :=
  match ofRead r with
  | .ok settings => settings
  | .error _ => empty

def temporary (path : FilePath) : FilePath := path.withExtension "json.tmp"

/-- The file appears under its name only when it is complete. -/
def changes (s : Settings) (path : FilePath) : List FileTree.Change :=
  [.makeDirectories path.parent,
   .write (temporary path) (.text (String.ofList s.write)),
   .rename (temporary path) path]

def save (s : Settings) (t : FileTree) (path : FilePath) : Except ConsoleError Unit × FileTree :=
  let (done,t') := t.applyAll (s.changes path)
  (if done then .ok () else .error .settingsIo,t')

end FleetConsole.Settings
