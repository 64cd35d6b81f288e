import FleetConsole.Session.Program
import FleetConsole.Time.Timestamp
import Std.Time.DateTime.Timestamp
import Std.Time.Zoned.Database

namespace FleetConsole.Main

/-- What the threads of a running console share. -/
structure Shared where
  session : IO.Ref Session
  running : IO.Ref Bool
  zone : Option Std.Time.TimeZone.ZoneRules
  emitter : Emitter

def readClock (zone : Option Std.Time.TimeZone.ZoneRules) : IO Reading := do
  let t ← Std.Time.Timestamp.now
  let nanos : Int := t.toNanosecondsSinceUnixEpoch.val
  let now : Instant := ⟨nanos/nanosPerSecond,(nanos%nanosPerSecond).toNat⟩
  let offset := match zone with
    | some rules => (rules.timezoneAt t).offset.second.val
    | none => 0
  let steady ← IO.monoNanosNow
  return ⟨.at (TimeOfDay.ofSeconds (now.seconds+offset)),now,steady⟩

/-- Passes on what came of an input. The clock is read for each signal. -/
def report (shared : Shared) (p : Session.Progress) : IO Unit := do
  let stderr ← IO.getStderr
  let stdout ← IO.getStdout
  for signal in p.signals do
    let r ← readClock shared.zone
    for line in shared.emitter.emit (String.ofList (Timestamp.writeWithOffset r.now)) [signal] do
      stderr.putStr (String.ofList line)
  for line in p.output do
    stdout.putStrLn (String.ofList line)
  stderr.flush
  stdout.flush

def handle (shared : Shared) (input : Session.Input) : IO Flow := do
  let r ← readClock shared.zone
  let p ← shared.session.modifyGet (fun s =>
    let p := s.step r input
    (p,p.session))
  report shared p
  return p.flow

/-- Lets a period pass, or less if the console stops. -/
def pause (shared : Shared) (millis : Nat) : IO Unit := do
  let deadline := (← IO.monoMsNow)+millis
  repeat
    let now ← IO.monoMsNow
    if deadline ≤ now || !(← shared.running.get) then break
    IO.sleep (UInt32.ofNat (min 20 (deadline-now)))

/-- Gives the same input over and over, the first time at once. -/
def tick (shared : Shared) (millis : UInt64) (input : Session.Input) : IO Unit := do
  repeat
    if !(← shared.running.get) then break
    discard (handle shared input)
    pause shared millis.toNat

/-- Feeds lines up to a shutdown or the end of the input. -/
def readLines (shared : Shared) : IO Unit := do
  let stdin ← IO.getStdin
  repeat
    let line ← stdin.getLine
    if line.isEmpty then break
    if (← handle shared (.line line.toList))=.stop then break

def readFile (path : FilePath) : IO FileRead := do
  try
    let bytes ← IO.FS.readBinFile path.toString
    match String.fromUTF8? bytes with
    | some s => return .content (.text s)
    | none => return .content (.binary bytes.toList)
  catch
    | .noFileOrDirectory .. => return .missing
    | _ => return .unreadable

def makeChange : FileTree.Change → IO Unit
  | .makeDirectories path => if path.isEmpty then pure () else IO.FS.createDirAll path.toString
  | .write path (.text s) => IO.FS.writeFile path.toString s
  | .write path (.binary bytes) => IO.FS.writeBinFile path.toString ⟨bytes.toArray⟩
  | .rename source target => IO.FS.rename source.toString target.toString

def configDir : IO FilePath := do
  match ← IO.getEnv "XDG_CONFIG_HOME" with
  | some dir => if dir.startsWith "/" then return FilePath.ofString dir
  | none => pure ()
  let home := (← IO.getEnv "HOME").getD ""
  return (FilePath.ofString home).append [".config"]

def describe : Refusal → String
  | .arguments _ => "error: the command line was not understood"
  | .configuration error => "Error: invalid command line: "++error.message

def run (config : Config) : IO Unit := do
  let path := Program.settingsPath config (← configDir)
  let settings := Settings.ofReadOrEmpty (← readFile path)
  let zone ← try pure (some (← Std.Time.Database.defaultGetLocalZoneRules)) catch _ => pure none
  let session ← IO.mkRef (Session.start config settings.rateLimit)
  let running ← IO.mkRef true
  let shared : Shared := ⟨session,running,zone,⟨config.jsonOutput⟩⟩
  let tasks ← [(config.upkeepMillis,Session.Input.upkeep),(config.reconcileMillis,.reconcile),
    (config.upkeepMillis,.print)].mapM (fun (period,input) =>
      IO.asTask (tick shared period input) Task.Priority.dedicated)
  readLines shared
  running.set false
  for task in tasks do
    discard (IO.wait task)
  let r ← readClock zone
  let p := (← session.get).finish r
  report shared p
  match Program.settingsToSave p.session settings with
  | none => pure ()
  | some settings =>
    try (settings.changes path).forM makeChange catch _ => pure ()

end FleetConsole.Main

def main (args : List String) : IO UInt32 := do
  match FleetConsole.Program.configure args with
  | .error refusal =>
    (← IO.getStderr).putStrLn (FleetConsole.Main.describe refusal)
    return UInt32.ofNat refusal.exitCode
  | .ok config =>
    FleetConsole.Main.run config
    return 0
