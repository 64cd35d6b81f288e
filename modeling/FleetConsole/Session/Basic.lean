import FleetConsole.CommandLine.Config
import FleetConsole.Console.Run
import FleetConsole.Event.Reader
import FleetConsole.Fleet.Observed
import FleetConsole.LinePrinter

namespace FleetConsole

/-- The clocks at one moment: the stamp for lines, the time, and a steady clock in
nanoseconds. -/
structure Reading where
  stamp : Stamp
  now : Instant
  steady : Nat
  deriving DecidableEq, Repr

/-- A console at work: it reads events, watches the fleet by them and prints the global log. -/
structure Session where
  config : Config
  startedWith : RateLimit
  console : Console
  fleet : ObservedFleet
  printed : Nat
  deriving DecidableEq

namespace Session

inductive Input where
  | line (text : List Char)
  | upkeep
  | reconcile
  | print
  deriving DecidableEq, Repr

/-- What an input led to: signals, lines for the output, and whether to go on. -/
structure Progress where
  flow : Flow
  signals : List Signal
  output : List (List Char)
  session : Session
  deriving DecidableEq

def start (config : Config) (saved : Option RateLimit) : Session where
  config := config
  startedWith := config.rateLimit saved
  console := Console.new (config.routerConfig saved) config.thresholds
  fleet := ObservedFleet.new config.thresholds
  printed := 0

def quietly (s : Session) : Progress := ⟨.proceed,[],[],s⟩

/-- The fleet sees an event before the console does. -/
def take (s : Session) (r : Reading) (event : Event) : Progress :=
  let fleet := s.fleet.observe r.steady event
  let d := s.console.step (.event r.stamp event)
  ⟨d.flow,d.signals,[],{ s with fleet := fleet, console := d.console }⟩

/-- Blank lines and lines that are no event are passed over. -/
def readLine (s : Session) (r : Reading) (text : List Char) : Progress :=
  match Event.read (Text.trim text) with
  | .ok event => s.take r event
  | .error _ => s.quietly

def step (s : Session) (r : Reading) : Input → Progress
  | .line text => s.readLine r text
  | .upkeep =>
    let d := s.console.step (.upkeep r.stamp)
    ⟨d.flow,d.signals,[],{ s with console := d.console }⟩
  | .reconcile =>
    let (live,fleet) := s.fleet.liveDeputies r.steady
    let d := s.console.step (.reconcile live r.now)
    ⟨d.flow,d.signals,[],{ s with fleet := fleet, console := d.console }⟩
  | .print =>
    let (lines,printed) := LinePrinter.tick s.printed s.console.router.global.buffer
    ⟨.proceed,[],lines.map Line.text,{ s with printed := printed }⟩

/-- Takes inputs up to the first shutdown. -/
def run (s : Session) : List (Reading × Input) → Progress
  | [] => s.quietly
  | (r,input) :: rest =>
    match s.step r input with
    | ⟨.stop,signals,output,s'⟩ => ⟨.stop,signals,output,s'⟩
    | ⟨.proceed,signals,output,s'⟩ =>
      let last := s'.run rest
      { last with signals := signals++last.signals, output := output++last.output }

/-- After the last input: one more upkeep, and then all that is left is printed. -/
def finish (s : Session) (r : Reading) : Progress :=
  let d := s.console.step (.upkeep r.stamp)
  let lines := LinePrinter.flush s.printed d.console.router.global.buffer
  ⟨.stop,d.signals,lines.map Line.text,{ s with console := d.console }⟩

/-- The limit to save when all is done. -/
def limitToSave (s : Session) : Option RateLimit :=
  s.config.limitToSave s.startedWith s.console.router.config.rateLimit

end Session

end FleetConsole
