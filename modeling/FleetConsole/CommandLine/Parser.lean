import FleetConsole.CommandLine.Config

namespace FleetConsole.CommandLine

inductive ArgFault where
  | unknownArgument
  | invalidValue
  | valueValidation
  | argumentConflict
  | tooManyValues
  | displayHelp
  deriving DecidableEq, Repr

/-- Options that take a value. -/
inductive Key where
  | rateLimitKb
  | maxLines
  | upkeepMs
  | reconcileMs
  | warnAfterMs
  | staleAfterMs
  | logLevel
  | settings
  deriving DecidableEq, Repr

/-- Options that take none. -/
inductive Switch where
  | jsonOutput
  | help
  deriving DecidableEq, Repr

def Key.all : List (String × Key) :=
  [("rate-limit-kb",.rateLimitKb),("max-lines",.maxLines),("upkeep-ms",.upkeepMs),
   ("reconcile-ms",.reconcileMs),("warn-after-ms",.warnAfterMs),("stale-after-ms",.staleAfterMs),
   ("log-level",.logLevel),("settings",.settings)]

def Switch.all : List (String × Switch) := [("json-output",.jsonOutput),("help",.help)]

/-- What an argument is by its look. -/
inductive Look where
  | long (name : String) (value : Option String)
  | short (letters : List Char)
  | separator
  | plain
  deriving DecidableEq, Repr

def look (arg : String) : Look :=
  match arg.toList with
  | ['-','-'] => .separator
  | '-' :: '-' :: body =>
    let name := String.ofList (body.takeWhile (fun c => c != '='))
    match body.dropWhile (fun c => c != '=') with
    | [] => .long name none
    | _ :: value => .long name (some (String.ofList value))
  | '-' :: letter :: letters => .short (letter :: letters)
  | _ => .plain

def uint64? (value : String) : Option UInt64 :=
  (Text.number? UInt64.size value.toList).map UInt64.ofNat

/-- The limit is read as a signed number first, so that it may be minus zero. -/
def limit? (value : String) : Option UInt32 :=
  match value.toList with
  | '-' :: zeros => if zeros≠[] ∧ zeros.all (fun c => c == '0') then some 0 else none
  | digits => (Text.number? UInt32.size digits).map UInt32.ofNat

def number (value : String) (store : UInt64 → Config) : Except ArgFault Config :=
  match uint64? value with
  | some n => .ok (store n)
  | none => .error .valueValidation

def store (c : Config) (value : String) : Key → Except ArgFault Config
  | .rateLimitKb =>
    match limit? value with
    | some kb => .ok { c with rateLimitKb := some kb }
    | none => .error .valueValidation
  | .maxLines => number value (fun n => { c with maxLines := n })
  | .upkeepMs => number value (fun n => { c with upkeepMillis := n })
  | .reconcileMs => number value (fun n => { c with reconcileMillis := n })
  | .warnAfterMs => number value (fun n => { c with warnAfterMillis := n })
  | .staleAfterMs => number value (fun n => { c with staleAfterMillis := n })
  | .logLevel => .ok { c with logLevel := value }
  | .settings => if value="" then .error .invalidValue else .ok { c with settings := some value }

/-- An option whose value does not stand in the same argument. -/
structure Pending where
  key : Key
  value : Option String
  deriving DecidableEq, Repr

/-- What has been read so far. The last option stays pending until another one comes: only then
it is settled, and its faults are found. -/
structure State where
  config : Config
  seen : List Key
  sawJsonOutput : Bool
  pending : Option Pending
  deriving DecidableEq, Repr

namespace State

def start : State := ⟨Config.standard,[],false,none⟩

/-- No option is given twice. -/
def assign (s : State) (key : Key) (value : String) : Except ArgFault State :=
  if s.seen.contains key then .error .argumentConflict
  else (store s.config value key).map (fun config => { s with config := config, seen := key :: s.seen })

def settle (s : State) : Except ArgFault State :=
  match s.pending with
  | none => .ok s
  | some ⟨_,none⟩ => .error .invalidValue
  | some ⟨key,some value⟩ => assign { s with pending := none } key value

/-- An argument that looks like no option is the value of the one before it, or else unknown. -/
def takePlain (s : State) (arg : String) : Except ArgFault State :=
  match s.pending with
  | some ⟨key,none⟩ => .ok { s with pending := some ⟨key,some arg⟩ }
  | _ => .error .unknownArgument

def turnOn (s : State) : Switch → Except ArgFault State
  | .help => .error .displayHelp
  | .jsonOutput =>
    if s.sawJsonOutput then .error .argumentConflict
    else .ok { s with config := { s.config with jsonOutput := true }, sawJsonOutput := true }

/-- An unknown name is refused at once, and so is a value where none belongs: the pending
option is not looked at any more. -/
def takeLong (s : State) (name : String) (value : Option String) : Except ArgFault State :=
  match Key.all.lookup name,Switch.all.lookup name,value with
  | some key,_,some value => s.settle.bind (fun s => s.assign key value)
  | some key,_,none => s.settle.map (fun s => { s with pending := some ⟨key,none⟩ })
  | none,some _,some _ => .error .tooManyValues
  | none,some switch,none => s.settle.bind (fun s => s.turnOn switch)
  | none,none,_ => .error .unknownArgument

/-- Help comes first or not at all: no other letter is known. -/
def takeShort (s : State) (letters : List Char) : Except ArgFault State :=
  if letters.head?=some 'h' then s.settle.bind (fun s => s.turnOn .help)
  else .error .unknownArgument

end State

/-- Arguments in reading order. Nothing may stand behind the separator. -/
def interpret (s : State) : List String → Except ArgFault State
  | [] => s.settle
  | arg :: rest =>
    match look arg with
    | .separator => if rest=[] then s.settle else .error .unknownArgument
    | .plain => (s.takePlain arg).bind (fun s => interpret s rest)
    | .long name value => (s.takeLong name value).bind (fun s => interpret s rest)
    | .short letters => (s.takeShort letters).bind (fun s => interpret s rest)

def parse (args : List String) : Except ArgFault Config :=
  (interpret State.start args).map State.config

end FleetConsole.CommandLine
