import FleetConsole.Run
import FleetConsole.Text.Fields

namespace FleetConsole

/-- A line grows at its end, which is the head of its runs as they are kept. -/
structure Line (σ : Type) where
  seq : Nat
  lastFirst : List (Run σ)
  terminated : Bool
  deriving DecidableEq

namespace Line

variable {σ : Type}

def runs (line : Line σ) : List (Run σ) := line.lastFirst.reverse

def text (line : Line σ) : List Char := Run.plainText line.runs

def push (line : Line σ) (run : Run σ) : Line σ := { line with lastFirst := run :: line.lastFirst }

@[simp] theorem runs_push (line : Line σ) (run : Run σ) : (line.push run).runs=line.runs++[run] := by
  simp [runs,push]

end Line

/-- The newest lines of a log, kept newest first, so that writing and evicting both start at the
head. Lines are numbered from 1 without gaps, and their numbers are taken below 2^64. -/
structure LineBuffer (σ : Type) where
  newestFirst : List (Line σ)
  maxLines : Nat
  nextSeq : Nat
  deriving DecidableEq

namespace LineBuffer

variable {σ : Type}

def defaultMaxLines : Nat := 2000

def new (maxLines : Nat) : LineBuffer σ := ⟨[],max 1 maxLines,1⟩

def lines (b : LineBuffer σ) : List (Line σ) := b.newestFirst.reverse

def size (b : LineBuffer σ) : Nat := b.newestFirst.length

def isEmpty (b : LineBuffer σ) : Bool := b.newestFirst.isEmpty

def lastSeq (b : LineBuffer σ) : Nat := b.nextSeq-1

def hasOpenLine (b : LineBuffer σ) : Bool :=
  match b.newestFirst with
  | [] => false
  | line :: _ => !line.terminated

def lineText (line : Line σ) : List Char := if line.terminated then line.text++['\n'] else line.text

def text (b : LineBuffer σ) : List Char := b.lines.flatMap lineText

/-- Changes the open line, which is opened first if there is none. -/
def onOpenLine (b : LineBuffer σ) (change : Line σ → Line σ) : LineBuffer σ :=
  match b.newestFirst with
  | line :: older =>
    if line.terminated then
      { b with newestFirst := change ⟨b.nextSeq,[],false⟩ :: line :: older, nextSeq := b.nextSeq+1 }
    else { b with newestFirst := change line :: older }
  | [] => { b with newestFirst := [change ⟨b.nextSeq,[],false⟩], nextSeq := b.nextSeq+1 }

theorem onOpenLine_nil (maxLines nextSeq : Nat) (change : Line σ → Line σ) :
    onOpenLine ⟨[],maxLines,nextSeq⟩ change=⟨[change ⟨nextSeq,[],false⟩],maxLines,nextSeq+1⟩ := rfl

theorem onOpenLine_ended {line : Line σ} (h : line.terminated=true) (older : List (Line σ))
    (maxLines nextSeq : Nat) (change : Line σ → Line σ) :
    onOpenLine ⟨line :: older,maxLines,nextSeq⟩ change=
      ⟨change ⟨nextSeq,[],false⟩ :: line :: older,maxLines,nextSeq+1⟩ := by
  simp only [onOpenLine,h,if_true]

theorem onOpenLine_open {line : Line σ} (h : line.terminated=false) (older : List (Line σ))
    (maxLines nextSeq : Nat) (change : Line σ → Line σ) :
    onOpenLine ⟨line :: older,maxLines,nextSeq⟩ change=⟨change line :: older,maxLines,nextSeq⟩ := by
  simp only [onOpenLine,h,Bool.false_eq_true,if_false]

/-- Text without a newline continues the open line; the empty text opens none. -/
def put (b : LineBuffer σ) (style : σ) (content : List Char) : LineBuffer σ :=
  if content=[] then b
  else b.onOpenLine (fun line => line.push ⟨style,content⟩)

def newline (b : LineBuffer σ) : LineBuffer σ :=
  b.onOpenLine (fun line => { line with terminated := true })

def write (b : LineBuffer σ) (run : Run σ) : LineBuffer σ :=
  match Text.fields '\n' run.text with
  | [] => b
  | first :: later =>
    later.foldl (fun b content => b.newline.put run.style content) (b.put run.style first)

/-- Forgets the oldest lines beyond the limit and says how many those were. -/
def evict (b : LineBuffer σ) : Nat × LineBuffer σ :=
  (b.size-b.maxLines,{ b with newestFirst := b.newestFirst.take b.maxLines })

def append (b : LineBuffer σ) (runs : List (Run σ)) : Nat × LineBuffer σ := (runs.foldl write b).evict

def setMaxLines (b : LineBuffer σ) (maxLines : Nat) : Nat × LineBuffer σ :=
  { b with maxLines := max 1 maxLines }.evict

/-- Terminates the newest line; says whether it was open. -/
def endOpenLine (b : LineBuffer σ) : Bool × LineBuffer σ :=
  match b.newestFirst with
  | [] => (false,b)
  | line :: older =>
    (!line.terminated,{ b with newestFirst := { line with terminated := true } :: older })

/-- The numbers of forgotten lines are not given out again. -/
def clear (b : LineBuffer σ) : LineBuffer σ := { b with newestFirst := [] }

/-- What a reader who has seen everything up to a line number gets next. The gap is the
oldest line kept, given when lines before it are lost to that reader. -/
structure Since (σ : Type) where
  lines : List (Line σ)
  gap : Option Nat
  deriving DecidableEq

def linesSince (b : LineBuffer σ) (seen : Nat) : Since σ where
  lines := b.lines.filter (fun line => decide (seen<line.seq))
  gap := match b.lines.head? with
    | none => none
    | some oldest => if seen+1<oldest.seq then some oldest.seq else none

end LineBuffer

end FleetConsole
