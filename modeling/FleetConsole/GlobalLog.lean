import FleetConsole.Fleet.Command
import FleetConsole.LineBuffer

namespace FleetConsole

/-- The log shared by all commands. While its newest line is open, `writer` is the command
that wrote it. -/
structure GlobalLog (σ : Type) where
  buffer : LineBuffer σ
  writer : Option CommandId
  deriving DecidableEq

namespace GlobalLog

variable {σ : Type}

def new (maxLines : Nat) : GlobalLog σ := ⟨LineBuffer.new maxLines,none⟩

/-- A command continues only a line of its own. -/
def appendOutput (g : GlobalLog σ) (source : CommandId) (runs : List (Run σ)) : GlobalLog σ :=
  let ended := if g.writer=some source then g.buffer else g.buffer.endOpenLine.2
  let buffer := (ended.append runs).2
  ⟨buffer,if buffer.hasOpenLine then some source else none⟩

/-- A line of the console itself continues no line and is continued by none. -/
def appendNotice (g : GlobalLog σ) (runs : List (Run σ)) : GlobalLog σ :=
  ⟨(g.buffer.endOpenLine.2.append runs).2,none⟩

def setMaxLines (g : GlobalLog σ) (maxLines : Nat) : GlobalLog σ :=
  { g with buffer := (g.buffer.setMaxLines maxLines).2 }

def clear (g : GlobalLog σ) : GlobalLog σ := ⟨g.buffer.clear,none⟩

end GlobalLog

end FleetConsole
