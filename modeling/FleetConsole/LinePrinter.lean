import FleetConsole.LineBuffer

namespace FleetConsole.LinePrinter

/-- One tick of a printer that has printed all up to a line number. It prints the complete
lines in front and moves on to the last of them. -/
def tick {σ : Type} (printed : Nat) (b : LineBuffer σ) : List (Line σ) × Nat :=
  let ready := (b.linesSince printed).lines.takeWhile Line.terminated
  (ready,(ready.getLast?.map Line.seq).getD printed)

/-- At the end the open line is printed too. -/
def flush {σ : Type} (printed : Nat) (b : LineBuffer σ) : List (Line σ) := (b.linesSince printed).lines

end FleetConsole.LinePrinter
