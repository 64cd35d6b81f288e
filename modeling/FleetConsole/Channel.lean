import FleetConsole.Fleet.Command
import FleetConsole.LineBuffer
import FleetConsole.RateWindow
import FleetConsole.Style.Basic
import FleetConsole.Text.Utf8
import FleetConsole.Time.Stamp

namespace FleetConsole

/-- The bytes are totals in 64 bits, taken below 2^64 throughout. The reports are counted in 32
bits, so that the count starts again at zero after 2^32 of them. -/
structure ChannelStats where
  acceptedBytes : Nat
  droppedBytes : Nat
  reportCount : UInt32
  deriving DecidableEq, Repr

def ChannelStats.dropReports (stats : ChannelStats) : Nat := stats.reportCount.toNat

/-- Everything kept for one live command. -/
structure Channel where
  id : CommandId
  exec : String
  buffer : LineBuffer Style
  window : RateWindow
  /-- Bytes dropped since the last report about this command, below 2^64 like the totals. -/
  unreported : Nat
  stats : ChannelStats
  deriving DecidableEq

namespace Channel

def new (id : CommandId) (exec : String) (quota : UInt64) (maxLines : Nat) : Channel :=
  ⟨id,exec,LineBuffer.new maxLines,RateWindow.new quota,0,⟨0,0,0⟩⟩

def append (c : Channel) (runs : List (Run Style)) : Channel := { c with buffer := (c.buffer.append runs).2 }

/-- Output that passed the limit. -/
def accept (c : Channel) (runs : List (Run Style)) (bytes : Nat) : Channel :=
  { c.append runs with
    window := c.window.record bytes
    stats := { c.stats with acceptedBytes := c.stats.acceptedBytes+bytes } }

def drop (c : Channel) (bytes : Nat) : Channel :=
  { c with
    unreported := c.unreported+bytes
    stats := { c.stats with droppedBytes := c.stats.droppedBytes+bytes } }

/-- Nothing is unreported afterwards. -/
def report (c : Channel) : Channel :=
  { c with unreported := 0, stats := { c.stats with reportCount := c.stats.reportCount+1 } }

def rotate (c : Channel) : Channel := { c with window := c.window.rotate }

def setQuota (c : Channel) (quota : UInt64) : Channel := { c with window := c.window.setQuota quota }

def setMaxLines (c : Channel) (maxLines : Nat) : Channel :=
  { c with buffer := (c.buffer.setMaxLines maxLines).2 }

def clear (c : Channel) : Channel := { c with buffer := c.buffer.clear }

/-- The notice in the command's own log stands on a line of its own, below the stamp. -/
def dropNotice (stamp : Stamp) (bytes : Nat) : List Char :=
  stamp.text++"\nSHERIFF RATE LIMIT: Ignored ".toList++Text.decimal bytes++
    " bytes of output\n".toList

end Channel

end FleetConsole
