import FleetConsole.Text.Blank
import FleetConsole.Text.Fields
import FleetConsole.Text.Numeral

namespace FleetConsole

inductive Color where
  | black | red | green | yellow | blue | magenta | cyan | white
  deriving DecidableEq, Repr

/-- Colors in the order of their code offsets. -/
def Color.all : List Color := [.black,.red,.green,.yellow,.blue,.magenta,.cyan,.white]

def Color.name : Color → String
  | .black => "black"
  | .red => "red"
  | .green => "green"
  | .yellow => "yellow"
  | .blue => "blue"
  | .magenta => "magenta"
  | .cyan => "cyan"
  | .white => "white"

inductive Attribute where
  | bold
  | light
  | underline
  | foreground (color : Color)
  | background (color : Color)
  deriving DecidableEq, Repr

def Attribute.ofNumber? (n : Nat) : Option Attribute :=
  if n=1 then some .bold
  else if n=2 then some .light
  else if n=4 then some .underline
  else if 30 ≤ n ∧ n<38 then Color.all[n-30]?.map .foreground
  else if 40 ≤ n ∧ n<48 then Color.all[n-40]?.map .background
  else none

/-- Codes are 32-bit numbers. -/
def codeBound : Nat := UInt32.size

/-- Blanks around a code do not matter here, although they do for the order of codes. -/
def Attribute.ofCode? (code : List Char) : Option Attribute :=
  (Text.number? codeBound (Text.trim code)).bind ofNumber?

structure Style where
  key : List Char
  attributes : List Attribute
  deriving DecidableEq

namespace Style

def codeSeparator : Char := ';'

def normalKey : List Char := ['0']

/-- The style that a key stands for; codes without a meaning stay in the key only. -/
def ofKey (key : List Char) : Style :=
  ⟨key,(Text.fields codeSeparator key).filterMap Attribute.ofCode?⟩

def normal : Style := ⟨normalKey,[]⟩

def isNormal (s : Style) : Bool := s.key==normalKey

theorem ofKey_normalKey : ofKey normalKey=normal := by decide

end Style

end FleetConsole
