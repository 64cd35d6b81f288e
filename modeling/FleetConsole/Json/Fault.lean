namespace FleetConsole.Json

/-- Why a text was not read. `ended` is a text that stops too early, `malformed` one that
is no JSON, and `mismatched` JSON of another shape than the reader wants. -/
inductive Fault where
  | ended
  | malformed
  | mismatched
  deriving DecidableEq, Repr

end FleetConsole.Json
