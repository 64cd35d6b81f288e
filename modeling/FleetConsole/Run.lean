namespace FleetConsole

/-- A stretch of text in one style. Nothing here depends on what a style is. -/
structure Run (σ : Type) where
  style : σ
  text : List Char
  deriving DecidableEq

def Run.plainText {σ : Type} (runs : List (Run σ)) : List Char := runs.flatMap Run.text

end FleetConsole
