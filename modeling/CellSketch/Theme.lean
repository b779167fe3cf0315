import CellSketch.Error

/-!
# Theme — the colours of a drawing

A drawing has a background, a foreground for lines and text, and a fill for closed shapes.  Themes
are named pairs of background and foreground, either of which may be replaced.
-/

namespace CellSketch

structure Colors where
  background : String
  foreground : String
  fill : String := "transparent"
  deriving DecidableEq, Repr

namespace Theme

def all : List (String × Colors) :=
  [("light", { background := "white", foreground := "black" }),
    ("dark", { background := "#18181B", foreground := "#FAFAFA" }),
    ("blueprint", { background := "#1d3b66", foreground := "#e6f0ff" }),
    ("solarized-light", { background := "#fdf6e3", foreground := "#657b83" }),
    ("solarized-dark", { background := "#002b36", foreground := "#839496" }),
    ("nord", { background := "#2e3440", foreground := "#d8dee9" })]

/-- The names of all themes in alphabetical order. -/
def names : List String := (all.map (·.1)).mergeSort fun a b => decide (a ≤ b)

end Theme

namespace Colors

/-- Black on white. -/
def default : Colors := { background := "white", foreground := "black" }

/-- A colour that takes the place of another one, unless it is missing or empty. -/
def replacing (color : Option String) (base : String) : String :=
  match color with
  | some c => if c.isEmpty then base else c
  | none => base

/-- The colours of a theme, black on white without one, with replacements. -/
def resolve (theme background foreground : Option String) : Except Error Colors := do
  let base ← match theme with
    | none => .ok Colors.default
    | some name =>
        match Theme.all.find? (·.1 == name) with
        | some (_, colors) => .ok colors
        | none => .error (.unknownTheme name Theme.names)
  .ok
    { base with
      background := replacing background base.background
      foreground := replacing foreground base.foreground }

end Colors

end CellSketch
