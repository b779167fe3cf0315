import CellSketch.Text.Quoted

/-!
# Notice — what the library reports while it works

Notices are values, collected in order beside the results; whoever runs the library decides which
of them to show, by their level.
-/

namespace CellSketch

/-- How much a notice matters. -/
inductive Level where
  | debug
  | info
  | warning
  | error
  deriving DecidableEq, Repr

namespace Level

def rank : Level → Nat
  | .debug => 0
  | .info => 1
  | .warning => 2
  | .error => 3

def name : Level → String
  | .debug => "DEBUG"
  | .info => "INFO"
  | .warning => "WARNING"
  | .error => "ERROR"

def all : List Level := [.debug, .info, .warning, .error]

def ofName? (s : String) : Option Level := all.find? (·.name == s)

end Level

/-- Something worth reporting. -/
inductive Notice where
  /-- The renderer, by its name, that was chosen for a format. -/
  | rendererChosen (renderer format : String)
  | scanned (rows marks texts lines : Nat)
  | treeBuilt (directories : Nat) (root : String)
  | flowPlaced (nodes components : Nat) (width height : Int)
  /-- A line of a flow text joins a node to itself. -/
  | selfLoop (line : Nat) (id : List Char)
  | noFreeRoute (source target : List Char)
  | noRasterizer
  /-- The first words of a command and its last one. -/
  | running (start : List String) (last : String)
  | rendering (kind output format : String)
  | written (characters : Nat) (name : String)
  deriving DecidableEq, Repr

namespace Notice

def level : Notice → Level
  | .selfLoop .. | .noFreeRoute .. | .noRasterizer => .warning
  | .rendering .. => .info
  | _ => .debug

private def quoted (cs : List Char) : String := String.ofList (Text.quoted cs)

def message : Notice → String
  | .rendererChosen renderer format =>
      "Using " ++ renderer ++ " for format " ++ quoted format.toList
  | .scanned rows marks texts lines =>
      "Scanned " ++ toString rows ++ " rows: " ++ toString marks ++ " marks, " ++
        toString texts ++ " text runs, " ++ toString lines ++ " lines"
  | .treeBuilt directories root =>
      "Built tree of " ++ toString directories ++ " directories below " ++ root
  | .flowPlaced nodes components width height =>
      "Laid out " ++ toString nodes ++ " nodes in " ++ toString components ++
        " components (" ++ toString width ++ "x" ++ toString height ++ " cells)"
  | .selfLoop line id =>
      "Line " ++ toString line ++ ": skipping self-loop on " ++ quoted id
  | .noFreeRoute source target =>
      "No free route from " ++ quoted source ++ " to " ++ quoted target ++
        ", drawing it across the layout"
  | .noRasterizer => "ImageMagick convert not found in PATH"
  | .running start last => "Running " ++ " ".intercalate (start ++ ["...", last])
  | .rendering kind output format =>
      "Rendering " ++ kind ++ " diagram to " ++ output ++ " (" ++ format ++ ")"
  | .written characters name =>
      "Wrote " ++ toString characters ++ " characters to " ++ name

end Notice

end CellSketch
