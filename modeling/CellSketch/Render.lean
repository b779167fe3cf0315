import CellSketch.Drawing
import CellSketch.Files

/-!
# Render — documents from texts and directories

A text is drawn and written out in one go.  For a tree, a text of one line that names a directory
stands for the listing of that directory.
-/

namespace CellSketch

open Number

namespace FileSystem

/-- The listing of a directory. -/
def listing (fs : FileSystem) (p : FilePath) : Report (List Char) := do
  let tree ← fs.directoryTree p
  Report.tell [.treeBuilt tree.count (String.ofList p.text)]
  return tree.text

/-- The tree text that a text stands for. -/
def treeText (fs : FileSystem) (text : List Char) : Report (List Char) :=
  if text.contains '\n' || (Text.strip text).isEmpty then pure text
  else do
    let path := FilePath.ofText text
    if ← fs.isFolder path then fs.listing path else pure text

/-- What is drawn for a text of a kind. -/
def sourceText (fs : FileSystem) (kind : Kind) (text : List Char) : Report (List Char) :=
  match kind with
  | .tree => fs.treeText text
  | _ => pure text

end FileSystem

section Documents

variable {α : Type} [Scalar α]

/-- The document of a text that becomes known once the sketch is set up. -/
def renderSource (engine : Flow.Engine α) (kind : Kind) (source : Report (List Char))
    (options : Options) : Report Document := do
  let sketch ← Sketch.ofOptions options
  let text ← source
  let drawn ← sketch.drawText engine kind text options.round
  .ofResult drawn.document

/-- The document of a text. -/
def render (engine : Flow.Engine α) (fs : FileSystem) (kind : Kind) (text : List Char)
    (options : Options) : Report Document :=
  renderSource engine kind (fs.sourceText kind text) options

/-- The document of a directory. -/
def renderDirectory (engine : Flow.Engine α) (fs : FileSystem) (p : FilePath)
    (options : Options) : Report Document :=
  renderSource engine .tree (fs.listing p) options

end Documents

end CellSketch
