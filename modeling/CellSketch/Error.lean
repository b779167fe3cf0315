import CellSketch.Number.Scalar
import CellSketch.Text.Quoted
import CellSketch.Text.Utf8

/-!
# Error — everything that can go wrong, by its cause

Each constructor is one cause with the data its message shows; `Error.message` is the only place
where the wording is decided.
-/

namespace CellSketch

/-- Why the file system refuses. -/
inductive FileFault where
  | notFound
  | notADirectory
  | isADirectory
  | nameTooLong
  deriving DecidableEq, Repr

namespace FileFault

/-- The number by which systems know the fault. -/
def code : FileFault → Nat
  | .notFound => 2
  | .notADirectory => 20
  | .isADirectory => 21
  | .nameTooLong => 36

def text : FileFault → String
  | .notFound => "No such file or directory"
  | .notADirectory => "Not a directory"
  | .isADirectory => "Is a directory"
  | .nameTooLong => "File name too long"

end FileFault

/-- The cause of a failure. -/
inductive Error where
  /-- A number does not fit where it is needed. -/
  | number (fault : Number.Fault)
  | unknownTheme (name : String) (known : List String)
  | unknownKind (name : String) (known : List String)
  /-- A render option that does not exist. -/
  | unknownOption (name : String)
  /-- A scale given to a renderer. -/
  | invalidScale (spec : String)
  /-- A scale given on the command line. -/
  | wrongScale
  | wrongCellSize
  /-- A switch without a value where one is needed. -/
  | noValue (switch : String)
  /-- A number written with more digits than are read. -/
  | tooManyDigits (count : Nat)
  | flowLine (line : Nat) (token : List Char)
  | emptyFlow
  /-- A graph that cannot be drawn, and why. -/
  | layoutFailed (reason : String)
  | noRasterizer
  | rasterizer (status : Int) (stderr : List Char)
  | directoryInput
  | unreadableInput
  | outputIsDirectory
  | outputExists
  | undecodable (refusal : Text.Utf8.Refusal)
  | file (fault : FileFault) (path : String)
  | embeddedNull
  deriving DecidableEq, Repr

namespace Error

/-- Whether an error ends a run of the command line without a word to the user: a number is too
large, or a value is not there. -/
def isAbrupt : Error → Bool
  | .number .tooLarge | .number .infinite | .noValue _ => true
  | _ => false

/-- The digits that a number may be written with. -/
def digitLimit : Nat := 4300

def numberMessage : Number.Fault → String
  | .tooLarge => "int too large to convert to float"
  | .infinite => "cannot convert float infinity to integer"
  | .notANumber => "cannot convert float NaN to integer"
  | .endlessTurn => "math domain error"

def decodingMessage (r : Text.Utf8.Refusal) : String :=
  let place :=
    if r.length = 1 then
      "byte 0x" ++ String.ofList (Text.hexDigits 2 r.lead) ++ " in position " ++
        toString r.position
    else
      "bytes in position " ++ toString r.position ++ "-" ++ toString (r.position + r.length - 1)
  let reason := match r.reason with
    | .invalidStart => "invalid start byte"
    | .invalidContinuation => "invalid continuation byte"
    | .unexpectedEnd => "unexpected end of data"
  "'utf-8' codec can't decode " ++ place ++ ": " ++ reason

def message : Error → String
  | .number fault => numberMessage fault
  | .unknownTheme name known =>
      "Unknown theme \"" ++ name ++ "\" (available: " ++ ", ".intercalate known ++ ")"
  | .unknownKind name known =>
      "Unknown diagram type \"" ++ name ++ "\" (available: " ++ ", ".intercalate known ++ ")"
  | .unknownOption name => "unknown option " ++ name
  | .invalidScale spec => "Invalid scale \"" ++ spec ++ "\", expected WxH, Wx or xH"
  | .wrongScale => "wrong scaling parameter"
  | .wrongCellSize => "wrong cell-size parameter"
  | .noValue switch => "no value for --" ++ switch
  | .tooManyDigits count =>
      "Exceeds the limit (" ++ toString digitLimit ++
        " digits) for integer string conversion: value has " ++ toString count ++
        " digits; use sys.set_int_max_str_digits() to increase the limit"
  | .flowLine line token =>
      "Invalid flow syntax on line " ++ toString line ++ ": \"" ++ String.ofList token ++ "\""
  | .emptyFlow => "Empty flow diagram"
  | .layoutFailed reason => "Grandalf layout failed (flow diagram): " ++ reason
  | .noRasterizer => "imagemagick \"convert\" is not found in path"
  | .rasterizer status stderr =>
      "convert exited with status " ++ toString status ++
        (if stderr.isEmpty then "" else ": " ++ String.ofList stderr)
  | .directoryInput => "a directory input is only allowed for tree diagrams"
  | .unreadableInput => "input is not readable"
  | .outputIsDirectory => "only a filename is allowed as output"
  | .outputExists => "output already exists"
  | .undecodable refusal => decodingMessage refusal
  | .file fault path =>
      "[Errno " ++ toString fault.code ++ "] " ++ fault.text ++ ": " ++
        String.ofList (Text.quoted path.toList)
  | .embeddedNull => "embedded null byte"

end Error

end CellSketch
