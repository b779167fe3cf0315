import CellSketch.Error
import CellSketch.FilePath
import CellSketch.Listing

/-!
# Files — a file system as a value

Names are followed step by step from the root or from the current directory, and two dots lead back
to the directory around.  A step fails on a name that is not there, on a file that is used as a
directory, and on a name that is longer than file systems take.
-/

namespace CellSketch

/-- What a directory holds: files, directories and devices in a row, each with its name.  There are
no symbolic links, so that different names lead to different files. -/
inductive Folder where
  | empty
  | file (name : List Char) (content : List UInt8) (rest : Folder)
  | folder (name : List Char) (inside rest : Folder)
  | device (name : List Char) (rest : Folder)
  deriving DecidableEq, Repr

/-- What a path leads to; a device is there, but holds nothing that could be read. -/
inductive Entry where
  | file (content : List UInt8)
  | folder (inside : Folder)
  | device
  deriving DecidableEq, Repr

namespace Folder

/-- The entry of a name. -/
def find? (name : List Char) : Folder → Option Entry
  | empty => none
  | file other content rest => if other = name then some (.file content) else rest.find? name
  | folder other inside rest => if other = name then some (.folder inside) else rest.find? name
  | device other rest => if other = name then some .device else rest.find? name

/-- The entry that names lead to, one after the other. -/
def entry? (f : Folder) : List (List Char) → Option Entry
  | [] => some (.folder f)
  | name :: rest =>
      match f.find? name, rest with
      | some (.file content), [] => some (.file content)
      | some (.folder inside), rest => inside.entry? rest
      | some .device, [] => some .device
      | _, _ => none

/-- All files with the names that lead to them. -/
def files : Folder → List (List (List Char) × List UInt8)
  | empty => []
  | file name content rest => ([name], content) :: rest.files
  | folder name inside rest =>
      inside.files.map (fun (names, content) => (name :: names, content)) ++ rest.files
  | device _ rest => rest.files

/-- The directories, without anything else. -/
def forest : Folder → Forest
  | empty => .nil
  | file _ _ rest => rest.forest
  | folder name inside rest => .cons name inside.forest rest.forest
  | device _ rest => rest.forest

/-- All that a listing looks at, with the names that lead to it: what the directory holds and what
the directories hold that are not hidden. -/
def reached : Folder → List (List (List Char))
  | empty => []
  | file name _ rest => [name] :: rest.reached
  | folder name inside rest =>
      [name] :: (if Forest.isHidden name then [] else inside.reached.map (name :: ·)) ++
        rest.reached
  | device name rest => [name] :: rest.reached

/-- Directories one inside the other. -/
def chain : List (List Char) → Folder
  | [] => empty
  | name :: rest => folder name (chain rest) empty

/-- Adds the directories that names lead through, where they are missing. -/
def addFolders (names : List (List Char)) : Folder → Folder
  | empty => chain names
  | file name content rest => file name content (rest.addFolders names)
  | folder name inside rest =>
      match names with
      | [] => folder name inside rest
      | first :: more =>
          if first = name then folder name (inside.addFolders more) rest
          else folder name inside (rest.addFolders names)
  | device name rest => device name (rest.addFolders names)

/-- Adds a device to the directory that the first names lead to. -/
def addDevice (names : List (List Char)) : Folder → Folder
  | empty =>
      match names with
      | [name] => device name empty
      | _ => empty
  | file name content rest => file name content (rest.addDevice names)
  | folder name inside rest =>
      match names with
      | first :: second :: more =>
          if first = name then folder name (inside.addDevice (second :: more)) rest
          else folder name inside (rest.addDevice names)
      | names => folder name inside (rest.addDevice names)
  | device name rest => device name (rest.addDevice names)

/-- Writes a file whose directory is there already; a file of the same name is replaced. -/
def write (names : List (List Char)) (content : List UInt8) : Folder → Folder
  | empty =>
      match names with
      | [name] => file name content empty
      | _ => empty
  | file name old rest =>
      if names = [name] then file name content rest
      else file name old (rest.write names content)
  | folder name inside rest =>
      match names with
      | first :: second :: more =>
          if first = name then folder name (inside.write (second :: more) content) rest
          else folder name inside (rest.write names content)
      | names => folder name inside (rest.write names content)
  | device name rest => device name (rest.write names content)

end Folder

/-- Everything there is, and the directory where relative paths start. -/
structure FileSystem where
  root : Folder
  /-- The names that lead from the root to the current directory. -/
  current : List (List Char) := []

namespace FileSystem

/-- The bytes that a name may have. -/
def nameLimit : Nat := 255

/-- The bytes that a path may have. -/
def pathLimit : Nat := 4095

def byteLength (cs : List Char) : Nat := (String.ofList cs).utf8ByteSize

/-- Follows names from a directory or file, itself given by the names from the root. -/
def follow (root : Folder) (here : List (List Char)) :
    List (List Char) → Except FileFault (List (List Char))
  | [] => .ok here
  | name :: rest =>
      match root.entry? here with
      | some (.folder inside) =>
          if name = ['.', '.'] then follow root here.dropLast rest
          else if nameLimit < byteLength name then .error .nameTooLong
          else if (inside.find? name).isSome then follow root (here ++ [name]) rest
          else .error .notFound
      | some _ => .error .notADirectory
      | none => .error .notFound

/-- The names that lead from the root to where the first names of a path lead. -/
def locate (fs : FileSystem) (p : FilePath) (names : List (List Char)) :
    Except FileFault (List (List Char)) :=
  if pathLimit < byteLength p.text then .error .nameTooLong
  else follow fs.root (if p.isAbsolute then [] else fs.current) names

/-- What a path leads to. -/
def entry (fs : FileSystem) (p : FilePath) : Except FileFault Entry := do
  let names ← fs.locate p p.parts
  match fs.root.entry? names with
  | some e => .ok e
  | none => .error .notFound

/-- Whether a path holds a character that no path can hold. -/
def isImpossible (p : FilePath) : Bool := p.parts.any (·.contains '\x00')

/-- What a path leads to, if to anything; only a name that is too long is a failure. -/
def entry? (fs : FileSystem) (p : FilePath) : Except Error (Option Entry) :=
  if isImpossible p then .ok none
  else
    match fs.entry p with
    | .ok e => .ok (some e)
    | .error .notFound | .error .notADirectory => .ok none
    | .error fault => .error (.file fault (String.ofList p.text))

def isFolder (fs : FileSystem) (p : FilePath) : Except Error Bool :=
  (fs.entry? p).map fun
    | some (.folder _) => true
    | _ => false

/-- The bytes of a file, if the path leads to one. -/
def file? (fs : FileSystem) (p : FilePath) : Except Error (Option (List UInt8)) :=
  (fs.entry? p).map fun
    | some (.file content) => some content
    | _ => none

def contains (fs : FileSystem) (p : FilePath) : Except Error Bool :=
  (fs.entry? p).map (·.isSome)

/-- What a directory holds, with the names that lead to it. -/
def folder (fs : FileSystem) (p : FilePath) : Except Error (List (List Char) × Folder) :=
  if isImpossible p then .error .embeddedNull
  else
    (do
      let names ← fs.locate p p.parts
      match fs.root.entry? names with
      | some (.folder inside) => .ok (names, inside)
      | some _ => .error .notADirectory
      | none => .error .notFound).mapError (.file · (String.ofList p.text))

/-- The file system with a file written in it. -/
def write (fs : FileSystem) (p : FilePath) (content : List UInt8) : Except Error FileSystem :=
  if isImpossible p then .error .embeddedNull
  else
    (do
      let names ← fs.locate p p.parts.dropLast
      match fs.root.entry? names, p.parts.getLast? with
      | some (.folder inside), some name =>
          if name = ['.', '.'] then .error .isADirectory
          else if nameLimit < byteLength name then .error .nameTooLong
          else
            match inside.find? name with
            | some (.folder _) => .error .isADirectory
            | some .device => .ok fs
            | _ => .ok { fs with root := fs.root.write (names ++ [name]) content }
      | some _, some _ => .error .notADirectory
      | none, _ => .error .notFound
      | some _, none => .error .isADirectory).mapError (.file · (String.ofList p.text))

/-- The order of a listing: by the directory, one around others before those, then by the name. -/
def listedBefore (a b : List (List Char)) : Bool :=
  a.dropLast < b.dropLast || (a.dropLast == b.dropLast && a < b)

/-- The first of the paths a listing looks at that is too long. -/
def tooLong? (p : FilePath) (inside : Folder) : Option FilePath :=
  let paths := inside.reached.filter fun names =>
    pathLimit < byteLength { p with parts := p.parts ++ names }.text
  let first := paths.foldl
    (fun (best : Option (List (List Char))) names =>
      match best with
      | some b => if listedBefore names b then some names else some b
      | none => some names)
    none
  first.map fun names => { p with parts := p.parts ++ names }

/-- The tree of a directory.  A path that ends without a name of its own has that of the directory
it leads to. -/
def directoryTree (fs : FileSystem) (p : FilePath) : Except Error DirectoryTree := do
  let (names, inside) ← fs.folder p
  match tooLong? p inside with
  | some path => .error (.file .nameTooLong (String.ofList path.text))
  | none =>
      let own := p.name
      .ok
        { name := if own.isEmpty || own = ['.', '.'] then names.getLast?.getD [] else own
          inside := inside.forest }

end FileSystem

end CellSketch
