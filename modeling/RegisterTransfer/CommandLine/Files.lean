import RegisterTransfer.FinMap
import RegisterTransfer.Text.Utf8
set_option autoImplicit false

/-!
# Files

What commands need of files: to read one whole and to write one whole.  `Files m` gives both in a
monad `m`; a `Workspace` gives them as changes of a value.
-/

namespace RegisterTransfer

/-- What was done to a file when an error arose. -/
inductive FileAction
  | opening
  | reading
  | writing
  deriving DecidableEq, Repr, Inhabited

/-- Why a file could not be used. -/
inductive FileObstacle
  | missing
  | isDirectory
  | notDirectory
  | noSpace
  | other (text : String)
  deriving DecidableEq, Repr, Inhabited

/-- An error with a file. -/
structure FileError where
  action : FileAction
  path : String
  obstacle : FileObstacle
  deriving DecidableEq, Repr, Inhabited

/-- The action in a word. -/
def FileAction.text : FileAction → String
  | .opening => "open"
  | .reading => "read"
  | .writing => "write"

/-- The obstacle in words. -/
def FileObstacle.text : FileObstacle → String
  | .missing => "no such file or directory"
  | .isDirectory => "is a directory"
  | .notDirectory => "not a directory"
  | .noSpace => "no space left on device"
  | .other text => text

/-- The error in words. -/
def FileError.message (e : FileError) : String :=
  e.action.text ++ " " ++ e.path ++ ": " ++ e.obstacle.text

/-- Access to files. -/
structure Files (m : Type → Type) where
  read : String → m (Except FileError (List UInt8))
  write : String → List UInt8 → m (Except FileError Unit)

/-! ## Workspaces -/

/-- The files below a directory, by their paths. -/
structure Workspace where
  files : FinMap String (List UInt8)
  deriving DecidableEq

instance : Inhabited Workspace := ⟨⟨∅⟩⟩

/-- What a path leads to. -/
inductive Location
  | file (name : String)
  /-- There is no file, but one can be created. -/
  | vacant (name : String)
  | directory
  /-- A device that is empty and takes everything. -/
  | sink
  /-- A device that has no room. -/
  | full
  deriving DecidableEq, Repr, Inhabited

namespace Workspace

/-- The parts of a path that name something. -/
def parts (path : String) : List String := (path.splitOn "/").filter fun s => s ≠ "" ∧ s ≠ "."

/-- The path of some parts. -/
def joined (parts : List String) : String := "/".intercalate parts

/-- Whether the parts lead to a directory that holds a file. -/
def isDirectory (w : Workspace) (parts : List String) : Bool :=
  parts.isEmpty || w.files.keys.any fun name => (joined parts ++ "/").toList.isPrefixOf name.toList

/-- Whether some of the first parts, but not all of them, lead to a file. -/
def passesFile (w : Workspace) (parts : List String) : Bool :=
  (List.range parts.length).any fun n => w.files.contains (joined (parts.take n))

/-- What a path leads to.  Outside of the workspace there are only its parents and the two
devices. -/
def locate (w : Workspace) (path : String) : Except FileObstacle Location :=
  let ps := parts path
  let name := joined ps
  if path = "" then .error .missing
  else if path.toList.head? = some '/' then
    match ps with
    | [] => .ok .directory
    | ["dev", "null"] => .ok .sink
    | ["dev", "full"] => .ok .full
    | _ => .error .missing
  else if ps.all (· = "..") then .ok .directory
  else if w.files.contains name then
    if path.toList.getLast? = some '/' then .error .notDirectory else .ok (.file name)
  else if w.isDirectory ps then .ok .directory
  else if w.passesFile ps then .error .notDirectory
  else if w.isDirectory ps.dropLast then .ok (.vacant name)
  else .error .missing

/-- Reads a file of the workspace. -/
def read (w : Workspace) (path : String) : Except FileError (List UInt8) :=
  match w.locate path with
  | .error e => .error ⟨.opening, path, e⟩
  | .ok (.vacant _) => .error ⟨.opening, path, .missing⟩
  | .ok .directory => .error ⟨.reading, path, .isDirectory⟩
  | .ok (.file name) => .ok ((w.files.get? name).getD [])
  | .ok .sink | .ok .full => .ok []

/-- Writes a file of the workspace. -/
def write (w : Workspace) (path : String) (text : List UInt8) : Except FileError Workspace :=
  match w.locate path with
  | .error e => .error ⟨.opening, path, e⟩
  | .ok .directory => .error ⟨.opening, path, .isDirectory⟩
  | .ok (.file name) | .ok (.vacant name) => .ok ⟨w.files.insert name text⟩
  | .ok .sink => .ok w
  | .ok .full => .error ⟨.writing, path, .noSpace⟩

/-- Access to the files of a workspace. -/
def access : Files (StateM Workspace) where
  read path := return (← get).read path
  write path text := do
    match (← get).write path text with
    | .ok w => set w; return .ok ()
    | .error e => return .error e

end Workspace

end RegisterTransfer
