/-
# UiFormat.Cli.Workspace -- a host in memory

A workspace holds files by their names, relative to the directory a run is made
in, and collects what the run prints.  Directories are those that the names pass
through.  Nothing outside the directory is known.

A path is followed name by name: empty names and `.` stay, `..` goes up, a file
can only stand at the end.  Names of more than 255 bytes and paths of more than
4095 are too long for any file.
-/
import UiFormat.Cli.Run

namespace UiFormat.Cli

open UiFormat.Text

set_option autoImplicit false

namespace FileFailure

/-- There is nothing at the path. -/
def missing : FileFailure :=
  { code := 2, description := "No such file or directory".toList }

/-- The path leads through a file. -/
def notADirectory : FileFailure :=
  { code := 20, description := "Not a directory".toList }

/-- The path is that of a directory. -/
def isADirectory : FileFailure :=
  { code := 21, description := "Is a directory".toList }

/-- A name in the path, or the path itself, is too long. -/
def tooLong : FileFailure :=
  { code := 36, description := "File name too long".toList }

end FileFailure

/-- Files in memory, the standard input that is left, and what was printed. -/
structure Workspace where
  files : List (Text × Text)
  input : Text := []
  printed : Text := []
  reported : Text := []
  deriving DecidableEq, Repr

/-- The number of bytes a text takes in a path. -/
def byteLength (text : Text) : Nat :=
  (String.ofList text).utf8ByteSize

/-- The names a path consists of. -/
def pathNames (path : Text) : List Text :=
  (pieces '/' path).filter fun name => !(name.isEmpty || name == ['.'])

namespace Workspace

/-- The file with exactly these names. -/
def fileAt? (w : Workspace) (names : List Text) : Option (Text × Text) :=
  w.files.find? fun (path, _) => pathNames path == names

/-- Some file lies below these names. -/
def hasDirectory (w : Workspace) (names : List Text) : Bool :=
  w.files.any fun (path, _) => names.isPrefixOf (pathNames path)

/-- Follows names from a directory, `none` being a place outside. -/
def follow (w : Workspace) (directory : Option (List Text)) :
    List Text → Except FileFailure (Text × Text)
  | [] => .error .isADirectory
  | name :: rest =>
      if name.isEmpty || name = ['.'] then w.follow directory rest
      else if name = ['.', '.'] then
        match directory with
        | some (first :: more) => w.follow (some (first :: more).dropLast) rest
        | _ => w.follow none rest
      else if 255 < byteLength name then .error .tooLong
      else
        match directory with
        | none => .error .missing
        | some above =>
            let here := above ++ [name]
            match w.fileAt? here with
            | some file => if rest.isEmpty then .ok file else .error .notADirectory
            | none =>
                if w.hasDirectory here then w.follow (some here) rest else .error .missing

/-- The file at a path: its name in the workspace and its text. -/
def find (w : Workspace) (path : Text) : Except FileFailure (Text × Text) :=
  if path.isEmpty then .error .missing
  else if 4095 < byteLength path then .error .tooLong
  else w.follow (if startsWith path ['/'] then none else some []) (pieces '/' path)

/-- The workspace with another text in the file called `name`. -/
def put (w : Workspace) (name text : Text) : Workspace :=
  { w with files := w.files.map fun (other, old) => (other, if other = name then text else old) }

/-- Writes to the file at a path. -/
def write (path text : Text) : StateM Workspace (Except FileFailure Unit) := do
  match (← get).find path with
  | .error failure => return .error failure
  | .ok (name, _) =>
      modify (·.put name text)
      return .ok ()

/-- The workspace as a host.  The standard input can be read once. -/
def host : Host (StateM Workspace) where
  readInput := modifyGet fun w => (w.input, { w with input := [] })
  readFile path := do return ((← get).find path).map (·.2)
  writeFile := write
  print text := modify fun w => { w with printed := w.printed ++ text }
  report text := modify fun w => { w with reported := w.reported ++ text }

/-- The exit code of an invocation, and the workspace it leaves. -/
def run (w : Workspace) (environment : Environment) (i : Invocation) :
    Except Fault Nat × Workspace :=
  i.run host environment w

end Workspace
end UiFormat.Cli
