import RomListing.CommandLine.Path
import RomListing.Text.Quoted

/-!
# Files as the command line sees them
-/

namespace RomListing.CommandLine

inductive Entry where
  | directory
  | file (bytes : Array UInt8)

structure Files where
  entry : Text → Option Entry

namespace Files

/-- Where the step `..` leads from a place, the steps to which are given from the last one
on. -/
def outer (root : Text) (place : List Text) : List Text :=
  match place with
  | [] => if root.isEmpty then [".."] else []
  | step :: rest => if step = ".." then step :: place else rest

/-- Follows steps from a place. Nothing leads on from a file. -/
def follow (table : List (String × Entry)) (root : Text) (place : List Text) :
    List Text → Option Entry
  | [] => some .directory
  | step :: rest =>
    if step.isEmpty || step = "." then follow table root place rest
    else if step = ".." then follow table root (outer root place) rest
    else
      match (Path.ofSteps root (step :: place).reverse).lookupIn table with
      | some .directory => follow table root (step :: place) rest
      | some (.file bytes) => if rest.isEmpty then some (.file bytes) else none
      | none => none

/-- The files and directories of a table, by paths without idle steps. The current directory,
those around it and the root need not be in the table. -/
def ofTable (table : List (String × Entry)) : Files where
  entry path :=
    if path.isEmpty then none
    else
      follow table (if path.head? = some Path.slash then "/" else "") []
        (Text.split Path.slash path)

/-- What stands at the same place on every system. -/
def common : List (String × Entry) :=
  [("/bin", .directory), ("/dev", .directory), ("/dev/null", .file #[]), ("/etc", .directory),
    ("/tmp", .directory), ("/usr", .directory)]

inductive WriteFault where
  | missing (path : Text)
  /-- A file stands on the way. -/
  | noDirectory (path : Text)
  | directory (path : Text)
  | longName (path : Text)
  deriving DecidableEq

def WriteFault.message : WriteFault → String
  | .missing path => "[Errno 2] No such file or directory: " ++ Text.quoted path
  | .noDirectory path => "[Errno 20] Not a directory: " ++ Text.quoted path
  | .directory path => "[Errno 21] Is a directory: " ++ Text.quoted path
  | .longName path => "[Errno 36] File name too long: " ++ Text.quoted path

def maxStep : Nat := 255

def maxPath : Nat := 4095

/-- Why no file can be made at a path. Of several faults the first one on the way counts. -/
def makeFault? (files : Files) (path : Text) : Option WriteFault :=
  (Path.leads path).findSome? fun (start, step) =>
    match files.entry start with
    | none => some (.missing path)
    | some (.file _) => some (.noDirectory path)
    | some .directory => if maxStep < Path.byteCount step then some (.longName path) else none

def writeFault? (files : Files) (path : Text) : Option WriteFault :=
  if maxPath < Path.byteCount path then some (.longName path)
  else
    match files.entry path with
    | some .directory => some (.directory path)
    | some (.file _) => none
    | none => files.makeFault? path

end Files

end RomListing.CommandLine
