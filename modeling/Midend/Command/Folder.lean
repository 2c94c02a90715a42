import Midend.Compile.Failure

/-!
# Midend.Command.Folder

A folder that holds files and nothing else, and how paths that start in it are read. Of the folders
around it only the way up is known: nothing is found in them by name.
-/

namespace Midend
namespace Command

abbrev Folder := List (String × String)

/-- Where a path has led so far. -/
inductive Place where
  | inside
  /-- One of the folders around the folder. -/
  | above
  deriving DecidableEq, Repr

def maxPathBytes : Nat := 4095

def maxNameBytes : Nat := 255

def pathParts (path : String) : List String :=
  (path.toList.splitOn '/').map String.ofList

/-- An absolute path starts at the outermost folder, any other in the folder itself. -/
def startOf (path : String) : Place :=
  match path.toList with
  | '/' :: _ => .above
  | _ => .inside

namespace Folder

/-- What the rest of a path leads to. An empty part and a single dot stay where they are, two dots
go up; after a file nothing may follow, not even an empty part. -/
def follow (folder : Folder) : Place → List String → Except ReadError String
  | _, [] => .error .isDirectory
  | place, part :: rest =>
    if part = "" ∨ part = "." then follow folder place rest
    else if part = ".." then follow folder .above rest
    else if maxNameBytes < part.utf8ByteSize then .error .nameTooLong
    else
      match place with
      | .above => .error .missing
      | .inside =>
        match folder.lookup part with
        | none => .error .missing
        | some text => if rest.isEmpty then .ok text else .error .notDirectory

def read (folder : Folder) (path : String) : Except ReadError String :=
  if path = "" then .error .missing
  else if maxPathBytes < path.utf8ByteSize then .error .nameTooLong
  else folder.follow (startOf path) (pathParts path)

end Folder

end Command
end Midend
