import MiniLisp.Fault

/-!
# Files

Files and directories by their paths from a working directory.  A path that leads above it begins
with `..`, and a path from the root directory begins with `/`; of what lies there only the few
places are known that every system has.
-/

namespace MiniLisp

/-- Why a file cannot be opened or read. -/
inductive FileFault where
  | badName
  | nameTooLong
  | notFound
  | notADirectory
  | isADirectory
  deriving DecidableEq, Repr

namespace FileFault

/-- The reason in words. -/
def reason : FileFault → String
  | badName => "invalid argument"
  | nameTooLong => "file name too long"
  | notFound => "no such file or directory"
  | notADirectory => "not a directory"
  | isADirectory => "is a directory"

/-- What was tried: directories can be opened but not read. -/
def attempt : FileFault → String
  | isADirectory => "read"
  | _ => "open"

/-- The fault of a file with a name. -/
def toFault (fault : FileFault) (name : String) : Fault :=
  .external s!"{fault.attempt} {name}: {fault.reason}"

end FileFault

/-- A file with its content, or a directory. -/
inductive FileEntry where
  | file (content : List UInt8)
  | directory
  deriving DecidableEq, Repr

/-- Files and directories by their paths.  The directories above an entry need no entries of their
own. -/
abbrev FileTree := List (List String × FileEntry)

namespace FileTree

/-- The largest number of bytes in one part of a name. -/
def partLimit : Nat := 255

/-- The smallest number of bytes that a whole name may not have. -/
def nameLimit : Nat := 4096

/-- The root directory. -/
def root : List String := ["/"]

/-- The directories that every system has. -/
def standardDirectories : List (List String) := [root, root ++ ["dev"], root ++ ["tmp"]]

/-- The file that is always empty and swallows what is written to it. -/
def nullDevice : List String := root ++ ["dev", "null"]

/-- The entry at a path. -/
def entry? (tree : FileTree) (path : List String) : Option FileEntry :=
  if path = nullDevice then some (.file []) else List.lookup path tree

/-- Whether a path leads to a directory. -/
def isDirectory (tree : FileTree) (path : List String) : Bool :=
  path.all (· == "..") || standardDirectories.contains path ||
    tree.entry? path == some .directory ||
    tree.any fun (other, _) => path.isPrefixOf other && path != other

/-- The path of the directory above a directory.  The root directory is above itself. -/
def above (path : List String) : List String :=
  if path = root then root
  else if path.all (· == "..") then path ++ [".."]
  else path.dropLast

/-- Follows the parts of a name from a path on.  Every part but the last must be a directory. -/
def follow (tree : FileTree) (path : List String) : List String → Except FileFault (List String)
  | [] => .ok path
  | part :: rest =>
    if tree.isDirectory path then
      if part = "" ∨ part = "." then follow tree path rest
      else if part = ".." then follow tree (above path) rest
      else if partLimit < part.utf8ByteSize then .error .nameTooLong
      else follow tree (path ++ [part]) rest
    else if (tree.entry? path).isSome then .error .notADirectory
    else .error .notFound

/-- The path that a name stands for. -/
def locate (tree : FileTree) (name : String) : Except FileFault (List String) :=
  if name.toList.contains '\x00' then .error .badName
  else if nameLimit ≤ name.utf8ByteSize then .error .nameTooLong
  else
    match (name.toList.splitOn '/').map String.ofList with
    | [] | [""] => .error .notFound
    | "" :: parts => tree.follow root parts
    | parts => tree.follow [] parts

/-- The content of the file with a name. -/
def read (tree : FileTree) (name : String) : Except FileFault (List UInt8) := do
  let path ← tree.locate name
  if tree.isDirectory path then .error .isADirectory
  else
    match tree.entry? path with
    | some (.file content) => .ok content
    | _ => .error .notFound

/-- The tree with a file written, if it can be. -/
def write (tree : FileTree) (name : String) (content : List UInt8) : Except FileFault FileTree := do
  let path ← tree.locate name
  if tree.isDirectory path then .error .isADirectory
  else if path = nullDevice then .ok tree
  else .ok ((path, .file content) :: tree.filter fun (other, _) => other != path)

end FileTree

end MiniLisp
