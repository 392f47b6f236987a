import Formwork.Files.Access

namespace Formwork.Files

/-!
# File trees in memory

A tree of directories and files, and what is found at a path from its root. A path is followed name
by name: a single dot stays, a pair of dots goes up, and only a directory can be entered. Of what is
around the tree, only the directories that it lies in are known.
-/

/-- A directory, by the paths of the files and directories in it. -/
structure Tree where
  files : List (List String × ByteArray) := []
  /-- The directories that may hold no files. -/
  directories : List (List String) := []

namespace Tree

/-- Whether a path leads to a directory: the root, a directory of its own, or one on the way to a
    file or a directory. -/
def isDirectory (t : Tree) (path : List String) : Bool :=
  path.isEmpty || (t.directories ++ t.files.map fun file => file.1.dropLast).any path.isPrefixOf

/-- The names in a directory. -/
def namesIn (t : Tree) (path : List String) : List String :=
  ((t.directories ++ t.files.map Prod.fst).filterMap fun other =>
    if path.isPrefixOf other then (other.drop path.length).head? else none).eraseDups

/-- What stands at a path without dots. -/
def entry (t : Tree) (path : List String) : Look :=
  match t.files.lookup path with
  | some bytes => .ok (.file bytes)
  | none => if t.isDirectory path then .ok (.directory (t.namesIn path)) else .error .notFound

/-- The number of bytes that a name may have. -/
def longestName : Nat := 255

/-- The number of bytes that a path may have. -/
def longestPath : Nat := 4095

/-- Follows names from a directory around the tree. -/
def followOutside : List String → Look
  | [] => .ok (.directory [])
  | name :: names =>
    if name ∈ ["", ".", ".."] then followOutside names
    else if longestName < name.utf8ByteSize then .error .nameTooLong
    else .error .notFound

/-- Follows names from a directory, given by its own names, innermost first. -/
def follow (t : Tree) (here : List String) : List String → Look
  | [] => t.entry here.reverse
  | name :: names =>
    if !t.isDirectory here.reverse then
      match t.entry here.reverse with
      | .ok _ => .error .notDirectory
      | .error fault => .error fault
    else if name.isEmpty || name = "." then
      t.follow here names
    else if name = ".." then
      match here with
      | [] => followOutside names
      | _ :: here => t.follow here names
    else if longestName < name.utf8ByteSize then
      .error .nameTooLong
    else
      t.follow (name :: here) names

/-- The names of a path, empty ones included. -/
def splitPath (path : String) : List String := path.splitOn "/"

/-- What is found at a path. -/
def find (t : Tree) (path : String) : Look :=
  if path.toList.contains '\x00' then .error .invalidName
  else if path.isEmpty then .error .notFound
  else if longestPath < path.utf8ByteSize then .error .nameTooLong
  else if path.startsWith "/" then followOutside (splitPath path)
  else t.follow [] (splitPath path)

/-- The names on the way along a path that does not go up. -/
def namesOn (path : String) : List String :=
  (splitPath path).filter fun name => !name.isEmpty && name ≠ "."

/-- Adds a file at a path. -/
def addFile (t : Tree) (path : String) (bytes : ByteArray) : Tree :=
  { t with files := t.files ++ [(namesOn path, bytes)] }

/-- Adds a directory at a path. -/
def addDirectory (t : Tree) (path : String) : Tree :=
  { t with directories := t.directories ++ [namesOn path] }

end Tree

end Formwork.Files
