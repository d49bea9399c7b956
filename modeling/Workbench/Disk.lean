/-!
**Files.**

A disk holds files in directories. A path names a file by the directories that lead to it from the root;
empty names and single dots stay in a directory, and a double dot goes back to the directory above. Every
directory holds a file, in itself or further down, because an empty one leads nowhere. A server reads
changed files from it (`read_document`).
-/

namespace Workbench

/-- Files by the names that lead to them, with their texts. -/
structure Disk where
  files : List (List String × String) := []
deriving DecidableEq, Repr

namespace Disk

/-- The names of a path. -/
def namesOf (path : String) : List String := path.splitOn "/"

/-- Whether names lead to a directory. -/
def isDirectory (d : Disk) (names : List String) : Bool :=
  names.isEmpty || d.files.any fun (path, _) => names.isPrefixOf path && names.length < path.length

/-- Where names lead from a place; nowhere, if they pass through anything but a directory. -/
def follow? (d : Disk) (place : List String) : List String → Option (List String)
  | [] => some place
  | name :: names =>
    if d.isDirectory place then
      if name == "" || name == "." then d.follow? place names
      else if name == ".." then d.follow? place.dropLast names
      else d.follow? (place ++ [name]) names
    else none

/-- The text of the file at a path. -/
def read? (d : Disk) (path : String) : Option String :=
  (d.follow? [] (namesOf path)).bind fun place => (d.files.find? (·.1 == place)).map (·.2)

/-- Deletes the file at a path. -/
def delete (d : Disk) (path : String) : Disk :=
  let names := (namesOf path).filter (· != "")
  { files := d.files.filter (·.1 != names) }

/-- Writes a file, over one at the same path. -/
def write (d : Disk) (path : String) (text : String) : Disk :=
  { files := ((namesOf path).filter (· != ""), text) :: (d.delete path).files }

end Disk

end Workbench
