/-!
# Paths

A path is tidied before it is shown or used: empty components and single dots go, and a path of
nothing else is a single dot. Two dots are kept, since what they mean depends on the directory.

Reading from a directory is modelled on its files. A component is looked up only if the path so far
is a directory, and it may have so many bytes and no more.

## Main definitions

* `Path`, `Path.ofText`, `Path.text`
* `ReadFault`, why a path cannot be read
* `Directory`, `Directory.read`

## Implementation notes

Tidying is syntactic and reading is not. That is why two dots survive the first: what lies above a
directory is known only when it is looked up, and a component in front of the dots has to be a
directory even though the dots undo it.

A `Directory` holds files only. Directories are the prefixes of their paths, so there are no empty
ones, and a file can never be inside a file by mistake. What lies above the directory is not part of
the model, and `none` stands for every place there. `follow` goes up, as a path may, and never comes
down again: no name outside is known.
-/

namespace Treewalk

/-- The slashes that a path starts with, and its components. -/
structure Path where
  root : String
  parts : List String
  deriving DecidableEq

namespace Path

/-- The components of a text between slashes. -/
def components (text : String) : List String :=
  text.splitOn "/"

/-- The slashes in front that count: exactly two are kept, and any other number is one. -/
def rootOf (text : String) : String :=
  match (text.toList.takeWhile (· = '/')).length with
  | 0 => ""
  | 2 => "//"
  | _ => "/"

/-- The tidied path of a text. -/
def ofText (text : String) : Path :=
  ⟨rootOf text, (components text).filter fun part => part ≠ "" && part ≠ "."⟩

/-- The text of a path. -/
def text (p : Path) : String :=
  let body := p.root ++ "/".intercalate p.parts
  if body.isEmpty then "." else body

end Path

/-- Why a path cannot be read. -/
inductive ReadFault where
  | missing | isDirectory | notDirectory | tooLong
  /-- The path holds the character zero, and so is no path. -/
  | nullByte
  | other (message : String)
  deriving DecidableEq

/-- The wording of a fault. -/
def ReadFault.message : ReadFault → String
  | missing => "No such file or directory"
  | isDirectory => "Is a directory"
  | notDirectory => "Not a directory"
  | tooLong => "File name too long"
  | nullByte => "embedded null byte"
  | other message => message

/-- The files of a directory and the directories in it, by their components. -/
structure Directory where
  files : List (List String × List UInt8)

namespace Directory

/-- The directory that holds the given files; directories on the way to them exist. -/
def ofFiles (files : List (String × List UInt8)) : Directory :=
  ⟨files.map fun file => ((Path.ofText file.1).parts, file.2)⟩

/-- What stands at a place, given by components from the directory on. -/
inductive Entry where
  | file (content : List UInt8)
  | directory

/-- What stands at a place: a file of that name, or a directory if it is above a file. -/
def entry? (d : Directory) (place : List String) : Option Entry :=
  match d.files.lookup place with
  | some content => some (.file content)
  | none =>
    if place.isEmpty || d.files.any fun file => place.isPrefixOf file.1 then some .directory
    else none

/-- The largest number of bytes of a component. -/
def maxComponent : Nat := 255

/-- The largest number of bytes of a path. -/
def maxPath : Nat := 4095

/-- Follows components from a place. Two dots lead to the directory above, of which there is one
also above the topmost; nothing is known to be there. -/
def follow (d : Directory) : Option (List String) → List String → Except ReadFault Entry
  | none, [] => .error .isDirectory
  | some place, [] =>
    match d.entry? place with
    | some (.file content) => .ok (.file content)
    | some .directory => .error .isDirectory
    | none => .error .missing
  | none, ".." :: rest => d.follow none rest
  | none, part :: _ =>
    .error (if maxComponent < part.utf8ByteSize then .tooLong else .missing)
  | some place, part :: rest =>
    match d.entry? place with
    | none => .error .missing
    | some (.file _) => .error .notDirectory
    | some .directory =>
      if part = ".." then
        d.follow (if place.isEmpty then none else some place.dropLast) rest
      else if maxComponent < part.utf8ByteSize then .error .tooLong
      else d.follow (some (place ++ [part])) rest

/-- The content of the file at a path. An absolute path leads out of the directory. -/
def read (d : Directory) (p : Path) : Except ReadFault (List UInt8) :=
  if p.text.toList.contains '\x00' then .error .nullByte
  else if maxPath < p.text.utf8ByteSize then .error .tooLong
  else match d.follow (if p.root.isEmpty then some [] else none) p.parts with
    | .ok (.file content) => .ok content
    | .ok .directory => .error .isDirectory
    | .error fault => .error fault

end Directory

end Treewalk
