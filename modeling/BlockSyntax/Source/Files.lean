import BlockSyntax.Source.Path

/-!
# Files

A file system is a tree of directories with files in them, below one root.  Files and
directories are given by the names that lead to them from the root, and one directory is
the working directory.  A path starts at the root if it is rooted and at the working
directory otherwise, and it is looked up component by component.  So every component but
the last has to be a directory that exists, also one that a `..` behind it leaves again.
Above the root there is the root.  A path ends at its first NUL byte, a name has at most
255 bytes and a path fewer than 4096.

A file holds given bytes or a number of zeros; the latter stands for a file that is only
asked for its size.  A source text has to fit a limit of 256 MB.
-/

set_option autoImplicit false

namespace BlockSyntax

/-- What a file holds. -/
inductive Content where
  /-- The given bytes. -/
  | bytes (text : Bytes)
  /-- A number of zeros. -/
  | zeros (size : Nat)
  deriving DecidableEq

/-- The size of a file in bytes. -/
def Content.size : Content → Nat
  | bytes text => text.length
  | zeros size => size

/-- The bytes of a file. -/
def Content.text : Content → Bytes
  | bytes text => text
  | zeros size => List.replicate size 0

/-! ## Source texts -/

/-- What is there when a path is opened for reading. -/
inductive Opened where
  /-- The path cannot be opened. -/
  | failed
  /-- A directory, which can be opened but has no size that fits the limit. -/
  | directory
  /-- A file. -/
  | file (content : Content)
  deriving DecidableEq

/-- What is found when a source text is asked for. -/
inductive Found where
  /-- Nothing that can be opened. -/
  | missing
  /-- More than a source text may hold. -/
  | oversize
  /-- A text. -/
  | text (bytes : Bytes)
  deriving DecidableEq

/-- The size of the largest source text. -/
def sourceLimit : Nat := 256 * 1024 * 1024

/-- The source text in what was opened. -/
def Opened.found : Opened → Found
  | failed => .missing
  | directory => .oversize
  | file content => if sourceLimit < content.size then .oversize else .text content.text

/-! ## File systems -/

/-- Directories and files with the names that lead to them from the root. -/
structure FileSystem where
  /-- The working directory. -/
  working : List Bytes
  /-- Further directories that are there whether anything is in them or not. -/
  directories : List (List Bytes)
  /-- The files. -/
  files : List (List Bytes × Content)
  deriving DecidableEq

namespace FileSystem

/-- The bytes of a path up to its first NUL byte. -/
def untilNul (path : Bytes) : Bytes := path.takeWhile (· ≠ 0)

/-- The names of a path in its normal form. -/
def namesOf (path : Bytes) : List Bytes := (Path.namesReversed path).reverse

/-- The given files below a working directory of which nothing else is known. -/
def ofFiles (files : List (Bytes × Content)) : FileSystem :=
  let working := [ascii "work"]
  ⟨working, [], files.map fun (path, content) => (working ++ namesOf path, content)⟩

/-- The file that the names lead to. -/
def file? (fs : FileSystem) (names : List Bytes) : Option Content := fs.files.lookup names

/-- The names lead to a directory: one of those that are known, one that has a directory
in it, or one that has a file in it. -/
def isDirectory (fs : FileSystem) (names : List Bytes) : Bool :=
  (fs.working :: fs.directories).any names.isPrefixOf ||
    fs.files.any fun (path, _) => names.isPrefixOf path && names != path

/-- What a path leads to. -/
inductive Target where
  /-- A file. -/
  | file (names : List Bytes) (content : Content)
  /-- A directory. -/
  | directory
  /-- A place in a directory where there is nothing yet. -/
  | vacant (names : List Bytes)
  /-- No place at all. -/
  | nowhere
  deriving DecidableEq

/-- Follows components from a directory. -/
def follow (fs : FileSystem) : List Bytes → List Bytes → Target
  | _, [] => .directory
  | here, c :: cs =>
    if c = [] ∨ c = Path.dot then fs.follow here cs
    else if c = Path.dotDot then fs.follow here.dropLast cs
    else if 255 < c.length then .nowhere
    else if fs.isDirectory (here ++ [c]) then fs.follow (here ++ [c]) cs
    else if cs.isEmpty then
      match fs.file? (here ++ [c]) with
      | some content => .file (here ++ [c]) content
      | none => .vacant (here ++ [c])
    else .nowhere

/-- The directory that a path starts in. -/
def origin (fs : FileSystem) (path : Bytes) : List Bytes :=
  if Path.isRooted path then [] else fs.working

/-- Follows a path from where it starts. -/
def locate (fs : FileSystem) (path : Bytes) : Target :=
  let path := untilNul path
  if path.isEmpty || 4096 ≤ path.length then .nowhere
  else fs.follow (fs.origin path) (Path.components path)

/-- Opens a path for reading. -/
def opened (fs : FileSystem) (path : Bytes) : Opened :=
  match fs.locate path with
  | .file _ content => .file content
  | .directory => .directory
  | .vacant _ | .nowhere => .failed

/-- Asks for the source text at a path. -/
def find (fs : FileSystem) (path : Bytes) : Found := (fs.opened path).found

/-- Puts a text at the given names, in place of what was there. -/
def set (fs : FileSystem) (names : List Bytes) (text : Bytes) : FileSystem where
  working := fs.working
  directories := fs.directories
  files :=
    if (fs.file? names).isSome then
      fs.files.map fun (path, content) => (path, if path = names then .bytes text else content)
    else fs.files ++ [(names, .bytes text)]

/-- Writes a text to a path, if there is a file or a vacant place. -/
def store (fs : FileSystem) (path text : Bytes) : Option FileSystem :=
  match fs.locate path with
  | .file names _ | .vacant names => some (fs.set names text)
  | .directory | .nowhere => none

/-- The files below the working directory that are new or hold something else than they
did in an earlier state, with the paths that lead to them from there.  Files of zeros in
the earlier state are left out. -/
def changesSince (now before : FileSystem) : List (Bytes × Bytes) :=
  now.files.filterMap fun (names, _) =>
    match before.file? names, now.file? names with
    | some (.zeros _), _ | _, none => none
    | old, some content =>
      if old = some content || !now.working.isPrefixOf names then none
      else some (Path.join (names.drop now.working.length), content.text)

end FileSystem

end BlockSyntax
