import BlockSyntax.Text.Bytes

/-!
# Normal form of paths

Two paths that differ only in repeated slashes, in `.` components, or in a name that a
`..` behind it takes back are written alike.  The normal form of a path is found without
looking at any file: components are pushed on a stack from the left, a `..` takes the
name before it back off, and a `..` at the root is dropped, as nothing is above the root.

A path whose last component was empty, `.`, or a `..` that took a name back denotes a
directory, and its normal form ends with a slash; one that ends with `..` in its normal
form does not need the slash.  The empty path is normal; any other path of which nothing
is left is `.`.
-/

set_option autoImplicit false

namespace BlockSyntax.Path

/-- The component that stays in a directory. -/
def dot : Bytes := ascii "."

/-- The component that leaves a directory. -/
def dotDot : Bytes := ascii ".."

/-- The components of a path: the texts between its slashes. -/
def components : Bytes → List Bytes
  | [] => [[]]
  | b :: path =>
    if b = slash then [] :: components path
    else
      match components path with
      | [] => [[b]]
      | c :: cs => (b :: c) :: cs

/-- A path that starts with a slash starts at the root. -/
def isRooted (path : Bytes) : Bool := path.head? = some slash

/-- Pushes a component on the names in front of it, the last of which is on top. -/
def push (rooted : Bool) (names : List Bytes) (component : Bytes) : List Bytes :=
  if component = [] ∨ component = dot then names
  else if component = dotDot then
    match names with
    | [] => if rooted then [] else [dotDot]
    | top :: below => if top = dotDot then dotDot :: names else below
  else component :: names

/-- The names that are left of a path, the last one first. -/
def namesReversed (path : Bytes) : List Bytes :=
  (components path).foldl (push (isRooted path)) []

/-- The last component of a path says that the path denotes a directory. -/
def endsAsDirectory (path : Bytes) : Bool :=
  (components path).getLast?.any fun c => c = [] || c = dot || c = dotDot

/-- The slash behind the names of a directory. -/
def finalSlash (path : Bytes) : Bytes :=
  match namesReversed path with
  | [] => []
  | last :: _ => if endsAsDirectory path && last != dotDot then [slash] else []

/-- Names with a slash between two of them. -/
def join (names : List Bytes) : Bytes := List.intercalate [slash] names

/-- The normal form of a path. -/
def normal (path : Bytes) : Bytes :=
  let text := (if isRooted path then [slash] else []) ++ join (namesReversed path).reverse
    ++ finalSlash path
  if text = [] ∧ path ≠ [] then dot else text

end BlockSyntax.Path
