import BlockSyntax.Diagnostic
import BlockSyntax.Source.Path

/-!
# Registered files

A registry gives numbers to files and remembers their paths, so that a location needs to
hold no more than a number.  Paths are stored in normal form, and a path that is already
there keeps its number.

New numbers come from a counter of 64 bits and are its low 32 bits.  A registry whose
counter is above the largest file number is exhausted: a new path gets the number zero,
which is no file, and nothing is stored.  The path of a number is found by position, the
path of number `k` being the `k`-th that was stored.
-/

set_option autoImplicit false

namespace BlockSyntax

/-- The files registered so far. -/
structure Registry where
  /-- The stored paths with their numbers, in the order of registration. -/
  entries : List (Bytes × FileId)
  /-- The counter the next number comes from. -/
  counter : UInt64
  deriving DecidableEq

namespace Registry

/-- The registry without files; the first number is one. -/
def empty : Registry := ⟨[], 1⟩

/-- The number of stored paths. -/
def count (r : Registry) : Nat := r.entries.length

/-- The number of a path in normal form. -/
def find? (r : Registry) (normal : Bytes) : Option FileId := r.entries.lookup normal

/-- The path of a file number, empty for a number that is not in use. -/
def path (r : Registry) (id : FileId) : Bytes :=
  if id = 0 then [] else (r.entries[id.toNat - 1]?.map (·.1)).getD []

/-- No number is left for a new path. -/
def isExhausted (r : Registry) : Bool := 4294967295 < r.counter

/-- What is said when no number is left. -/
def exhaustedMessage : Bytes := ascii "source manager exhausted file identifier space"

/-- A registered path. -/
structure Registered where
  /-- Its number; zero when there is none. -/
  id : FileId
  /-- The registry afterwards. -/
  registry : Registry
  /-- What is written to the error stream. -/
  complaint : Bytes
  deriving DecidableEq

/-- Registers a path. -/
def add (r : Registry) (path : Bytes) : Registered :=
  let normal := Path.normal path
  match r.find? normal with
  | some id => ⟨id, r, []⟩
  | none =>
    if r.isExhausted then
      ⟨0, r, (Diagnostic.error [] exhaustedMessage .unknown).render Diagnostic.noPaths⟩
    else
      let id := r.counter.toUInt32
      ⟨id, ⟨r.entries ++ [(normal, id)], r.counter + 1⟩, []⟩

/-- The registry after adding paths one after the other. -/
def addAll (r : Registry) (paths : List Bytes) : Registry :=
  paths.foldl (fun r path => (r.add path).registry) r

@[simp] theorem addAll_nil (r : Registry) : r.addAll [] = r := rfl

@[simp] theorem addAll_cons (r : Registry) (path : Bytes) (paths : List Bytes) :
    r.addAll (path :: paths) = (r.add path).registry.addAll paths := rfl

end Registry

end BlockSyntax
