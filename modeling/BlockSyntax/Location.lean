import BlockSyntax.Text.Bytes

/-!
# Locations

A place in a source text: the file it is in, its line and its column, the last
two counted from one.  Zero stands for *unknown* in each of the three: a text that
was never registered has no file, and a message about a whole file has neither
line nor column.  The three numbers are words of 32 bits.
-/

set_option autoImplicit false

namespace BlockSyntax

/-- The number a registry gives to a file; zero is no file. -/
abbrev FileId := UInt32

/-- A place in a source text, zero standing for what is not known. -/
structure Location where
  /-- The file, zero for a text that is not registered. -/
  file : FileId
  /-- The line, from one. -/
  line : UInt32
  /-- The column in bytes, from one. -/
  column : UInt32
  deriving DecidableEq, Inhabited

namespace Location

/-- The location of which nothing is known. -/
def unknown : Location := ⟨0, 0, 0⟩

/-- The location is in a registered file. -/
def hasFile (l : Location) : Bool := l.file != 0

/-- The line is known. -/
def hasLine (l : Location) : Bool := l.line != 0

/-- The column is known. -/
def hasColumn (l : Location) : Bool := l.column != 0

/-- Line and column with a colon between them; an unknown column is left out. -/
def lineAndColumn (l : Location) : Bytes :=
  decimal l.line.toNat ++ if l.hasColumn then ascii ":" ++ decimal l.column.toNat else []

end Location

end BlockSyntax
