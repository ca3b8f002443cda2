import BlockSyntax.Text.Bytes

/-!
# Positions

A position is a line and a column, and every byte that is passed moves it.  The two
numbers are words of 32 bits, like those of a location, and a source text that can be
loaded has fewer lines and columns than fit a word.
-/

set_option autoImplicit false

namespace BlockSyntax

/-- A line and a column in a text, both from one. -/
structure Position where
  /-- The line. -/
  line : UInt32
  /-- The column, in bytes. -/
  column : UInt32
  deriving DecidableEq, Inhabited

namespace Position

/-- The position of the first byte of a text. -/
def start : Position := ⟨1, 1⟩

/-- The position behind a byte: a line feed starts a line, every other byte takes
one column. -/
def step (p : Position) (b : UInt8) : Position :=
  if b = lineFeed then ⟨p.line + 1, 1⟩ else ⟨p.line, p.column + 1⟩

/-- The position behind a text. -/
def advance (p : Position) (text : Bytes) : Position := text.foldl step p

end Position

end BlockSyntax
