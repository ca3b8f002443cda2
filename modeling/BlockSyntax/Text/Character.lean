import BlockSyntax.Text.Bytes

/-!
# Character classes

The five classes of bytes that the lexical grammar is written in.  All of them
are ASCII: no byte at or above 0x80 is in any class, so such a byte is only ever
part of a comment or an error.
-/

set_option autoImplicit false

namespace BlockSyntax.Character

/-- The letters `a` to `z` and `A` to `Z`. -/
def isLetter (b : UInt8) : Bool := (byte 'a' ≤ b && b ≤ byte 'z') || (byte 'A' ≤ b && b ≤ byte 'Z')

/-- The digits `0` to `9`. -/
def isDigit (b : UInt8) : Bool := byte '0' ≤ b && b ≤ byte '9'

/-- A word starts with a letter or an underscore. -/
def startsWord (b : UInt8) : Bool := isLetter b || b == byte '_'

/-- A word goes on with letters, underscores and digits. -/
def continuesWord (b : UInt8) : Bool := startsWord b || isDigit b

/-- Space, tab, carriage return and line feed separate tokens. -/
def isBlank (b : UInt8) : Bool := b == byte ' ' || b == byte '\t' || b == byte '\r' || b == lineFeed

end BlockSyntax.Character
