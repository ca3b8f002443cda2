/-!
# Byte strings

Source text, file names, labels and every text the library writes are strings of
bytes.  No encoding is assumed: a byte at or above 0x80 is a byte like any other,
and a column counts bytes.  Fixed texts are written as string literals of ASCII
characters and turned into bytes by `ascii`.

Numbers are written in decimal by `decimal`, most significant digit first and
without leading zeros.
-/

set_option autoImplicit false

namespace BlockSyntax

/-- A string of bytes. -/
abbrev Bytes := List UInt8

/-- The byte of an ASCII character. -/
def byte (c : Char) : UInt8 := c.toNat.toUInt8

/-- The bytes of a literal of ASCII characters, one byte a character. -/
def ascii (s : String) : Bytes := s.toList.map byte

/-- The decimal digits of a number, most significant first. -/
def decimal (n : Nat) : Bytes :=
  if n < 10 then [byte '0' + n.toUInt8]
  else decimal (n / 10) ++ [byte '0' + (n % 10).toUInt8]

/-! ## Bytes with a name -/

/-- The line feed, which ends a line. -/
def lineFeed : UInt8 := 10

/-- The slash, which opens comments and separates the components of paths. -/
@[match_pattern] abbrev slash : UInt8 := 47

/-- The star, which opens and closes block comments between slashes. -/
@[match_pattern] abbrev star : UInt8 := 42

/-- The point of a number. -/
@[match_pattern] abbrev point : UInt8 := 46

end BlockSyntax
