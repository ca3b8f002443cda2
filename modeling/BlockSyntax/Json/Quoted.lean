import BlockSyntax.Text.Bytes

/-!
# Quoted text

The string literals of JSON, over bytes.  A quotation mark and a backslash are
written behind a backslash; line feed, tab, carriage return, backspace and form
feed have a letter behind a backslash; every other byte below 0x20 is written
`\u00` and two hexadecimal digits, in lower case.  All other bytes stand for
themselves, those at or above 0x80 included, so a text that is valid UTF-8 stays
valid UTF-8.
-/

set_option autoImplicit false

namespace BlockSyntax.Json

/-- The hexadecimal digit of a number below sixteen. -/
def hexDigit (n : UInt8) : UInt8 :=
  if n < 10 then byte '0' + n else byte 'a' + (n - 10)

/-- How a byte is written inside quotation marks. -/
def escape (b : UInt8) : Bytes :=
  if b = byte '"' || b = byte '\\' then [byte '\\', b]
  else if b = lineFeed then ascii "\\n"
  else if b = byte '\t' then ascii "\\t"
  else if b = byte '\r' then ascii "\\r"
  else if b = 8 then ascii "\\b"
  else if b = 12 then ascii "\\f"
  else if b < 32 then ascii "\\u00" ++ [hexDigit (b / 16), hexDigit (b % 16)]
  else [b]

/-- A text as a string literal. -/
def quote (text : Bytes) : Bytes := byte '"' :: (text.flatMap escape ++ [byte '"'])

end BlockSyntax.Json
