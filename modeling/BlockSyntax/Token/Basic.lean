import BlockSyntax.Location
import BlockSyntax.Token.Kind

/-!
# Tokens

A token is a kind, the bytes it was spelled with, and the location of its first
byte.  Two listings are made of tokens: the one-line description used in messages,
and the table of a whole stream, one token a line with the number of tokens below
it.  The end marker is listed like the others but not counted.
-/

set_option autoImplicit false

namespace BlockSyntax

/-- A word, number, operator, mark or marker of a source text. -/
structure Token where
  /-- What sort of token it is. -/
  kind : TokenKind
  /-- The bytes it was spelled with. -/
  lexeme : Bytes
  /-- The location of its first byte. -/
  location : Location
  deriving DecidableEq, Inhabited

namespace Token

/-- The spelling in quotes and the position, as every listing shows them. -/
def quotedWithPosition (t : Token) : Bytes :=
  ascii "'" ++ t.lexeme ++ ascii "' @" ++ decimal t.location.line.toNat
    ++ ascii ":" ++ decimal t.location.column.toNat

/-- A token in one line: its kind, spelling and position. -/
def describe (t : Token) : Bytes := t.kind.name ++ ascii " " ++ t.quotedWithPosition

/-- The line of a token in the table of a stream. -/
def tableLine (t : Token) : Bytes :=
  t.kind.name ++ ascii "\t" ++ t.quotedWithPosition ++ [lineFeed]

/-- The table of a stream: a line for every token, and the number of tokens that
are not end markers. -/
def table (ts : List Token) : Bytes :=
  ts.flatMap tableLine ++ ascii "Total tokens (without EOF): "
    ++ decimal (ts.countP (·.kind ≠ .eof)) ++ [lineFeed]

end Token

end BlockSyntax
