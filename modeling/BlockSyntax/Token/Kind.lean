import BlockSyntax.Text.Bytes

/-!
# Kinds of tokens

The kinds fall into five groups: reserved words, names and literals, operators,
punctuation, and the two markers `error` and `eof`.  Every reserved word but the
two truth values has a kind of its own, and every operator and mark of punctuation
has one spelling; `spelling` gives it.  Names, numbers and truth values have many
spellings and the markers none.
-/

set_option autoImplicit false

namespace BlockSyntax

/-- What sort of token it is. -/
inductive TokenKind where
  | kwBegin | kwEnd | kwFunction | kwReturn | kwIf | kwOr | kwElse | kwFor | kwGoes | kwFrom
  | kwTo | kwPrint | kwRead | kwAnd | kwNot | kwEnum | kwInt | kwReal | kwBool
  | identifier | intLiteral | realLiteral | boolLiteral
  | plus | minus | star | slash | percent | assignArrow
  | equal | notEqual | less | lessEqual | greater | greaterEqual
  | leftParen | rightParen | leftBracket | rightBracket | leftBrace | rightBrace
  | comma | colon | semicolon
  | error
  | eof
  deriving DecidableEq, Inhabited

namespace TokenKind

/-- Every kind, in the order of the groups above. -/
def all : List TokenKind :=
  [kwBegin, kwEnd, kwFunction, kwReturn, kwIf, kwOr, kwElse, kwFor, kwGoes, kwFrom,
   kwTo, kwPrint, kwRead, kwAnd, kwNot, kwEnum, kwInt, kwReal, kwBool,
   identifier, intLiteral, realLiteral, boolLiteral,
   plus, minus, star, slash, percent, assignArrow,
   equal, notEqual, less, lessEqual, greater, greaterEqual,
   leftParen, rightParen, leftBracket, rightBracket, leftBrace, rightBrace,
   comma, colon, semicolon, error, eof]

/-- The name a kind is listed under. -/
def name : TokenKind → Bytes
  | kwBegin => ascii "BEGIN"
  | kwEnd => ascii "END"
  | kwFunction => ascii "FUNCTION"
  | kwReturn => ascii "RETURN"
  | kwIf => ascii "IF"
  | kwOr => ascii "OR"
  | kwElse => ascii "ELSE"
  | kwFor => ascii "FOR"
  | kwGoes => ascii "GOES"
  | kwFrom => ascii "FROM"
  | kwTo => ascii "TO"
  | kwPrint => ascii "PRINT"
  | kwRead => ascii "READ"
  | kwAnd => ascii "AND"
  | kwNot => ascii "NOT"
  | kwEnum => ascii "ENUM"
  | kwInt => ascii "INT"
  | kwReal => ascii "REAL"
  | kwBool => ascii "BOOL"
  | identifier => ascii "IDENT"
  | intLiteral => ascii "INT_LITERAL"
  | realLiteral => ascii "REAL_LITERAL"
  | boolLiteral => ascii "BOOL_LITERAL"
  | plus => ascii "PLUS"
  | minus => ascii "MINUS"
  | star => ascii "STAR"
  | slash => ascii "SLASH"
  | percent => ascii "PERCENT"
  | assignArrow => ascii "ASSIGN_ARROW"
  | equal => ascii "EQ"
  | notEqual => ascii "NE"
  | less => ascii "LT"
  | lessEqual => ascii "LE"
  | greater => ascii "GT"
  | greaterEqual => ascii "GE"
  | leftParen => ascii "LPAREN"
  | rightParen => ascii "RPAREN"
  | leftBracket => ascii "LBRACKET"
  | rightBracket => ascii "RBRACKET"
  | leftBrace => ascii "LBRACE"
  | rightBrace => ascii "RBRACE"
  | comma => ascii "COMMA"
  | colon => ascii "COLON"
  | semicolon => ascii "SEMICOLON"
  | error => ascii "ERROR"
  | eof => ascii "EOF"

/-- The one spelling of a reserved word, an operator or a mark of punctuation;
empty for the kinds that have no fixed spelling. -/
def spelling : TokenKind → Bytes
  | kwBegin => ascii "begin"
  | kwEnd => ascii "end"
  | kwFunction => ascii "function"
  | kwReturn => ascii "return"
  | kwIf => ascii "if"
  | kwOr => ascii "or"
  | kwElse => ascii "else"
  | kwFor => ascii "for"
  | kwGoes => ascii "goes"
  | kwFrom => ascii "from"
  | kwTo => ascii "to"
  | kwPrint => ascii "print"
  | kwRead => ascii "read"
  | kwAnd => ascii "and"
  | kwNot => ascii "not"
  | kwEnum => ascii "enum"
  | kwInt => ascii "int"
  | kwReal => ascii "real"
  | kwBool => ascii "bool"
  | plus => ascii "+"
  | minus => ascii "-"
  | star => ascii "*"
  | slash => ascii "/"
  | percent => ascii "%"
  | assignArrow => ascii "->"
  | equal => ascii "="
  | notEqual => ascii "!="
  | less => ascii "<"
  | lessEqual => ascii "<="
  | greater => ascii ">"
  | greaterEqual => ascii ">="
  | leftParen => ascii "("
  | rightParen => ascii ")"
  | leftBracket => ascii "["
  | rightBracket => ascii "]"
  | leftBrace => ascii "\x7b"
  | rightBrace => ascii "\x7d"
  | comma => ascii ","
  | colon => ascii ":"
  | semicolon => ascii ";"
  | identifier | intLiteral | realLiteral | boolLiteral | error | eof => []

/-- The reserved words that name a type. -/
def isType : TokenKind → Bool
  | kwInt | kwReal | kwBool => true
  | _ => false

end TokenKind

end BlockSyntax
