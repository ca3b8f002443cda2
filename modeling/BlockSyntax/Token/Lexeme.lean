import BlockSyntax.Text.Character
import BlockSyntax.Token.Reserved

/-!
# Lexemes

A lexeme is the spelling of a token.  The first byte of a text tells a word from a
number and from an operator or mark of punctuation, and the lexeme is the longest text
of its sort.  Two lexemes are at fault: a number whose point has no digit behind it, and
a single byte that starts nothing else.

Every lexeme takes at least one byte (`Lexeme.length_rest_read`).
-/

set_option autoImplicit false

namespace BlockSyntax

/-- What can be wrong with a lexeme or with the gap in front of it. -/
inductive LexicalFault where
  /-- A block comment is not closed. -/
  | unclosedComment
  /-- The point of a number has no digit behind it. -/
  | malformedNumber
  /-- A byte starts no lexeme. -/
  | unexpectedByte (b : UInt8)
  deriving DecidableEq

/-- The message about a fault. -/
def LexicalFault.message : LexicalFault → Bytes
  | unclosedComment => ascii "unterminated block comment"
  | malformedNumber => ascii "malformed numeric literal: expected digit after '.'"
  | unexpectedByte b => ascii "unexpected character '" ++ [b] ++ ascii "'"

/-! ## Reading a lexeme -/

/-- A lexeme at the start of a text: its kind, its bytes, the bytes behind it, and
what is wrong with it. -/
structure Lexeme where
  /-- The kind of token it makes. -/
  kind : TokenKind
  /-- Its bytes. -/
  text : Bytes
  /-- What follows it. -/
  rest : Bytes
  /-- What is wrong, when the kind is `error`. -/
  fault : Option LexicalFault
  deriving DecidableEq

namespace Lexeme

/-- A word reaches as far as letters, digits and underscores do. -/
def word (text : Bytes) : Lexeme :=
  let spelling := text.takeWhile Character.continuesWord
  ⟨(Reserved.kind? spelling).getD .identifier, spelling,
    text.dropWhile Character.continuesWord, none⟩

/-- A number is digits, or digits on both sides of a point.  A point without a digit
behind it still belongs to the number and is a fault. -/
def number (text : Bytes) : Lexeme :=
  let whole := text.takeWhile Character.isDigit
  match text.dropWhile Character.isDigit with
  | point :: behind =>
    let fraction := behind.takeWhile Character.isDigit
    if fraction.isEmpty then ⟨.error, whole ++ [point], behind, some .malformedNumber⟩
    else ⟨.realLiteral, whole ++ point :: fraction, behind.dropWhile Character.isDigit, none⟩
  | rest => ⟨.intLiteral, whole, rest, none⟩

/-- The operators and marks of punctuation, the longer ones first, so that the first
of them that a text starts with is the longest. -/
def marks : List TokenKind :=
  [.assignArrow, .notEqual, .lessEqual, .greaterEqual,
   .plus, .minus, .star, .slash, .percent, .equal, .less, .greater,
   .leftParen, .rightParen, .leftBracket, .rightBracket, .leftBrace, .rightBrace,
   .comma, .colon, .semicolon]

/-- The longest lexeme at the start of a text that has a first byte. -/
def read (first : UInt8) (behind : Bytes) : Lexeme :=
  if Character.startsWord first then word (first :: behind)
  else if Character.isDigit first then number (first :: behind)
  else
    match marks.find? (·.spelling.isPrefixOf (first :: behind)) with
    | some k => ⟨k, k.spelling, (first :: behind).drop k.spelling.length, none⟩
    | none => ⟨.error, [first], behind, some (.unexpectedByte first)⟩

end Lexeme

/-! ### What is left is shorter -/

/-- Dropping bytes from the front leaves no more than there were. -/
theorem length_dropWhile_le (keep : UInt8 → Bool) (text : Bytes) :
    (text.dropWhile keep).length ≤ text.length :=
  (List.dropWhile_sublist keep).length_le

/-- A word takes its first byte. -/
theorem Lexeme.length_rest_word {first : UInt8} (behind : Bytes)
    (starts : Character.startsWord first) :
    (Lexeme.word (first :: behind)).rest.length < (first :: behind).length := by
  have := length_dropWhile_le Character.continuesWord behind
  simp [Lexeme.word, Character.continuesWord, starts] at *
  omega

/-- A number takes its first byte. -/
theorem Lexeme.length_rest_number {first : UInt8} (behind : Bytes)
    (digit : Character.isDigit first) :
    (Lexeme.number (first :: behind)).rest.length < (first :: behind).length := by
  have h := length_dropWhile_le Character.isDigit behind
  unfold Lexeme.number
  simp only [List.dropWhile_cons, digit, if_true]
  split
  · rename_i r hr
    have := length_dropWhile_le Character.isDigit r
    rw [hr] at h
    simp only [List.length_cons] at *
    split <;> simp only <;> omega
  · simp only [List.length_cons]
    omega

/-- **Every lexeme takes at least one byte.** -/
theorem Lexeme.length_rest_read (first : UInt8) (behind : Bytes) :
    (Lexeme.read first behind).rest.length < (first :: behind).length := by
  unfold Lexeme.read
  split
  · exact Lexeme.length_rest_word behind ‹_›
  split
  · exact Lexeme.length_rest_number behind ‹_›
  split
  · rename_i k found
    have long : ∀ k ∈ Lexeme.marks, 0 < k.spelling.length := by decide
    have := long k (List.mem_of_find?_eq_some found)
    simp only [List.length_drop, List.length_cons]
    omega
  · simp

end BlockSyntax
