import BlockSyntax.Token.Kind

/-!
# Expectations

A parse fails at the first token that cannot go on, and says what it expected there:
a name in some role, a reserved word or mark behind some part, a type, an array
dimension, or an expression.
-/

set_option autoImplicit false

namespace BlockSyntax

/-- What a name is for. -/
inductive NameRole where
  | functionName
  | parameter
  | enumName
  | enumValue
  | variableName
  | loopVariable
  deriving DecidableEq

/-- The words for what a name is for. -/
def NameRole.words : NameRole → Bytes
  | functionName => ascii "function name"
  | parameter => ascii "parameter"
  | enumName => ascii "enum name"
  | enumValue => ascii "enum value"
  | variableName => ascii "variable"
  | loopVariable => ascii "loop variable"

/-- The part of a construct behind which a token is expected. -/
inductive Part where
  /-- A reserved word. -/
  | word (k : TokenKind)
  | functionName
  | functionBody
  | parameterName
  | parameters
  | enumName
  | enumValues
  | enumDeclaration
  | arrayDimension
  | variableDeclaration
  | expression
  | arguments
  | index
  | condition
  | loopBounds
  | printStatement
  | readStatement
  | returnStatement
  | assignment
  deriving DecidableEq

/-- The words for a part. -/
def Part.words : Part → Bytes
  | word k => ascii "'" ++ k.spelling ++ ascii "'"
  | functionName => ascii "function name"
  | functionBody => ascii "function body"
  | parameterName => ascii "parameter name"
  | parameters => ascii "parameters"
  | enumName => ascii "enum name"
  | enumValues => ascii "enum values"
  | enumDeclaration => ascii "enum declaration"
  | arrayDimension => ascii "array dimension"
  | variableDeclaration => ascii "variable declaration"
  | expression => ascii "expression"
  | arguments => ascii "arguments"
  | index => ascii "index"
  | condition => ascii "condition"
  | loopBounds => ascii "loop bounds"
  | printStatement => ascii "print statement"
  | readStatement => ascii "read statement"
  | returnStatement => ascii "return statement"
  | assignment => ascii "assignment"

/-- What a parse expected at the token where it failed. -/
inductive Expectation where
  /-- A name. -/
  | name (role : NameRole)
  /-- A reserved word or mark that has only one place to be. -/
  | token (k : TokenKind)
  /-- A reserved word or mark behind a part. -/
  | tokenAfter (k : TokenKind) (part : Part)
  /-- The reserved word of a type. -/
  | typeName
  /-- The size of an array. -/
  | dimension
  /-- An expression. -/
  | expression
  deriving DecidableEq

/-- The message that says what was expected. -/
def Expectation.message : Expectation → Bytes
  | name role => ascii "expected identifier for " ++ role.words
  | token k => ascii "expected '" ++ k.spelling ++ ascii "'"
  | tokenAfter k part =>
    ascii "expected '" ++ k.spelling ++ ascii "' after " ++ part.words
  | typeName => ascii "expected type (int, real or bool)"
  | dimension => ascii "expected integer literal for array dimension"
  | expression => ascii "expected expression"

end BlockSyntax
