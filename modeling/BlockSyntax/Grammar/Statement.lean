import BlockSyntax.Grammar.Expression

/-!
# The grammar of statements

The first token of a statement decides what it is, and after `begin` the second: a
conditional and a loop may have a `begin` in front of them, which means nothing, and any
other `begin` opens a block.  A statement that starts with none of the reserved words is
an assignment or an expression, and it is told which by what stands behind its first
expression.

The ends of statements differ.  Most end with a semicolon.  A `return` in front of an
`end` or of the end of the source needs none.  A conditional takes an `end` that follows
it, a loop an `end for`; both may be left out, so an `end` always closes the innermost
construct that can take it.

Every function here takes as `self` the parser for the statements inside, which are read
from fewer tokens; `statement` closes the circle.
-/

set_option autoImplicit false

namespace BlockSyntax

namespace Grammar

variable {n : Nat}

/-! ## Statements without statements inside -/

/-- Reads an expression in parentheses, behind the given part of a construct. -/
def parenthesized (before inside : Part) (tokens : List Token) : Reply Expr tokens.length :=
  (takeAfter .leftParen before tokens).bind fun _ rest h₁ =>
  (expression rest).bind fun e rest h₂ =>
  (takeAfter .rightParen inside rest).bind fun _ rest h₃ =>
  .ok e rest 0 (length_lt_three h₁ h₂ h₃)

/-- Reads a dimension of an array type in brackets. -/
def dimension (tokens : List Token) : Reply Token tokens.length :=
  (take .leftBracket tokens).bind fun _ rest h₁ =>
  (takeIf (· = .intLiteral) .dimension rest).node.node.bind fun size rest h₂ =>
  (takeAfter .rightBracket .arrayDimension rest).bind fun _ rest h₃ =>
  .ok size rest 0 (length_lt_three h₁ h₂ h₃)

/-- Reads a variable declaration behind its type. -/
def declaration (type : Token) (tokens : List Token) : Reply Stmt tokens.length :=
  (whileNext (· = .leftBracket) tokens fun us _ => dimension us).bind fun dimensions rest _ =>
  (separated rest fun us _ => (takeName .variableName us).node).bind fun names rest _ =>
  (takeAfter .semicolon .variableDeclaration rest).bind fun _ rest _ =>
  .ok (.declaration type dimensions names) rest 3 (by omega)

/-- Reads a `print` statement behind its first word. -/
def print (tokens : List Token) : Reply Stmt tokens.length :=
  (parenthesized (.word .kwPrint) .expression tokens).bind fun value rest h₁ =>
  (takeAfter .semicolon .printStatement rest).bind fun _ rest h₂ =>
  .ok (.print value) rest 1 (length_lt_two h₁ h₂)

/-- Reads a `read` statement behind its first word. -/
def read (tokens : List Token) : Reply Stmt tokens.length :=
  (parenthesized (.word .kwRead) .expression tokens).bind fun target rest h₁ =>
  (takeAfter .semicolon .readStatement rest).bind fun _ rest h₂ =>
  .ok (.read target) rest 1 (length_lt_two h₁ h₂)

/-- The tokens in front of which a `return` has no value. -/
def endsResult : TokenKind → Bool
  | .semicolon | .kwEnd | .eof | .kwElse | .kwOr => true
  | _ => false

/-- Reads the value of a `return` statement, if it has one. -/
def resultValue (tokens : List Token) : Reply (Option Expr) (tokens.length + 1) :=
  if endsResult (nextKind tokens) then .ok none tokens 0 (length_lt_succ tokens)
  else ((expression tokens).map some).widen (length_le_succ tokens)

/-- Reads a `return` statement behind its first word. -/
def result (tokens : List Token) : Reply Stmt (tokens.length + 1) :=
  (resultValue tokens).bind fun value rest _ =>
  if nextKind rest = .kwEnd ∨ nextKind rest = .eof then .ok (.result value) rest 1 (by omega)
  else
    (takeAfter .semicolon .returnStatement rest).bind fun _ rest _ =>
    .ok (.result value) rest 1 (by omega)

/-- Reads an assignment, or an expression as a statement. -/
def assignmentOrEvaluation (tokens : List Token) : Reply Stmt tokens.length :=
  (expression tokens).bind fun value rest h₁ =>
  if nextKind rest = .assignArrow then
    (take .assignArrow rest).bind fun _ rest _ =>
    (expression rest).bind fun target rest _ =>
    (takeAfter .semicolon .assignment rest).bind fun _ rest _ =>
    .ok (.assignment value target) rest 1 (by omega)
  else
    (takeAfter .semicolon .expression rest).bind fun _ rest h₂ =>
    .ok (.evaluation value) rest 1 (length_lt_two h₁ h₂)

/-! ## Statements with statements inside -/

/-- Reads a further condition with its body. -/
def orIf (self : Below n Stmt) (tokens : List Token) (h : tokens.length ≤ n) :
    Reply (Expr × Stmt) tokens.length :=
  (take .kwOr tokens).bind fun _ rest _ =>
  (takeAfter .kwIf (.word .kwOr) rest).bind fun _ rest _ =>
  (parenthesized (.word .kwIf) .condition rest).bind fun condition rest _ =>
  (self rest (by omega)).bind fun body rest _ =>
  .ok (condition, body) rest 1 (by omega)

/-- Reads the body for when no condition holds, if there is one. -/
def otherwise (self : Below n Stmt) (tokens : List Token) (h : tokens.length ≤ n) :
    Reply (Option Stmt) (tokens.length + 1) :=
  if nextKind tokens = .kwElse then
    (take .kwElse tokens).bind fun _ rest shorter =>
    (self rest (length_lt_of_le h shorter)).bind fun body rest _ =>
    .ok (some body) rest 0 (by omega)
  else .ok none tokens 0 (length_lt_succ tokens)

/-- Reads a conditional behind its `if`. -/
def conditional (self : Below n Stmt) (tokens : List Token) (h : tokens.length ≤ n) :
    Reply Stmt tokens.length :=
  (parenthesized (.word .kwIf) .condition tokens).bind fun condition rest shorter =>
  (self rest (length_lt_of_le h shorter)).bind fun body rest _ =>
  (whileNext (· = .kwOr) rest fun us _ => orIf self us (by omega)).bind fun orIfs rest _ =>
  (otherwise self rest (by omega)).bind fun last rest _ =>
  (skip .kwEnd rest).bind fun _ rest _ =>
  .ok (.conditional condition body orIfs last) rest 1 (by omega)

/-- Reads the words that may close a construct: nothing, or `end` and the given word. -/
def closing (k : TokenKind) (tokens : List Token) : Reply Unit (tokens.length + 1) :=
  (skip .kwEnd tokens).bind fun ended rest _ =>
  if ended then ((takeAfter k (.word .kwEnd) rest).map fun _ => ()).widen (by omega)
  else .ok () rest 0 (by omega)

/-- Reads a loop behind its `for`. -/
def loop (self : Below n Stmt) (tokens : List Token) (h : tokens.length ≤ n) :
    Reply Stmt tokens.length :=
  (takeAfter .leftParen (.word .kwFor) tokens).bind fun _ rest _ =>
  (takeName .loopVariable rest).bind fun counter rest _ =>
  (take .kwGoes rest).bind fun _ rest _ =>
  (take .kwFrom rest).bind fun _ rest _ =>
  (expression rest).bind fun lower rest _ =>
  (take .kwTo rest).bind fun _ rest _ =>
  (expression rest).bind fun upper rest _ =>
  (takeAfter .rightParen .loopBounds rest).bind fun _ rest _ =>
  (self rest (by omega)).bind fun body rest _ =>
  (closing .kwFor rest).bind fun _ rest _ =>
  .ok (.loop counter lower upper body) rest 1 (by omega)

/-- Reads a block behind its `begin`. -/
def block (self : Below n Stmt) (tokens : List Token) (h : tokens.length < n) :
    Reply Stmt (tokens.length + 1) :=
  (whileNext (fun k => k ≠ .kwEnd ∧ k ≠ .eof) tokens fun us _ =>
    self us (by omega)).bind fun body rest _ =>
  (take .kwEnd rest).bind fun _ rest _ =>
  .ok (.block body) rest 1 (by omega)

/-- Reads what a `begin` opens. -/
def begun (self : Below n Stmt) (tokens : List Token) (h : tokens.length < n) :
    Reply Stmt (tokens.length + 1) :=
  match nextKind tokens with
  | .kwIf =>
    (take .kwIf tokens).bind fun _ rest _ =>
    (conditional self rest (by omega)).widen (by omega)
  | .kwFor =>
    (take .kwFor tokens).bind fun _ rest _ =>
    (loop self rest (by omega)).widen (by omega)
  | _ => block self tokens h

/-- Reads a statement whose inner statements `self` reads. -/
def statementAround (self : Below n Stmt) :
    (tokens : List Token) → tokens.length ≤ n → Reply Stmt tokens.length
  | [], _ => assignmentOrEvaluation []
  | t :: rest, h =>
    match t.kind with
    | .kwBegin => begun self rest h
    | .kwInt | .kwReal | .kwBool => ((declaration t rest).after 1).widen (length_le_succ rest)
    | .kwPrint => (print rest).widen (length_le_succ rest)
    | .kwRead => (read rest).widen (length_le_succ rest)
    | .kwReturn => result rest
    | .kwIf => (conditional self rest (Nat.le_of_lt h)).widen (length_le_succ rest)
    | .kwFor => (loop self rest (Nat.le_of_lt h)).widen (length_le_succ rest)
    | _ => assignmentOrEvaluation (t :: rest)

end Grammar

/-- Reads a statement. -/
def statement (tokens : List Token) : Reply Stmt tokens.length :=
  Grammar.statementAround (fun us (_ : us.length < tokens.length) => statement us)
    tokens (Nat.le_refl _)
termination_by tokens.length

end BlockSyntax
