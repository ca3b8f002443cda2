import BlockSyntax.Grammar.Reply
import BlockSyntax.Tree.Program

/-!
# The grammar of expressions

Binary operators bind at six levels, from the loosest: `or`; `and`; `=` and `!=`; the
four comparisons; `+` and `-`; `*`, `/` and `%`.  At each level they associate to the
left.  The prefix operators `-` and `not` bind tighter than all of them, and what they
apply to is a primary: a literal, a name with indices or arguments, or an expression in
parentheses.

A level is given by the number of operator levels that may be used inside it, so a
whole expression is read at level six and an operand of a multiplication at level
zero.  Every function here takes as `self` the parser for the expressions inside a
primary, which are read from fewer tokens; `expression` closes the circle.
-/

set_option autoImplicit false

namespace BlockSyntax

/-- The level of a binary operator, from one for the tightest to six for the loosest;
zero for every other kind. -/
def TokenKind.level : TokenKind → Nat
  | .star | .slash | .percent => 1
  | .plus | .minus => 2
  | .less | .lessEqual | .greater | .greaterEqual => 3
  | .equal | .notEqual => 4
  | .kwAnd => 5
  | .kwOr => 6
  | _ => 0

/-- The level of a whole expression, at which every operator may be used. -/
def loosestLevel : Nat := 6

/-- The operators in front of an operand. -/
def TokenKind.isUnary : TokenKind → Bool
  | .minus | .kwNot => true
  | _ => false

namespace Grammar

variable {n : Nat}

/-- How many nodes a list is that has none when it is empty. -/
def listNodes {α : Type} (items : List α) : Nat := if items.isEmpty then 0 else 1

/-- Reads an index in brackets. -/
def index (self : Below n Expr) (tokens : List Token) (h : tokens.length ≤ n) :
    Reply Expr tokens.length :=
  (take .leftBracket tokens).bind fun _ rest h₁ =>
  (self rest (length_lt_of_le h h₁)).bind fun e rest h₂ =>
  (takeAfter .rightBracket .index rest).bind fun _ rest h₃ =>
  .ok e rest 0 (length_lt_three h₁ h₂ h₃)

/-- Reads what follows a name: arguments in parentheses, which make it a call, or any
number of indices in brackets. -/
def reference (self : Below n Expr) (name : Token) (tokens : List Token)
    (h : tokens.length < n) : Reply Expr (tokens.length + 1) :=
  if nextKind tokens = .leftParen then
    (take .leftParen tokens).bind fun _ rest _ =>
    (separatedUpTo .rightParen rest fun us _ => self us (by omega)).bind fun arguments rest _ =>
    (takeAfter .rightParen .arguments rest).bind fun _ rest _ =>
    .ok (.call name arguments) rest (listNodes arguments + 1) (by omega)
  else
    (whileNext (· = .leftBracket) tokens fun us _ =>
      index self us (by omega)).bind fun indices rest _ =>
    .ok (.reference name indices) rest (listNodes indices + 1) (by omega)

/-- Reads a literal, a name with what follows it, or an expression in parentheses. -/
def primary (self : Below n Expr) :
    (tokens : List Token) → tokens.length ≤ n → Reply Expr tokens.length
  | [], _ => .fail .expression [] 0
  | t :: rest, h =>
    match t.kind with
    | .intLiteral | .realLiteral | .boolLiteral => .ok (.literal t) rest 2 (length_lt_succ rest)
    | .identifier => (reference self t rest h).after 1
    | .leftParen =>
      (self rest h).bind fun e rest _ =>
      (takeAfter .rightParen .expression rest).bind fun _ rest _ =>
      .ok e rest 0 (Nat.lt_succ_of_lt (by omega))
    | _ => .fail .expression (t :: rest) 0

/-- Reads prefix operators and the primary they apply to.  The operator next to the
primary is applied first. -/
def unary (self : Below n Expr) (tokens : List Token) (h : tokens.length ≤ n) :
    Reply Expr tokens.length :=
  (whileNext TokenKind.isUnary tokens fun us _ =>
    (takeIf TokenKind.isUnary .expression us).node).bind fun operators rest _ =>
  (primary self rest (by omega)).bind fun e rest _ =>
  .ok (operators.foldr .unary e) rest operators.length (by omega)

/-- Joins an operand with the operators and operands behind it, from the left. -/
def joinLeft (first : Expr) (others : List (Token × Expr)) : Expr :=
  others.foldl (fun left (operator, right) => .binary left operator right) first

/-- Reads an operator of a level and the operand behind it. -/
def operation (level : Nat)
    (operand : (tokens : List Token) → tokens.length ≤ n → Reply Expr tokens.length)
    (tokens : List Token) (h : tokens.length ≤ n) : Reply (Token × Expr) tokens.length :=
  (takeIf (·.level = level) .expression tokens).node.bind fun operator rest _ =>
  (operand rest (by omega)).bind fun right rest _ =>
  .ok (operator, right) rest 1 (by omega)

/-- Reads operands of the level below, with operators of this level between them. -/
def binary (self : Below n Expr) :
    (level : Nat) → (tokens : List Token) → tokens.length ≤ n → Reply Expr tokens.length
  | 0, tokens, h => unary self tokens h
  | level + 1, tokens, h =>
    (binary self level tokens h).bind fun first rest _ =>
    (whileNext (·.level = level + 1) rest fun us _ =>
      operation (level + 1) (binary self level) us (by omega)).bind fun others rest _ =>
    .ok (joinLeft first others) rest 0 (by omega)

end Grammar

/-- Reads an expression. -/
def expression (tokens : List Token) : Reply Expr tokens.length :=
  Grammar.binary (fun us (_ : us.length < tokens.length) => expression us)
    loosestLevel tokens (Nat.le_refl _)
termination_by tokens.length

end BlockSyntax
