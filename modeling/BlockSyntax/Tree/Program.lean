import BlockSyntax.Token.Basic

/-!
# Syntax trees

What a text means to the grammar.  An expression, statement or declaration holds the
tokens that tell it apart from others of its sort: names, literals, operators and
types.  Reserved words, brackets and separators that only give the structure are not
kept, and parentheses around an expression leave no trace.

A part that may be absent or repeated is an option or a list.  A name without indices
and a call without arguments have empty lists.

The items of a program stand in the order of the source.
-/

set_option autoImplicit false

namespace BlockSyntax

/-! ## Expressions -/

/-- An expression. -/
inductive Expr where
  /-- A number or truth value. -/
  | literal (token : Token)
  /-- A name, with the indices behind it. -/
  | reference (name : Token) (indices : List Expr)
  /-- A function applied to arguments. -/
  | call (name : Token) (arguments : List Expr)
  /-- An operator in front of its operand. -/
  | unary (operator : Token) (operand : Expr)
  /-- An operator between its operands. -/
  | binary (left : Expr) (operator : Token) (right : Expr)
  deriving Inhabited

/-! ## Statements -/

/-- A statement. -/
inductive Stmt where
  /-- Variables of a type, which may be an array type with the given dimensions. -/
  | declaration (type : Token) (dimensions names : List Token)
  /-- A value stored in a target. -/
  | assignment (value target : Expr)
  /-- The output of a value. -/
  | print (value : Expr)
  /-- The input of a target. -/
  | read (target : Expr)
  /-- A condition with its body, further conditions with theirs, and a last body for
  when none of them holds. -/
  | conditional (condition : Expr) (body : Stmt) (orIfs : List (Expr × Stmt))
      (otherwise : Option Stmt)
  /-- A body repeated while a counter goes from one bound to the other. -/
  | loop (counter : Token) (lower upper : Expr) (body : Stmt)
  /-- The end of a function, with its value if it has one. -/
  | result (value : Option Expr)
  /-- Statements one after the other. -/
  | block (body : List Stmt)
  /-- An expression evaluated for its effect. -/
  | evaluation (value : Expr)
  deriving Inhabited

/-- The statement is a block. -/
def Stmt.isBlock : Stmt → Bool
  | .block _ => true
  | _ => false

/-! ## Declarations and programs -/

/-- A parameter of a function. -/
structure Param where
  /-- Its name. -/
  name : Token
  /-- The reserved word of its type. -/
  type : Token
  deriving Inhabited

/-- A function. -/
structure Function where
  /-- Its name. -/
  name : Token
  /-- Its parameters. -/
  params : List Param
  /-- The reserved word of the type of its value. -/
  returnType : Token
  /-- Its body. -/
  body : Stmt
  deriving Inhabited

/-- An enumeration. -/
structure Enumeration where
  /-- Its name. -/
  name : Token
  /-- The names of its values. -/
  values : List Token
  deriving Inhabited

/-- What a program consists of. -/
inductive Item where
  | function (f : Function)
  | enumeration (e : Enumeration)
  | statement (s : Stmt)
  deriving Inhabited

/-- A program: its items in the order of the source. -/
structure Program where
  /-- The items. -/
  items : List Item
  deriving Inhabited

end BlockSyntax
