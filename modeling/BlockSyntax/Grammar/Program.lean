import BlockSyntax.Grammar.Statement

/-!
# The grammar of programs

A program is a sequence of functions, enumerations and statements in any order, up to
the end of the source.

A function may open with `begin`, and then has to be closed: with `function` when its
body is a block, whose own `end` comes right before it, and with `end function`
otherwise.  Without `begin` an `end function` behind the body may be left out.

The semicolon behind an enumeration may be left out in front of another declaration
and at the end of the source.
-/

set_option autoImplicit false

namespace BlockSyntax

namespace Grammar

/-! ## Functions -/

/-- Reads a parameter. -/
def param (tokens : List Token) : Reply Param tokens.length :=
  (takeName .parameter tokens).bind fun name rest h₁ =>
  (takeAfter .colon .parameterName rest).bind fun _ rest h₂ =>
  (takeType rest).bind fun type rest h₃ =>
  .ok ⟨name, type⟩ rest 1 (length_lt_three h₁ h₂ h₃)

/-- Reads the parameters of a function in their parentheses. -/
def params (tokens : List Token) : Reply (List Param) tokens.length :=
  (takeAfter .leftParen .functionName tokens).bind fun _ rest _ =>
  (separatedUpTo .rightParen rest fun us _ => param us).bind fun ps rest _ =>
  (takeAfter .rightParen .parameters rest).bind fun _ rest _ =>
  .ok ps rest 1 (by omega)

/-- Reads the words behind the body of a function that opened with `begin`. -/
def closingBegun (body : Stmt) (tokens : List Token) : Reply Unit tokens.length :=
  if body.isBlock then (takeAfter .kwFunction (.word .kwEnd) tokens).map fun _ => ()
  else
    (takeAfter .kwEnd .functionBody tokens).bind fun _ rest h₁ =>
    (takeAfter .kwFunction (.word .kwEnd) rest).bind fun _ rest h₂ =>
    .ok () rest 0 (length_lt_two h₁ h₂)

/-- Reads a function behind the word `function`, given whether it opened with
`begin`. -/
def function (opened : Bool) (tokens : List Token) : Reply Function tokens.length :=
  (takeName .functionName tokens).bind fun name rest _ =>
  (params rest).bind fun ps rest _ =>
  (takeAfter .colon .parameters rest).bind fun _ rest _ =>
  (takeType rest).bind fun type rest _ =>
  (statement rest).bind fun body rest _ =>
  (if opened then (closingBegun body rest).widen (length_le_succ rest)
    else closing .kwFunction rest).bind fun _ rest _ =>
  .ok ⟨name, ps, type, body⟩ rest 1 (by omega)

/-! ## Enumerations -/

/-- The tokens in front of which an enumeration needs no semicolon. -/
def endsEnumeration (k : TokenKind) : Bool :=
  k = .eof || k = .kwFunction || k = .kwEnum || k.isType

/-- Reads the end of an enumeration. -/
def enumerationEnd (tokens : List Token) : Reply Unit (tokens.length + 1) :=
  if endsEnumeration (nextKind tokens) then .ok () tokens 0 (length_lt_succ tokens)
  else
    ((takeAfter .semicolon .enumDeclaration tokens).map fun _ => ()).widen (length_le_succ tokens)

/-- Reads an enumeration behind the word `enum`. -/
def enumeration (tokens : List Token) : Reply Enumeration tokens.length :=
  (takeName .enumName tokens).bind fun name rest _ =>
  (takeAfter .leftBrace .enumName rest).bind fun _ rest _ =>
  (separatedUpTo .rightBrace rest fun us _ =>
    (takeName .enumValue us).node).bind fun values rest _ =>
  (takeAfter .rightBrace .enumValues rest).bind fun _ rest _ =>
  (enumerationEnd rest).bind fun _ rest _ =>
  .ok ⟨name, values⟩ rest 2 (by omega)

/-! ## Items -/

/-- Reads a function, an enumeration or a statement, as the first token says. -/
def item : (tokens : List Token) → Reply Item tokens.length
  | [] => (statement []).map .statement
  | t :: rest =>
    match t.kind, nextKind rest with
    | .kwBegin, .kwFunction =>
      ((take .kwFunction rest).bind fun _ rest _ =>
        ((function true rest).map .function).widen (by omega)).widen (length_le_succ rest)
    | .kwFunction, _ => ((function false rest).map .function).widen (length_le_succ rest)
    | .kwEnum, _ => ((enumeration rest).map .enumeration).widen (length_le_succ rest)
    | _, _ => (statement (t :: rest)).map .statement

end Grammar

/-- Reads a program, which takes all tokens. -/
def program (tokens : List Token) : Reply Program (tokens.length + 1) :=
  (whileNext (· ≠ .eof) tokens fun us _ => Grammar.item us).bind fun items rest _ =>
  .ok ⟨items⟩ rest 1 (by omega)

end BlockSyntax
