import BlockSyntax.Grammar.Parser

/-!
# The routines of a parser

The grammar of `BlockSyntax.Grammar.Program` as the routines of a parser that takes one
token after the other.  Each routine makes the numbered tree of what it reads, node by
node, and a list is kept of what the rounds of a loop have made.

The routines for what stands inside an expression or a statement take as `self` the
routine for the expression or statement inside; `expression` and `statement` close the
circle.
-/

set_option autoImplicit false

namespace BlockSyntax

namespace Parse

/-! ## Expressions -/

/-- Reads items separated by commas, or none in front of the closing mark, which is left. -/
def separatedUpTo (close : TokenKind) (item : Parse Node) : Parse (List Node) := do
  if (← kindAt 0) = close then return [] else separated item

/-- Reads an index in brackets, if one follows. -/
def index (self : Parse Node) : Parse (Option Node) := do
  if ← accept .leftBracket then
    let index ← self
    let _ ← expect .rightBracket (.tokenAfter .rightBracket .index)
    return some index
  else return none

/-- Reads what follows a name: arguments in parentheses, or indices in brackets. -/
def reference (self : Parse Node) (name : Token) : Parse Node := do
  if (← kindAt 0) = .leftParen then
    let name ← terminal "FunctionName" name
    let _ ← advance
    let arguments ← separatedUpTo .rightParen self
    let _ ← expect .rightParen (.tokenAfter .rightParen .arguments)
    let arguments ← listUnlessEmpty "Arguments" arguments
    construct .call (name :: arguments)
  else
    let name ← terminal "VarName" name
    let indices ← collect (index self)
    let indices ← listUnlessEmpty "Indices" indices
    construct .reference (name :: indices)

/-- Reads a literal, a name with what follows it, or an expression in parentheses. -/
def primary (self : Parse Node) : Parse Node := do
  match ← kindAt 0 with
  | .intLiteral | .realLiteral | .boolLiteral =>
    let value ← advance
    construct .literal [← terminal "Value" value]
  | .identifier =>
    let name ← advance
    reference self name
  | .leftParen =>
    let _ ← advance
    let inside ← self
    let _ ← expect .rightParen (.tokenAfter .rightParen .expression)
    return inside
  | _ =>
    error .expression
    failure

/-- Reads a prefix operator and its operand, which may have another in front of it, or a
primary.  The routines inside are given by their levels. -/
def unary (self : Nat → Parse Node) : Parse Node := do
  match ← acceptIf TokenKind.isUnary with
  | some operator =>
    let operator ← terminal "Operator" operator
    let operand ← self 0
    construct .unary [operator, operand]
  | none => primary (self loosestLevel)

/-- Joins an operand with an operator of a level and the operand behind it, if they follow. -/
def operation (level : Nat) (operand : Parse Node) (left : Node) : Parse (Option Node) := do
  match ← acceptIf (·.level = level) with
  | some operator =>
    let operator ← terminal "Operator" operator
    let right ← operand
    return some (← construct .binary [left, operator, right])
  | none => return none

/-- Reads operands of the level below, with operators of this level between them. -/
def binary (self : Nat → Parse Node) : Nat → Parse Node
  | 0 => unary self
  | level + 1 => do
    let first ← binary self level
    loop (operation (level + 1) (binary self level)) first

/-- Reads an operand of a level. -/
def operand : Nat → Parse Node := recursive binary

/-- Reads an expression. -/
def expression : Parse Node := operand loosestLevel

/-! ## Statements -/

/-- Reads an expression in parentheses, behind the given part of a construct. -/
def parenthesized (before inside : Part) : Parse Node := do
  let _ ← expect .leftParen (.tokenAfter .leftParen before)
  let value ← expression
  let _ ← expect .rightParen (.tokenAfter .rightParen inside)
  return value

/-- Reads a dimension of an array type, if one follows. -/
def dimension : Parse (Option Node) := do
  if ← accept .leftBracket then
    let size ← expect .intLiteral .dimension
    let size ← construct .literal [← terminal "Value" size]
    let _ ← expect .rightBracket (.tokenAfter .rightBracket .arrayDimension)
    return some size
  else return none

/-- Reads a name that is an item of a list. -/
def nameItem (role : NameRole) (form : Construct) (label : String) : Parse Node := do
  let name ← expect .identifier (.name role)
  construct form [← terminal label name]

/-- Reads a variable declaration behind its type. -/
def declaration (type : Token) : Parse Node := do
  let type ← terminal "Type" type
  let dimensions ← collect dimension
  let names ← separated (nameItem .variableName .declarationItem "VarName")
  let _ ← expect .semicolon (.tokenAfter .semicolon .variableDeclaration)
  let dimensions ← list "Dimensions" dimensions
  let names ← list "Variables" names
  construct .declaration [type, dimensions, names]

/-- Reads a `print` statement behind its first word. -/
def print : Parse Node := do
  let value ← parenthesized (.word .kwPrint) .expression
  let _ ← expect .semicolon (.tokenAfter .semicolon .printStatement)
  construct .print [value]

/-- Reads a `read` statement behind its first word. -/
def read : Parse Node := do
  let target ← parenthesized (.word .kwRead) .expression
  let _ ← expect .semicolon (.tokenAfter .semicolon .readStatement)
  construct .read [target]

/-- Reads the value of a `return` statement, if it has one. -/
def resultValue : Parse (List Node) := do
  if Grammar.endsResult (← kindAt 0) then return [] else return [← expression]

/-- Reads a `return` statement behind its first word. -/
def result : Parse Node := do
  let value ← resultValue
  let next ← kindAt 0
  if next = .kwEnd ∨ next = .eof then construct .result value
  else
    let _ ← expect .semicolon (.tokenAfter .semicolon .returnStatement)
    construct .result value

/-- Reads an assignment, or an expression as a statement. -/
def assignmentOrEvaluation : Parse Node := do
  let value ← expression
  if ← accept .assignArrow then
    let target ← expression
    let _ ← expect .semicolon (.tokenAfter .semicolon .assignment)
    construct .assignment [value, target]
  else
    let _ ← expect .semicolon (.tokenAfter .semicolon .expression)
    construct .evaluation [value]

/-- Reads a further condition with its body, if one follows. -/
def orIf (self : Parse Node) : Parse (Option Node) := do
  if ← accept .kwOr then
    let _ ← expect .kwIf (.tokenAfter .kwIf (.word .kwOr))
    let condition ← parenthesized (.word .kwIf) .condition
    let body ← self
    return some (← construct .orIf [condition, body])
  else return none

/-- Reads the body for when no condition holds, if there is one. -/
def otherwise (self : Parse Node) : Parse (List Node) := do
  if ← accept .kwElse then return [← self] else return []

/-- Reads a conditional behind its `if`. -/
def conditional (self : Parse Node) : Parse Node := do
  let condition ← parenthesized (.word .kwIf) .condition
  let body ← self
  let orIfs ← collect (orIf self)
  let last ← otherwise self
  let _ ← accept .kwEnd
  construct .conditional (condition :: body :: (orIfs ++ last))

/-- Reads the words that may close a construct: nothing, or `end` and the given word. -/
def closing (k : TokenKind) : Parse Unit := do
  if ← accept .kwEnd then
    let _ ← expect k (.tokenAfter k (.word .kwEnd))

/-- Reads a loop behind its `for`. -/
def counting (self : Parse Node) : Parse Node := do
  let _ ← expect .leftParen (.tokenAfter .leftParen (.word .kwFor))
  let counter ← expect .identifier (.name .loopVariable)
  let counter ← terminal "VarName" counter
  let _ ← expect .kwGoes (.token .kwGoes)
  let _ ← expect .kwFrom (.token .kwFrom)
  let lower ← expression
  let _ ← expect .kwTo (.token .kwTo)
  let upper ← expression
  let _ ← expect .rightParen (.tokenAfter .rightParen .loopBounds)
  let body ← self
  closing .kwFor
  construct .loop [counter, lower, upper, body]

/-- Reads a statement of a block, if the block does not end here. -/
def blockItem (self : Parse Node) : Parse (Option Node) := do
  let next ← kindAt 0
  if next ≠ .kwEnd ∧ next ≠ .eof then return some (← self) else return none

/-- Reads a block behind its `begin`. -/
def block (self : Parse Node) : Parse Node := do
  let body ← collect (blockItem self)
  let _ ← expect .kwEnd (.token .kwEnd)
  construct .block body

/-- Reads a statement whose inner statements `self` reads. -/
def statementAround (self : Parse Node) : Parse Node := do
  match ← kindAt 0 with
  | .kwBegin =>
    match ← kindAt 1 with
    | .kwIf =>
      let _ ← advance
      let _ ← advance
      conditional self
    | .kwFor =>
      let _ ← advance
      let _ ← advance
      counting self
    | _ =>
      let _ ← advance
      block self
  | .kwInt | .kwReal | .kwBool =>
    let type ← advance
    declaration type
  | .kwPrint =>
    let _ ← advance
    print
  | .kwRead =>
    let _ ← advance
    read
  | .kwReturn =>
    let _ ← advance
    result
  | .kwIf =>
    let _ ← advance
    conditional self
  | .kwFor =>
    let _ ← advance
    counting self
  | _ => assignmentOrEvaluation

/-- Reads a statement. -/
def statement : Parse Node := recursive (fun self _ => statementAround (self ())) ()

/-! ## Programs -/

/-- Reads the reserved word of a type. -/
def typeWord : Parse Token := expectIf TokenKind.isType .typeName

/-- Reads a parameter. -/
def param : Parse Node := do
  let name ← expect .identifier (.name .parameter)
  let name ← terminal "ParamName" name
  let _ ← expect .colon (.tokenAfter .colon .parameterName)
  let type ← typeWord
  let type ← terminal "ParamType" type
  construct .parameter [name, type]

/-- Reads the parameters of a function in their parentheses. -/
def params : Parse Node := do
  let _ ← expect .leftParen (.tokenAfter .leftParen .functionName)
  if ← accept .rightParen then list "Params" []
  else
    let params ← separated param
    let _ ← expect .rightParen (.tokenAfter .rightParen .parameters)
    list "Params" params

/-- Reads the words behind the body of a function that opened with `begin`. -/
def closingBegun (body : Node) : Parse Unit := do
  if body.kind ≠ .construct .block then
    let _ ← expect .kwEnd (.tokenAfter .kwEnd .functionBody)
  let _ ← expect .kwFunction (.tokenAfter .kwFunction (.word .kwEnd))

/-- Reads a function behind the word `function`, given whether it opened with `begin`. -/
def function (opened : Bool) : Parse Node := do
  let name ← expect .identifier (.name .functionName)
  let name ← terminal "FunctionName" name
  let params ← params
  let _ ← expect .colon (.tokenAfter .colon .parameters)
  let type ← typeWord
  let type ← terminal "ReturnType" type
  let body ← statement
  if opened then closingBegun body else closing .kwFunction
  construct .function [name, params, type, body]

/-- Reads the end of an enumeration. -/
def enumerationEnd : Parse Unit := do
  if Grammar.endsEnumeration (← kindAt 0) then return ()
  else
    let _ ← expect .semicolon (.tokenAfter .semicolon .enumDeclaration)

/-- Reads an enumeration behind the word `enum`. -/
def enumeration : Parse Node := do
  let name ← expect .identifier (.name .enumName)
  let name ← terminal "EnumName" name
  let _ ← expect .leftBrace (.tokenAfter .leftBrace .enumName)
  let values ← separatedUpTo .rightBrace (nameItem .enumValue .enumValue "ValueName")
  let _ ← expect .rightBrace (.tokenAfter .rightBrace .enumValues)
  enumerationEnd
  let values ← list "Values" values
  construct .enumeration [name, values]

/-- Reads a function, an enumeration or a statement and puts it behind those of its sort,
unless the source ends here. -/
def item (items : Groups) : Parse (Option Groups) := do
  match ← kindAt 0, ← kindAt 1 with
  | .eof, _ => return none
  | .kwBegin, .kwFunction =>
    let _ ← advance
    let _ ← advance
    return some { items with functions := items.functions ++ [← function true] }
  | .kwFunction, _ =>
    let _ ← advance
    return some { items with functions := items.functions ++ [← function false] }
  | .kwEnum, _ =>
    let _ ← advance
    return some { items with enumerations := items.enumerations ++ [← enumeration] }
  | _, _ => return some { items with statements := items.statements ++ [← statement] }

/-- Reads a program. -/
def program : Parse Node := do
  let items ← loop item ⟨[], [], []⟩
  construct .program (items.functions ++ items.enumerations ++ items.statements)

end Parse

/-! ## Requests -/

/-- The routine that reads what is asked for. -/
def Goal.routine : Goal → Parse Node
  | program => .program
  | statement => .statement
  | expression => .expression

/-- Asks a parser for a program, a statement or an expression: its tree, if one is made, and
the parser afterwards. -/
def Parser.request (p : Parser) (goal : Goal) : Option Node × Parser := goal.routine.run p

/-- The parser after an event. -/
def Parser.after (p : Parser) : Session.Event → Parser
  | .ask goal => (p.request goal).2
  | .moved nextId => { p with nextId := nextId }

end BlockSyntax
