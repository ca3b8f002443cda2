import BlockSyntax.Tree.Node
import BlockSyntax.Tree.Program

/-!
# Numbering

A parse gives out identifiers from a counter, one for every node, at the moment the
node is complete.  A part is complete before the whole, and parts are completed in the
order of the source, so numbering is a walk over the syntax tree that draws the next
identifier where a node is finished.  Two rules are not a plain walk from left to
right.  The dimension and name lists of a variable declaration are finished only at
its end, after all of their elements.  The items of a program are numbered in the
order of the source and then shown in three groups: functions, enumerations and
statements.

A list of indices or arguments is a node only when it has elements; the lists of
parameters, enumeration values, dimensions and variables always are.
-/

set_option autoImplicit false

namespace BlockSyntax

/-- A walk that draws identifiers from a counter. -/
abbrev Numbered := StateM NodeId

namespace Numbered

/-- Draws the next identifier. -/
def draw : Numbered NodeId := fun next => (next, next + 1)

/-- A terminal with the next identifier. -/
def terminal (label : String) (t : Token) : Numbered Node := do
  return .terminal (← draw) (ascii label) t

/-- A list with the next identifier. -/
def list (label : String) (items : List Node) : Numbered Node := do
  return .list (← draw) (ascii label) items

/-- A list with the next identifier, or no node when there is nothing in it. -/
def listUnlessEmpty (label : String) (items : List Node) : Numbered (List Node) :=
  if items.isEmpty then return [] else return [← list label items]

/-- A construct with the next identifier. -/
def construct (form : Construct) (parts : List Node) : Numbered Node := do
  return .construct (← draw) form parts

/-- A construct over one terminal. -/
def leaf (form : Construct) (label : String) (t : Token) : Numbered Node := do
  construct form [← terminal label t]

end Numbered

open Numbered

/-! ## Expressions -/

mutual

/-- Numbers an expression. -/
def Expr.number : Expr → Numbered Node
  | .literal t => leaf .literal "Value" t
  | .reference name indices => do
    let n ← terminal "VarName" name
    let is ← listUnlessEmpty "Indices" (← Expr.numberAll indices)
    construct .reference (n :: is)
  | .call name arguments => do
    let n ← terminal "FunctionName" name
    let as ← listUnlessEmpty "Arguments" (← Expr.numberAll arguments)
    construct .call (n :: as)
  | .unary operator operand => do
    let o ← terminal "Operator" operator
    let e ← operand.number
    construct .unary [o, e]
  | .binary left operator right => do
    let l ← left.number
    let o ← terminal "Operator" operator
    let r ← right.number
    construct .binary [l, o, r]

/-- Numbers expressions in order. -/
def Expr.numberAll : List Expr → Numbered (List Node)
  | [] => return []
  | e :: es => do
    let n ← e.number
    let ns ← Expr.numberAll es
    return n :: ns

end

/-! ## Statements -/

mutual

/-- Numbers a statement. -/
def Stmt.number : Stmt → Numbered Node
  | .declaration type dimensions names => do
    let t ← terminal "Type" type
    let ds ← dimensions.mapM (leaf .literal "Value")
    let vs ← names.mapM (leaf .declarationItem "VarName")
    let d ← list "Dimensions" ds
    let v ← list "Variables" vs
    construct .declaration [t, d, v]
  | .assignment value target => do
    let v ← value.number
    let t ← target.number
    construct .assignment [v, t]
  | .print value => do construct .print [← value.number]
  | .read target => do construct .read [← target.number]
  | .conditional condition body orIfs otherwise => do
    let c ← condition.number
    let b ← body.number
    let os ← Stmt.numberOrIfs orIfs
    let e ← Stmt.numberOption otherwise
    construct .conditional (c :: b :: (os ++ e))
  | .loop counter lower upper body => do
    let c ← terminal "VarName" counter
    let l ← lower.number
    let u ← upper.number
    let b ← body.number
    construct .loop [c, l, u, b]
  | .result none => construct .result []
  | .result (some value) => do construct .result [← value.number]
  | .block body => do construct .block (← Stmt.numberAll body)
  | .evaluation value => do construct .evaluation [← value.number]

/-- Numbers statements in order. -/
def Stmt.numberAll : List Stmt → Numbered (List Node)
  | [] => return []
  | s :: ss => do
    let n ← s.number
    let ns ← Stmt.numberAll ss
    return n :: ns

/-- Numbers the further conditions of a conditional with their bodies. -/
def Stmt.numberOrIfs : List (Expr × Stmt) → Numbered (List Node)
  | [] => return []
  | (condition, body) :: rest => do
    let c ← condition.number
    let b ← body.number
    let n ← construct .orIf [c, b]
    let ns ← Stmt.numberOrIfs rest
    return n :: ns

/-- Numbers a statement that may be absent. -/
def Stmt.numberOption : Option Stmt → Numbered (List Node)
  | none => return []
  | some s => do return [← s.number]

end

/-! ## Declarations and programs -/

/-- Numbers a parameter. -/
def Param.number (p : Param) : Numbered Node := do
  let n ← terminal "ParamName" p.name
  let t ← terminal "ParamType" p.type
  construct .parameter [n, t]

/-- Numbers a function. -/
def Function.number (f : Function) : Numbered Node := do
  let n ← terminal "FunctionName" f.name
  let ps ← list "Params" (← f.params.mapM Param.number)
  let t ← terminal "ReturnType" f.returnType
  let b ← f.body.number
  construct .function [n, ps, t, b]

/-- Numbers an enumeration. -/
def Enumeration.number (e : Enumeration) : Numbered Node := do
  let n ← terminal "EnumName" e.name
  let vs ← list "Values" (← e.values.mapM (leaf .enumValue "ValueName"))
  construct .enumeration [n, vs]

/-- The numbered items of a program in their three groups. -/
structure Groups where
  /-- The functions. -/
  functions : List Node
  /-- The enumerations. -/
  enumerations : List Node
  /-- The statements. -/
  statements : List Node

/-- Numbers items in the order of the source and groups them. -/
def Item.numberAll : List Item → Numbered Groups
  | [] => return ⟨[], [], []⟩
  | .function f :: items => do
    let n ← f.number
    let g ← Item.numberAll items
    return { g with functions := n :: g.functions }
  | .enumeration e :: items => do
    let n ← e.number
    let g ← Item.numberAll items
    return { g with enumerations := n :: g.enumerations }
  | .statement s :: items => do
    let n ← s.number
    let g ← Item.numberAll items
    return { g with statements := n :: g.statements }

/-- Numbers a program. -/
def Program.number (p : Program) : Numbered Node := do
  let g ← Item.numberAll p.items
  construct .program (g.functions ++ g.enumerations ++ g.statements)

end BlockSyntax
