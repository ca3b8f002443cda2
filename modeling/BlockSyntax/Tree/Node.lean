import BlockSyntax.Token.Basic

/-!
# Numbered trees

The form in which a syntax tree is shown: a tree of nodes that each carry an
identifier.  A node is a terminal, which holds one token under a label; a list,
which holds nodes of one sort under a label; or a construct of the language over
the nodes it is made of.  A list is a node of its own even when it is empty, while
a part that a construct lacks has no node at all.

Identifiers are words of 64 bits and mean nothing beyond being given: any
identifiers may stand in a tree.  How a parse gives them out is the subject of
`BlockSyntax.Tree.Numbering`.
-/

set_option autoImplicit false

namespace BlockSyntax

/-- The identifier of a node. -/
abbrev NodeId := UInt64

/-- Counting on in two steps, also where the counter runs over. -/
theorem toUInt64_add (k l : Nat) : (k + l).toUInt64 = k.toUInt64 + l.toUInt64 :=
  UInt64.ofNat_add k l

/-- The constructs of the language. -/
inductive Construct where
  | program
  | enumeration
  | enumValue
  | function
  | parameter
  | declaration
  | declarationItem
  | assignment
  | print
  | read
  | conditional
  | orIf
  | loop
  | result
  | block
  | evaluation
  | binary
  | unary
  | literal
  | reference
  | call
  deriving DecidableEq

/-- The name a construct is shown under. -/
def Construct.name : Construct → Bytes
  | program => ascii "Program"
  | enumeration => ascii "Enum"
  | enumValue => ascii "EnumValue"
  | function => ascii "Function"
  | parameter => ascii "Param"
  | declaration => ascii "VarDecl"
  | declarationItem => ascii "VarDeclItem"
  | assignment => ascii "Assignment"
  | print => ascii "Print"
  | read => ascii "Read"
  | conditional => ascii "If"
  | orIf => ascii "OrIf"
  | loop => ascii "For"
  | result => ascii "Return"
  | block => ascii "Block"
  | evaluation => ascii "ExpressionStatement"
  | binary => ascii "BinaryExpr"
  | unary => ascii "UnaryExpr"
  | literal => ascii "Literal"
  | reference => ascii "Variable"
  | call => ascii "Call"

/-- The sorts of nodes. -/
inductive NodeKind where
  /-- A construct of the language. -/
  | construct (c : Construct)
  /-- A token. -/
  | terminal
  /-- Several nodes of one sort. -/
  | list
  deriving DecidableEq

namespace NodeKind

/-- Every sort of node: the constructs, then terminals and lists. -/
def all : List NodeKind :=
  [Construct.program, .enumeration, .enumValue, .function, .parameter, .declaration,
    .declarationItem, .assignment, .print, .read, .conditional, .orIf, .loop, .result, .block,
    .evaluation, .binary, .unary, .literal, .reference, .call].map construct
    ++ [terminal, list]

/-- The name of a sort of node. -/
def name : NodeKind → Bytes
  | construct c => c.name
  | terminal => ascii "Terminal"
  | list => ascii "List"

end NodeKind

/-- A node of a numbered tree, with the nodes below it. -/
inductive Node where
  /-- One token under a label. -/
  | terminal (id : NodeId) (label : Bytes) (token : Token)
  /-- Nodes of one sort under a label. -/
  | list (id : NodeId) (label : Bytes) (items : List Node)
  /-- A construct over its parts, in the order in which they are shown. -/
  | construct (id : NodeId) (form : Construct) (parts : List Node)

namespace Node

/-- The identifier of a node. -/
def id : Node → NodeId
  | terminal i _ _ | list i _ _ | construct i _ _ => i

/-- The sort of a node. -/
def kind : Node → NodeKind
  | terminal _ _ _ => .terminal
  | list _ _ _ => .list
  | construct _ c _ => .construct c

/-- The name a node is shown under: its label if it has one, else its construct. -/
def name : Node → Bytes
  | terminal _ label _ | list _ label _ => label
  | construct _ c _ => c.name

/-- The nodes directly below a node. -/
def children : Node → List Node
  | terminal _ _ _ => []
  | list _ _ items => items
  | construct _ _ parts => parts

mutual

/-- The nodes of a tree, each in front of those below it. -/
def preorder (n : Node) : List Node :=
  n :: match n with
    | terminal _ _ _ => []
    | list _ _ items => preorderAll items
    | construct _ _ parts => preorderAll parts

/-- The nodes of several trees, one tree after the other. -/
def preorderAll : List Node → List Node
  | [] => []
  | n :: ns => preorder n ++ preorderAll ns

end

mutual

/-- The number of nodes of a tree. -/
def count : Node → Nat
  | terminal _ _ _ => 1
  | list _ _ items => countAll items + 1
  | construct _ _ parts => countAll parts + 1

/-- The number of nodes of several trees. -/
def countAll : List Node → Nat
  | [] => 0
  | n :: ns => count n + countAll ns

end

end Node

end BlockSyntax
