import BlockSyntax.Json.Basic
import BlockSyntax.Tree.Node

/-!
# Trees as JSON

A node becomes an object with its identifier and its name.  A terminal also has its
token: kind, spelling, line and column, but not the file.  Any other node with nodes
below it has those in an array, and a node without any has no such member.
-/

set_option autoImplicit false

namespace BlockSyntax

/-- The object of a token. -/
def Token.toJson (t : Token) : Json :=
  .object [(ascii "type", .text t.kind.name), (ascii "lexeme", .text t.lexeme),
    (ascii "line", .number t.location.line.toNat), (ascii "col", .number t.location.column.toNat)]

namespace Node

/-- The member that holds the nodes below a node, absent when there are none. -/
def childrenMember : List Json → List (Bytes × Json)
  | [] => []
  | below => [(ascii "children", .array below)]

mutual

/-- The object of a node. -/
def toJson : Node → Json
  | terminal i label t => .object [(ascii "id", .number i.toNat), (ascii "name", .text label),
      (ascii "token", t.toJson)]
  | list i label items => .object ((ascii "id", .number i.toNat) :: (ascii "name", .text label) ::
      childrenMember (toJsonAll items))
  | construct i c parts => .object ((ascii "id", .number i.toNat) :: (ascii "name", .text c.name) ::
      childrenMember (toJsonAll parts))

/-- The objects of several nodes. -/
def toJsonAll : List Node → List Json
  | [] => []
  | n :: ns => toJson n :: toJsonAll ns

end

/-- The JSON text of a tree. -/
def renderJson (layout : Json.Layout) (n : Node) : Bytes := n.toJson.render layout

end Node

end BlockSyntax
