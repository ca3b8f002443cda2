import BlockSyntax.Tree.Node

/-!
# Outlines

The outline of a tree has one line for each node, in preorder.  A line is indented
by two blanks for each node above it and gives the name and the identifier.
-/

set_option autoImplicit false

namespace BlockSyntax.Node

/-- The line of a node at a depth. -/
def outlineLine (depth : Nat) (n : Node) : Bytes :=
  List.replicate (2 * depth) (byte ' ') ++ (n.name ++ (ascii " (ID: " ++
    (decimal n.id.toNat ++ (byte ')' :: [lineFeed]))))

mutual

/-- Writes the outline of a tree at a depth, in front of the text that follows it. -/
def writeOutline (depth : Nat) (n : Node) (after : Bytes) : Bytes :=
  n.outlineLine depth ++ match n with
    | terminal _ _ _ => after
    | list _ _ items => writeOutlines (depth + 1) items after
    | construct _ _ parts => writeOutlines (depth + 1) parts after

/-- Writes the outlines of several trees at a depth. -/
def writeOutlines (depth : Nat) : List Node → Bytes → Bytes
  | [], after => after
  | n :: ns, after => writeOutline depth n (writeOutlines depth ns after)

end

/-- The outline of a tree. -/
def outline (n : Node) : Bytes := n.writeOutline 0 []

end BlockSyntax.Node
