import BlockSyntax.Tree.Program

/-!
# Other tokens in the same tree

A syntax tree holds tokens, and what the tree is does not depend on which tokens they are:
`mapTokens` puts others in their places and changes nothing else.  It is used for tokens
that differ only in their spelling or location, such as those of one text in two files.
-/

set_option autoImplicit false

namespace BlockSyntax

variable (f : Token → Token)

mutual

/-- The expression with other tokens. -/
def Expr.mapTokens : Expr → Expr
  | .literal t => .literal (f t)
  | .reference name indices => .reference (f name) (Expr.mapTokensAll indices)
  | .call name arguments => .call (f name) (Expr.mapTokensAll arguments)
  | .unary operator operand => .unary (f operator) operand.mapTokens
  | .binary left operator right => .binary left.mapTokens (f operator) right.mapTokens

/-- The expressions with other tokens. -/
def Expr.mapTokensAll : List Expr → List Expr
  | [] => []
  | e :: es => e.mapTokens :: Expr.mapTokensAll es

end

mutual

/-- The statement with other tokens. -/
def Stmt.mapTokens : Stmt → Stmt
  | .declaration type dimensions names =>
      .declaration (f type) (dimensions.map f) (names.map f)
  | .assignment value target => .assignment (value.mapTokens f) (target.mapTokens f)
  | .print value => .print (value.mapTokens f)
  | .read target => .read (target.mapTokens f)
  | .conditional condition body orIfs otherwise =>
      .conditional (condition.mapTokens f) body.mapTokens (Stmt.mapTokensOrIfs orIfs)
        (Stmt.mapTokensOption otherwise)
  | .loop counter lower upper body =>
      .loop (f counter) (lower.mapTokens f) (upper.mapTokens f) body.mapTokens
  | .result value => .result (value.map (Expr.mapTokens f))
  | .block body => .block (Stmt.mapTokensAll body)
  | .evaluation value => .evaluation (value.mapTokens f)

/-- The statements with other tokens. -/
def Stmt.mapTokensAll : List Stmt → List Stmt
  | [] => []
  | s :: ss => s.mapTokens :: Stmt.mapTokensAll ss

/-- The further conditions and their bodies with other tokens. -/
def Stmt.mapTokensOrIfs : List (Expr × Stmt) → List (Expr × Stmt)
  | [] => []
  | (condition, body) :: orIfs =>
      (condition.mapTokens f, body.mapTokens) :: Stmt.mapTokensOrIfs orIfs

/-- The statement that may be absent with other tokens. -/
def Stmt.mapTokensOption : Option Stmt → Option Stmt
  | none => none
  | some s => some s.mapTokens

end

/-- The parameter with other tokens. -/
def Param.mapTokens (p : Param) : Param := ⟨f p.name, f p.type⟩

/-- The function with other tokens. -/
def Function.mapTokens (g : Function) : Function :=
  ⟨f g.name, g.params.map (Param.mapTokens f), f g.returnType, g.body.mapTokens f⟩

/-- The enumeration with other tokens. -/
def Enumeration.mapTokens (e : Enumeration) : Enumeration := ⟨f e.name, e.values.map f⟩

/-- The item with other tokens. -/
def Item.mapTokens : Item → Item
  | .function g => .function (g.mapTokens f)
  | .enumeration e => .enumeration (e.mapTokens f)
  | .statement s => .statement (s.mapTokens f)

/-- The program with other tokens. -/
def Program.mapTokens (p : Program) : Program := ⟨p.items.map (Item.mapTokens f)⟩

/-! ## Lists -/

theorem Expr.mapTokensAll_eq_map (es : List Expr) :
    Expr.mapTokensAll f es = es.map (Expr.mapTokens f) := by
  induction es with
  | nil => rfl
  | cons e es ih => rw [Expr.mapTokensAll, ih, List.map_cons]

theorem Stmt.mapTokensAll_eq_map (ss : List Stmt) :
    Stmt.mapTokensAll f ss = ss.map (Stmt.mapTokens f) := by
  induction ss with
  | nil => rfl
  | cons s ss ih => rw [Stmt.mapTokensAll, ih, List.map_cons]

/-- A further condition and its body with other tokens. -/
def orIfMapTokens (branch : Expr × Stmt) : Expr × Stmt :=
  (branch.1.mapTokens f, branch.2.mapTokens f)

theorem Stmt.mapTokensOrIfs_eq_map (orIfs : List (Expr × Stmt)) :
    Stmt.mapTokensOrIfs f orIfs = orIfs.map (orIfMapTokens f) := by
  induction orIfs with
  | nil => rfl
  | cons branch orIfs ih => rw [Stmt.mapTokensOrIfs, ih, List.map_cons, orIfMapTokens]

theorem Stmt.mapTokensOption_eq_map (last : Option Stmt) :
    Stmt.mapTokensOption f last = last.map (Stmt.mapTokens f) := by
  cases last with
  | none => rfl
  | some s => rw [Stmt.mapTokensOption, Option.map_some]

theorem Stmt.isBlock_mapTokens (s : Stmt) : (s.mapTokens f).isBlock = s.isBlock := by
  cases s <;> rfl

end BlockSyntax
