import BlockSyntax.Proofs.TokenMaps
import BlockSyntax.Tree.Numbering

/-!
# Numbering from another counter

A tree that is numbered from a counter further on has the same nodes with greater
identifiers, all by the same amount.  With other tokens in the syntax tree the numbered tree
has other tokens, and nothing else of it changes (`Program.number_moves`).

This is proved of walks: a walk moves with another when the other, from the moved counter,
gives the moved value and leaves the moved counter.  Walks that move can be put one behind the
other, so the proof follows the numbering of each construct.  The arithmetic is that of the
counter, which may run over.
-/

set_option autoImplicit false

namespace BlockSyntax

/-! ## Trees with other identifiers -/

namespace Node

variable (f : Token → Token) (k : NodeId)

mutual

/-- The tree with other tokens and its identifiers moved. -/
def moved : Node → Node
  | .terminal i label t => .terminal (i + k) label (f t)
  | .list i label items => .list (i + k) label (movedAll items)
  | .construct i form parts => .construct (i + k) form (movedAll parts)

/-- The trees with other tokens and their identifiers moved. -/
def movedAll : List Node → List Node
  | [] => []
  | n :: ns => n.moved :: movedAll ns

end

theorem movedAll_eq_map (ns : List Node) : movedAll f k ns = ns.map (moved f k) := by
  induction ns with
  | nil => rfl
  | cons n ns ih => rw [movedAll, ih, List.map_cons]

end Node

namespace Numbered

/-! ## Walks -/

/-- The other walk, from the moved counter, gives the other value and leaves the moved
counter. -/
def Moves {α β : Type} (k : NodeId) (v : α → β) (walk : Numbered α) (walk' : Numbered β) : Prop :=
  ∀ next, walk' (next + k) = (v (walk next).1, (walk next).2 + k)

namespace Moves

variable {α β γ δ : Type} {f : Token → Token} {k : NodeId} {v : α → β}

theorem pure (a : α) {b : β} (same : b = v a) :
    Moves k v (Pure.pure a : Numbered α) (Pure.pure b : Numbered β) := by
  intro next
  rw [same]
  rfl

theorem bind {w : γ → δ} {walk : Numbered α} {walk' : Numbered β} {next : α → Numbered γ}
    {next' : β → Numbered δ} (first : Moves k v walk walk')
    (behind : ∀ a, Moves k w (next a) (next' (v a))) :
    Moves k w (walk >>= next) (walk' >>= next') := by
  intro start
  show next' (walk' (start + k)).1 (walk' (start + k)).2 =
    (w (next (walk start).1 (walk start).2).1, (next (walk start).1 (walk start).2).2 + k)
  rw [first start]
  exact behind (walk start).1 (walk start).2

theorem draw : Moves k (· + k) Numbered.draw Numbered.draw := by
  intro next
  have counter : next + k + 1 = next + 1 + k := by
    rw [UInt64.add_assoc, UInt64.add_comm k, ← UInt64.add_assoc]
  exact congrArg (Prod.mk (next + k)) counter

theorem terminal {label : String} {t : Token} :
    Moves k (Node.moved f k) (Numbered.terminal label t) (Numbered.terminal label (f t)) :=
  .bind draw fun _ => .pure _ (by rw [Node.moved])

theorem list {label : String} {items items' : List Node}
    (same : items' = items.map (Node.moved f k)) :
    Moves k (Node.moved f k) (Numbered.list label items) (Numbered.list label items') :=
  .bind draw fun _ => .pure _ (by rw [Node.moved, Node.movedAll_eq_map, same])

theorem construct {form : Construct} {parts parts' : List Node}
    (same : parts' = parts.map (Node.moved f k)) :
    Moves k (Node.moved f k) (Numbered.construct form parts) (Numbered.construct form parts') :=
  .bind draw fun _ => .pure _ (by rw [Node.moved, Node.movedAll_eq_map, same])

theorem listUnlessEmpty {label : String} {items : List Node} :
    Moves k (List.map (Node.moved f k)) (Numbered.listUnlessEmpty label items)
      (Numbered.listUnlessEmpty label (items.map (Node.moved f k))) := by
  cases items with
  | nil => exact .pure _ rfl
  | cons n ns => exact .bind (list rfl) fun _ => .pure _ rfl

theorem leaf {form : Construct} {label : String} {t : Token} :
    Moves k (Node.moved f k) (Numbered.leaf form label t) (Numbered.leaf form label (f t)) :=
  .bind terminal fun _ => construct rfl

/-- A walk over a list moves when the walk over an element does. -/
theorem mapM {w : γ → δ} {walk : α → Numbered γ} {walk' : β → Numbered δ}
    (each : ∀ a, Moves k w (walk a) (walk' (v a))) (as : List α) :
    Moves k (List.map w) (as.mapM walk) ((as.map v).mapM walk') := by
  induction as with
  | nil => exact .pure _ rfl
  | cons a as ih =>
      rw [List.mapM_cons, List.map_cons, List.mapM_cons]
      exact .bind (each a) fun _ => .bind ih fun _ => .pure _ rfl

end Moves

end Numbered

open Numbered

/-! ## Expressions -/

variable {f : Token → Token} {k : NodeId}

mutual

theorem Expr.number_moves : ∀ e : Expr,
    Moves k (Node.moved f k) e.number (e.mapTokens f).number
  | .literal t => by
      rw [Expr.number, Expr.mapTokens, Expr.number]
      exact .leaf
  | .reference name indices => by
      rw [Expr.number, Expr.mapTokens, Expr.number]
      exact .bind .terminal fun _ => .bind (Expr.numberAll_moves indices) fun _ =>
        .bind .listUnlessEmpty fun _ => .construct rfl
  | .call name arguments => by
      rw [Expr.number, Expr.mapTokens, Expr.number]
      exact .bind .terminal fun _ => .bind (Expr.numberAll_moves arguments) fun _ =>
        .bind .listUnlessEmpty fun _ => .construct rfl
  | .unary operator operand => by
      rw [Expr.number, Expr.mapTokens, Expr.number]
      exact .bind .terminal fun _ => .bind operand.number_moves fun _ => .construct rfl
  | .binary left operator right => by
      rw [Expr.number, Expr.mapTokens, Expr.number]
      exact .bind left.number_moves fun _ => .bind .terminal fun _ =>
        .bind right.number_moves fun _ => .construct rfl

theorem Expr.numberAll_moves : ∀ es : List Expr,
    Moves k (List.map (Node.moved f k)) (Expr.numberAll es)
      (Expr.numberAll (Expr.mapTokensAll f es))
  | [] => by
      rw [Expr.mapTokensAll, Expr.numberAll]
      exact .pure _ rfl
  | e :: es => by
      rw [Expr.mapTokensAll, Expr.numberAll, Expr.numberAll]
      exact .bind e.number_moves fun _ => .bind (Expr.numberAll_moves es) fun _ => .pure _ rfl

end

/-! ## Statements -/

mutual

theorem Stmt.number_moves : ∀ s : Stmt,
    Moves k (Node.moved f k) s.number (s.mapTokens f).number
  | .declaration type dimensions names => by
      rw [Stmt.number, Stmt.mapTokens, Stmt.number]
      exact .bind .terminal fun _ => .bind (.mapM (fun _ => .leaf) dimensions) fun _ =>
        .bind (.mapM (fun _ => .leaf) names) fun _ => .bind (.list rfl) fun _ =>
        .bind (.list rfl) fun _ => .construct rfl
  | .assignment value target => by
      rw [Stmt.number, Stmt.mapTokens, Stmt.number]
      exact .bind value.number_moves fun _ => .bind target.number_moves fun _ => .construct rfl
  | .print value => by
      rw [Stmt.number, Stmt.mapTokens, Stmt.number]
      exact .bind value.number_moves fun _ => .construct rfl
  | .read target => by
      rw [Stmt.number, Stmt.mapTokens, Stmt.number]
      exact .bind target.number_moves fun _ => .construct rfl
  | .conditional condition body orIfs otherwise => by
      rw [Stmt.number, Stmt.mapTokens, Stmt.number]
      exact .bind condition.number_moves fun _ => .bind body.number_moves fun _ =>
        .bind (Stmt.numberOrIfs_moves orIfs) fun _ =>
        .bind (Stmt.numberOption_moves otherwise) fun _ => .construct (by simp)
  | .loop counter lower upper body => by
      rw [Stmt.number, Stmt.mapTokens, Stmt.number]
      exact .bind .terminal fun _ => .bind lower.number_moves fun _ =>
        .bind upper.number_moves fun _ => .bind body.number_moves fun _ => .construct rfl
  | .result none => by
      rw [Stmt.number, Stmt.mapTokens, Option.map_none, Stmt.number]
      exact .construct rfl
  | .result (some value) => by
      rw [Stmt.number, Stmt.mapTokens, Option.map_some, Stmt.number]
      exact .bind value.number_moves fun _ => .construct rfl
  | .block body => by
      rw [Stmt.number, Stmt.mapTokens, Stmt.number]
      exact .bind (Stmt.numberAll_moves body) fun _ => .construct rfl
  | .evaluation value => by
      rw [Stmt.number, Stmt.mapTokens, Stmt.number]
      exact .bind value.number_moves fun _ => .construct rfl

theorem Stmt.numberAll_moves : ∀ ss : List Stmt,
    Moves k (List.map (Node.moved f k)) (Stmt.numberAll ss)
      (Stmt.numberAll (Stmt.mapTokensAll f ss))
  | [] => by
      rw [Stmt.mapTokensAll, Stmt.numberAll]
      exact .pure _ rfl
  | s :: ss => by
      rw [Stmt.mapTokensAll, Stmt.numberAll, Stmt.numberAll]
      exact .bind s.number_moves fun _ => .bind (Stmt.numberAll_moves ss) fun _ => .pure _ rfl

theorem Stmt.numberOrIfs_moves : ∀ orIfs : List (Expr × Stmt),
    Moves k (List.map (Node.moved f k)) (Stmt.numberOrIfs orIfs)
      (Stmt.numberOrIfs (Stmt.mapTokensOrIfs f orIfs))
  | [] => by
      rw [Stmt.mapTokensOrIfs, Stmt.numberOrIfs]
      exact .pure _ rfl
  | (condition, body) :: orIfs => by
      rw [Stmt.mapTokensOrIfs, Stmt.numberOrIfs, Stmt.numberOrIfs]
      exact .bind condition.number_moves fun _ => .bind body.number_moves fun _ =>
        .bind (.construct rfl) fun _ => .bind (Stmt.numberOrIfs_moves orIfs) fun _ => .pure _ rfl

theorem Stmt.numberOption_moves : ∀ last : Option Stmt,
    Moves k (List.map (Node.moved f k)) (Stmt.numberOption last)
      (Stmt.numberOption (Stmt.mapTokensOption f last))
  | none => by
      rw [Stmt.mapTokensOption, Stmt.numberOption]
      exact .pure _ rfl
  | some s => by
      rw [Stmt.mapTokensOption, Stmt.numberOption, Stmt.numberOption]
      exact .bind s.number_moves fun _ => .pure _ rfl

end

/-! ## Programs -/

theorem Param.number_moves (p : Param) :
    Moves k (Node.moved f k) p.number (p.mapTokens f).number :=
  .bind .terminal fun _ => .bind .terminal fun _ => .construct rfl

theorem Function.number_moves (g : Function) :
    Moves k (Node.moved f k) g.number (g.mapTokens f).number :=
  .bind .terminal fun _ => .bind (.mapM Param.number_moves g.params) fun _ =>
    .bind (.list rfl) fun _ => .bind .terminal fun _ => .bind g.body.number_moves fun _ =>
    .construct rfl

theorem Enumeration.number_moves (e : Enumeration) :
    Moves k (Node.moved f k) e.number (e.mapTokens f).number :=
  .bind .terminal fun _ => .bind (.mapM (fun _ => .leaf) e.values) fun _ =>
    .bind (.list rfl) fun _ => .construct rfl

/-- The groups with other tokens and their identifiers moved. -/
def Groups.moved (f : Token → Token) (k : NodeId) (g : Groups) : Groups :=
  ⟨g.functions.map (Node.moved f k), g.enumerations.map (Node.moved f k),
    g.statements.map (Node.moved f k)⟩

theorem Item.numberAll_moves (items : List Item) :
    Moves k (Groups.moved f k) (Item.numberAll items)
      (Item.numberAll (items.map (Item.mapTokens f))) := by
  induction items with
  | nil => exact .pure _ rfl
  | cons item items ih =>
      cases item with
      | function g => exact .bind g.number_moves fun _ => .bind ih fun _ => .pure _ rfl
      | enumeration e => exact .bind e.number_moves fun _ => .bind ih fun _ => .pure _ rfl
      | statement s => exact .bind s.number_moves fun _ => .bind ih fun _ => .pure _ rfl

/-- **A program with other tokens, numbered from a moved counter**, has the same tree with the
other tokens and moved identifiers. -/
theorem Program.number_moves (p : Program) :
    Moves k (Node.moved f k) p.number (p.mapTokens f).number := by
  refine .bind (Item.numberAll_moves p.items) fun g => .construct ?_
  simp only [Groups.moved, List.map_append]

end BlockSyntax
