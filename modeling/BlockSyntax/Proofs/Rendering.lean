import BlockSyntax.Proofs.Shape
import BlockSyntax.Proofs.Spelling
import Mathlib.Data.List.Forall2

/-!
# Canonical renderings

A syntax tree has one canonical layout: the order of its tokens with the reserved words
and marks between them.  The layout leaves nothing out that the grammar lets out.  Every
conditional and loop opens with `begin` and is closed, every function opens with `begin`
and is closed in the way that its body asks for, every enumeration has its semicolon, and
every operand that is itself an operator between operands stands in parentheses.

A layout fixes the kinds of the words and marks and nothing else about them, and the
tokens of the tree completely.  A list of tokens renders the tree when it matches the
layout piece by piece (`Renders`), wherever in a source the tokens stand.

A tree can be laid out when its tokens have kinds that the grammar gives them in their
places (`Program.WellFormed`).
-/

set_option autoImplicit false

namespace BlockSyntax

/-! ## Pieces -/

/-- What a layout asks for at one place. -/
inductive Piece where
  /-- Any token of a kind. -/
  | mark (k : TokenKind)
  /-- A token of the tree. -/
  | token (t : Token)

/-- What a tree is laid out as. -/
abbrev Layout := List Piece

/-- The token is what the piece asks for. -/
def Piece.Matches : Piece → Token → Prop
  | mark k, t => t.kind = k
  | token u, t => t = u

/-- The tokens are what a layout asks for, one for each piece. -/
abbrev Renders : Layout → List Token → Prop := List.Forall₂ Piece.Matches

section Pieces

variable {ps qs : Layout} {us rest : List Token}

theorem renders_append :
    Renders (ps ++ qs) us ↔ ∃ vs ws, us = vs ++ ws ∧ Renders ps vs ∧ Renders qs ws := by
  constructor
  · intro renders
    refine ⟨us.take ps.length, us.drop ps.length, (List.take_append_drop _ _).symm, ?_, ?_⟩
    · simpa using List.forall₂_take ps.length renders
    · simpa using List.forall₂_drop ps.length renders
  · rintro ⟨vs, ws, rfl, front, back⟩
    exact List.rel_append front back

/-- A layout is rendered by the tokens in front of the rest. -/
def LaidOut (ps : Layout) (us rest : List Token) : Prop :=
  ∃ used, us = used ++ rest ∧ Renders ps used

theorem laidOut_nil : LaidOut [] us rest ↔ us = rest := by
  simp [LaidOut, List.forall₂_nil_left_iff]

theorem laidOut_mark {k : TokenKind} :
    LaidOut (.mark k :: ps) us rest ↔ ∃ t vs, us = t :: vs ∧ t.kind = k ∧ LaidOut ps vs rest := by
  constructor
  · rintro ⟨used, rfl, renders⟩
    obtain ⟨t, vs, kind, inside, rfl⟩ := List.forall₂_cons_left_iff.mp renders
    exact ⟨t, _, rfl, kind, vs, rfl, inside⟩
  · rintro ⟨t, _, rfl, kind, vs, rfl, inside⟩
    exact ⟨t :: vs, rfl, .cons kind inside⟩

theorem laidOut_token {t : Token} :
    LaidOut (.token t :: ps) us rest ↔ ∃ vs, us = t :: vs ∧ LaidOut ps vs rest := by
  constructor
  · rintro ⟨used, rfl, renders⟩
    obtain ⟨u, vs, same, inside, rfl⟩ := List.forall₂_cons_left_iff.mp renders
    cases same
    exact ⟨_, rfl, vs, rfl, inside⟩
  · rintro ⟨_, rfl, vs, rfl, inside⟩
    exact ⟨t :: vs, rfl, .cons rfl inside⟩

theorem laidOut_append :
    LaidOut (ps ++ qs) us rest ↔ ∃ mid, LaidOut ps us mid ∧ LaidOut qs mid rest := by
  constructor
  · rintro ⟨used, rfl, renders⟩
    obtain ⟨vs, ws, rfl, front, back⟩ := renders_append.mp renders
    exact ⟨ws ++ rest, ⟨vs, List.append_assoc .., front⟩, ws, rfl, back⟩
  · rintro ⟨mid, ⟨vs, rfl, front⟩, ws, rfl, back⟩
    exact ⟨vs ++ ws, (List.append_assoc ..).symm, List.rel_append front back⟩

/-- The token that renders a piece, with the one spelling of its kind when any token will
do. -/
def Piece.render : Piece → Token
  | mark k => k.token
  | token t => t

/-- Every layout can be rendered. -/
theorem renders_map_render (ps : Layout) : Renders ps (ps.map Piece.render) := by
  induction ps with
  | nil => exact .nil
  | cons p ps ih =>
      refine .cons ?_ ih
      cases p with
      | mark k | token t => rfl

end Pieces

/-! ## Layouts of lists -/

namespace Layout

/-- A layout between an opening and a closing mark. -/
def enclosed (opens closes : TokenKind) (ps : Layout) : Layout :=
  .mark opens :: (ps ++ [.mark closes])

/-- A layout in parentheses. -/
abbrev parenthesized : Layout → Layout := enclosed .leftParen .rightParen

/-- A layout in brackets. -/
abbrev bracketed : Layout → Layout := enclosed .leftBracket .rightBracket

/-- Layouts with commas between them. -/
def commas : List Layout → Layout
  | [] => []
  | [ps] => ps
  | ps :: qs :: others => ps ++ .mark .comma :: commas (qs :: others)

/-- Single tokens with commas between them. -/
def names (ts : List Token) : Layout := commas (ts.map fun t => [.token t])

end Layout

open Layout

theorem laidOut_enclosed {opens closes : TokenKind} {ps : Layout} {us rest : List Token} :
    LaidOut (enclosed opens closes ps) us rest ↔ ∃ opening vs closing, us = opening :: vs ∧
      opening.kind = opens ∧ LaidOut ps vs (closing :: rest) ∧ closing.kind = closes := by
  simp only [enclosed, laidOut_mark, laidOut_append, laidOut_nil]
  constructor
  · rintro ⟨opening, vs, rfl, kind, _, inside, closing, _, rfl, closingKind, rfl⟩
    exact ⟨opening, vs, closing, rfl, kind, inside, closingKind⟩
  · rintro ⟨opening, vs, closing, rfl, kind, inside, closingKind⟩
    exact ⟨opening, vs, rfl, kind, _, inside, closing, _, rfl, closingKind, rfl⟩

/-! ## Layouts of expressions -/

/-- An operand as it stands next to an operator, given its layout: in parentheses when it
is an operator between operands. -/
def Expr.asOperand (e : Expr) (ps : Layout) : Layout :=
  match e with
  | .binary _ _ _ => parenthesized ps
  | _ => ps

mutual

/-- The layout of an expression. -/
def Expr.layout : Expr → Layout
  | .literal t => [.token t]
  | .reference name indices => .token name :: (Expr.layouts indices).flatMap bracketed
  | .call name arguments => .token name :: parenthesized (commas (Expr.layouts arguments))
  | .unary operator operand => .token operator :: operand.asOperand operand.layout
  | .binary left operator right =>
      left.asOperand left.layout ++ .token operator :: right.asOperand right.layout

/-- The layouts of expressions. -/
def Expr.layouts : List Expr → List Layout
  | [] => []
  | e :: es => e.layout :: Expr.layouts es

end

/-! ## Layouts of statements -/

mutual

/-- The layout of a statement. -/
@[simp]
def Stmt.layout : Stmt → Layout
  | .declaration type dimensions names =>
      .token type :: (dimensions.flatMap fun t => bracketed [.token t]) ++ Layout.names names ++
        [.mark .semicolon]
  | .assignment value target =>
      value.layout ++ .mark .assignArrow :: target.layout ++ [.mark .semicolon]
  | .print value => .mark .kwPrint :: parenthesized value.layout ++ [.mark .semicolon]
  | .read target => .mark .kwRead :: parenthesized target.layout ++ [.mark .semicolon]
  | .conditional condition body orIfs otherwise =>
      .mark .kwBegin :: .mark .kwIf :: parenthesized condition.layout ++ body.layout ++
        Stmt.layoutOrIfs orIfs ++ Stmt.layoutElse otherwise ++ [.mark .kwEnd]
  | .loop counter lower upper body =>
      .mark .kwBegin :: .mark .kwFor ::
        parenthesized (.token counter :: .mark .kwGoes :: .mark .kwFrom :: lower.layout ++
          .mark .kwTo :: upper.layout) ++
        body.layout ++ [.mark .kwEnd, .mark .kwFor]
  | .result none => [.mark .kwReturn, .mark .semicolon]
  | .result (some value) => .mark .kwReturn :: value.layout ++ [.mark .semicolon]
  | .block body => .mark .kwBegin :: Stmt.layoutAll body ++ [.mark .kwEnd]
  | .evaluation value => value.layout ++ [.mark .semicolon]

/-- The layout of statements, one after the other. -/
def Stmt.layoutAll : List Stmt → Layout
  | [] => []
  | s :: ss => s.layout ++ Stmt.layoutAll ss

/-- The layout of further conditions with their bodies. -/
def Stmt.layoutOrIfs : List (Expr × Stmt) → Layout
  | [] => []
  | (condition, body) :: rest =>
      .mark .kwOr :: .mark .kwIf :: parenthesized condition.layout ++ body.layout ++
        Stmt.layoutOrIfs rest

/-- The layout of a body for when no condition holds. -/
def Stmt.layoutElse : Option Stmt → Layout
  | none => []
  | some s => .mark .kwElse :: s.layout

end

/-! ## Layouts of declarations and programs -/

/-- The layout of a parameter. -/
def Param.layout (p : Param) : Layout := [.token p.name, .mark .colon, .token p.type]

/-- The words that close a function with the given body. -/
def Stmt.closingLayout (body : Stmt) : Layout :=
  if body.isBlock then [.mark .kwFunction] else [.mark .kwEnd, .mark .kwFunction]

/-- The layout of a function. -/
def Function.layout (f : Function) : Layout :=
  .mark .kwBegin :: .mark .kwFunction :: .token f.name ::
    parenthesized (commas (f.params.map Param.layout)) ++
    .mark .colon :: .token f.returnType :: f.body.layout ++ f.body.closingLayout

/-- The layout of an enumeration. -/
def Enumeration.layout (e : Enumeration) : Layout :=
  .mark .kwEnum :: .token e.name :: enclosed .leftBrace .rightBrace (names e.values) ++
    [.mark .semicolon]

/-- The layout of an item. -/
def Item.layout : Item → Layout
  | .function f => f.layout
  | .enumeration e => e.layout
  | .statement s => s.layout

/-- The items of a program in three groups: functions, enumerations and statements. -/
def Program.grouped (p : Program) : List Item :=
  (Item.functions p.items).map .function ++ (Item.enumerations p.items).map .enumeration ++
    (Item.statements p.items).map .statement

/-- Grouping the items keeps each of them. -/
theorem Program.mem_grouped {p : Program} {i : Item} : i ∈ p.grouped ↔ i ∈ p.items := by
  simp only [grouped, List.mem_append, List.mem_map]
  cases i <;> simp [Item.mem_functions, Item.mem_enumerations, Item.mem_statements]

/-- Grouping the items does not change their groups. -/
theorem Program.shape_grouped (p : Program) : (Program.mk p.grouped).shape = p.shape := by
  have functions : Item.functions p.grouped = Item.functions p.items := by
    simp [grouped, Item.functions, List.filterMap_map]
  have enumerations : Item.enumerations p.grouped = Item.enumerations p.items := by
    simp [grouped, Item.enumerations, List.filterMap_map]
  have statements : Item.statements p.grouped = Item.statements p.items := by
    simp [grouped, Item.statements, List.filterMap_map]
  rw [Program.shape, Program.shape, functions, enumerations, statements]

/-- The layout of a program, in the three groups. -/
def Program.layout (p : Program) : Layout := p.grouped.flatMap Item.layout

/-! ## Trees that can be laid out -/

mutual

/-- Every token of the statement has a kind that it can have in its place, and a
declaration declares something. -/
@[simp]
def Stmt.WellFormed : Stmt → Prop
  | .declaration type dimensions names =>
      type.kind.isType ∧ (∀ t ∈ dimensions, t.kind = .intLiteral) ∧
        (∀ t ∈ names, t.kind = .identifier) ∧ names ≠ []
  | .assignment value target => value.WellFormed ∧ target.WellFormed
  | .print value => value.WellFormed
  | .read target => target.WellFormed
  | .conditional condition body orIfs otherwise =>
      condition.WellFormed ∧ body.WellFormed ∧ Stmt.WellFormedOrIfs orIfs ∧
        Stmt.WellFormedElse otherwise
  | .loop counter lower upper body =>
      counter.kind = .identifier ∧ lower.WellFormed ∧ upper.WellFormed ∧ body.WellFormed
  | .result none => True
  | .result (some value) => value.WellFormed
  | .block body => Stmt.AllWellFormed body
  | .evaluation value => value.WellFormed

/-- The statements are well-formed. -/
def Stmt.AllWellFormed : List Stmt → Prop
  | [] => True
  | s :: ss => s.WellFormed ∧ Stmt.AllWellFormed ss

/-- Further conditions and their bodies are well-formed. -/
def Stmt.WellFormedOrIfs : List (Expr × Stmt) → Prop
  | [] => True
  | (condition, body) :: rest =>
      condition.WellFormed ∧ body.WellFormed ∧ Stmt.WellFormedOrIfs rest

/-- The statement is well-formed if it is there. -/
def Stmt.WellFormedElse : Option Stmt → Prop
  | none => True
  | some s => s.WellFormed

end

/-- A parameter has a name and a type. -/
def Param.WellFormed (p : Param) : Prop := p.name.kind = .identifier ∧ p.type.kind.isType

/-- Every token of the function has a kind that it can have in its place. -/
def Function.WellFormed (f : Function) : Prop :=
  f.name.kind = .identifier ∧ (∀ p ∈ f.params, p.WellFormed) ∧ f.returnType.kind.isType ∧
    f.body.WellFormed

/-- An enumeration consists of names. -/
def Enumeration.WellFormed (e : Enumeration) : Prop :=
  e.name.kind = .identifier ∧ ∀ t ∈ e.values, t.kind = .identifier

/-- The item is well-formed. -/
def Item.WellFormed : Item → Prop
  | .function f => f.WellFormed
  | .enumeration e => e.WellFormed
  | .statement s => s.WellFormed

/-- The items of the program are well-formed. -/
def Program.WellFormed (p : Program) : Prop := ∀ i ∈ p.items, i.WellFormed

end BlockSyntax
