import BlockSyntax.Tree.Numbering

/-!
# The shape of a numbered tree

The tree that a parse shows is a syntax tree with labels and identifiers.  Its shape is
what is left when the identifiers are taken off: which nodes there are, under which
labels, in which order, with which tokens.  It depends on the syntax tree alone and is
written down here construct by construct (`Program.shape`).  A list of indices or
arguments is part of it only when it has elements, the other lists always are, and the
items of a program stand in three groups.

Numbering puts identifiers on the shape and does nothing else
(`unnumbered_number`).
-/

set_option autoImplicit false

namespace BlockSyntax

/-! ## Taking identifiers off -/

namespace Node

mutual

/-- The tree without its identifiers, which all become zero. -/
def unnumbered : Node → Node
  | terminal _ label t => terminal 0 label t
  | list _ label items => list 0 label (unnumberedAll items)
  | construct _ c parts => construct 0 c (unnumberedAll parts)

/-- The trees without their identifiers. -/
def unnumberedAll : List Node → List Node
  | [] => []
  | n :: ns => n.unnumbered :: unnumberedAll ns

end

theorem unnumberedAll_append (ns ms : List Node) :
    unnumberedAll (ns ++ ms) = unnumberedAll ns ++ unnumberedAll ms := by
  induction ns with
  | nil => rfl
  | cons n ns ih => simp only [List.cons_append, unnumberedAll, ih]

end Node

/-! ## Shapes -/

namespace Shape

/-- A terminal. -/
def terminal (label : String) (t : Token) : Node := .terminal 0 (ascii label) t

/-- A list. -/
def list (label : String) (items : List Node) : Node := .list 0 (ascii label) items

/-- A list, or no node when there is nothing in it. -/
def listUnlessEmpty (label : String) (items : List Node) : List Node :=
  if items.isEmpty then [] else [list label items]

/-- A construct. -/
def construct (form : Construct) (parts : List Node) : Node := .construct 0 form parts

/-- A construct over one terminal. -/
def leaf (form : Construct) (label : String) (t : Token) : Node :=
  construct form [terminal label t]

end Shape

open Shape

mutual

/-- The shape of an expression. -/
def Expr.shape : Expr → Node
  | .literal t => leaf .literal "Value" t
  | .reference name indices =>
      construct .reference
        (terminal "VarName" name :: listUnlessEmpty "Indices" (Expr.shapes indices))
  | .call name arguments =>
      construct .call
        (terminal "FunctionName" name :: listUnlessEmpty "Arguments" (Expr.shapes arguments))
  | .unary operator operand => construct .unary [terminal "Operator" operator, operand.shape]
  | .binary left operator right =>
      construct .binary [left.shape, terminal "Operator" operator, right.shape]

/-- The shapes of expressions. -/
def Expr.shapes : List Expr → List Node
  | [] => []
  | e :: es => e.shape :: Expr.shapes es

end

mutual

/-- The shape of a statement. -/
def Stmt.shape : Stmt → Node
  | .declaration type dimensions names =>
      construct .declaration [terminal "Type" type,
        list "Dimensions" (dimensions.map (leaf .literal "Value")),
        list "Variables" (names.map (leaf .declarationItem "VarName"))]
  | .assignment value target => construct .assignment [value.shape, target.shape]
  | .print value => construct .print [value.shape]
  | .read target => construct .read [target.shape]
  | .conditional condition body orIfs otherwise =>
      construct .conditional (condition.shape :: body.shape ::
        (Stmt.orIfShapes orIfs ++ Stmt.optionShape otherwise))
  | .loop counter lower upper body =>
      construct .loop [terminal "VarName" counter, lower.shape, upper.shape, body.shape]
  | .result none => construct .result []
  | .result (some value) => construct .result [value.shape]
  | .block body => construct .block (Stmt.shapes body)
  | .evaluation value => construct .evaluation [value.shape]

/-- The shapes of statements. -/
def Stmt.shapes : List Stmt → List Node
  | [] => []
  | s :: ss => s.shape :: Stmt.shapes ss

/-- The shapes of further conditions with their bodies. -/
def Stmt.orIfShapes : List (Expr × Stmt) → List Node
  | [] => []
  | (condition, body) :: rest =>
      construct .orIf [condition.shape, body.shape] :: Stmt.orIfShapes rest

/-- The shape of a statement that may be absent. -/
def Stmt.optionShape : Option Stmt → List Node
  | none => []
  | some s => [s.shape]

end

/-- The shape of a parameter. -/
def Param.shape (p : Param) : Node :=
  construct .parameter [terminal "ParamName" p.name, terminal "ParamType" p.type]

/-- The shape of a function. -/
def Function.shape (f : Function) : Node :=
  construct .function [terminal "FunctionName" f.name, list "Params" (f.params.map Param.shape),
    terminal "ReturnType" f.returnType, f.body.shape]

/-- The shape of an enumeration. -/
def Enumeration.shape (e : Enumeration) : Node :=
  construct .enumeration [terminal "EnumName" e.name,
    list "Values" (e.values.map (leaf .enumValue "ValueName"))]

/-- The functions among items. -/
def Item.functions (items : List Item) : List Function :=
  items.filterMap fun | .function f => some f | _ => none

/-- The enumerations among items. -/
def Item.enumerations (items : List Item) : List Enumeration :=
  items.filterMap fun | .enumeration e => some e | _ => none

/-- The statements among items. -/
def Item.statements (items : List Item) : List Stmt :=
  items.filterMap fun | .statement s => some s | _ => none

theorem Item.mem_functions {items : List Item} {f : Function} :
    f ∈ Item.functions items ↔ .function f ∈ items := by
  rw [functions, List.mem_filterMap]
  constructor
  · rintro ⟨i, inside, same⟩
    cases i with
    | function _ =>
        cases same
        exact inside
    | enumeration _ | statement _ => cases same
  · intro inside
    exact ⟨_, inside, rfl⟩

theorem Item.mem_enumerations {items : List Item} {e : Enumeration} :
    e ∈ Item.enumerations items ↔ .enumeration e ∈ items := by
  rw [enumerations, List.mem_filterMap]
  constructor
  · rintro ⟨i, inside, same⟩
    cases i with
    | enumeration _ =>
        cases same
        exact inside
    | function _ | statement _ => cases same
  · intro inside
    exact ⟨_, inside, rfl⟩

theorem Item.mem_statements {items : List Item} {s : Stmt} :
    s ∈ Item.statements items ↔ .statement s ∈ items := by
  rw [statements, List.mem_filterMap]
  constructor
  · rintro ⟨i, inside, same⟩
    cases i with
    | statement _ =>
        cases same
        exact inside
    | function _ | enumeration _ => cases same
  · intro inside
    exact ⟨_, inside, rfl⟩

/-- The shape of a program: its functions, its enumerations and its statements. -/
def Program.shape (p : Program) : Node :=
  construct .program ((Item.functions p.items).map Function.shape ++
    (Item.enumerations p.items).map Enumeration.shape ++
    (Item.statements p.items).map Stmt.shape)

/-- The shape of an item. -/
def Item.shape : Item → Node
  | .function f => f.shape
  | .enumeration e => e.shape
  | .statement s => s.shape

/-! ## Numbering a shape -/

mutual

/-- A tree is a shape with identifiers from a counter: a part is numbered before the
whole, and the parts in their order.  Only the two lists of a declaration are numbered
late, after the elements of both. -/
inductive Numbering : NodeId → Node → Node → NodeId → Prop where
  | terminal {next : NodeId} {label : Bytes} {t : Token} :
      Numbering next (.terminal 0 label t) (.terminal next label t) (next + 1)
  | list {next last : NodeId} {label : Bytes} {items nodes : List Node}
      (inside : NumberingAll next items nodes last) :
      Numbering next (.list 0 label items) (.list last label nodes) (last + 1)
  | construct {next last : NodeId} {form : Construct} {parts nodes : List Node}
      (inside : NumberingAll next parts nodes last) :
      Numbering next (.construct 0 form parts) (.construct last form nodes) (last + 1)
  | declaration {next first second last : NodeId} {form : Construct} {before after : Bytes}
      {type t : Node} {items nodes others ns : List Node} (typed : Numbering next type t first)
      (front : NumberingAll first items nodes second) (back : NumberingAll second others ns last) :
      Numbering next (.construct 0 form [type, .list 0 before items, .list 0 after others])
        (.construct (last + 1 + 1) form [t, .list last before nodes, .list (last + 1) after ns])
        (last + 1 + 1 + 1)

/-- Trees are shapes with identifiers from a counter, one tree after the other. -/
inductive NumberingAll : NodeId → List Node → List Node → NodeId → Prop where
  | nil {next : NodeId} : NumberingAll next [] [] next
  | cons {next mid last : NodeId} {shape node : Node} {shapes nodes : List Node}
      (head : Numbering next shape node mid) (tail : NumberingAll mid shapes nodes last) :
      NumberingAll next (shape :: shapes) (node :: nodes) last

end

mutual

/-- Without the identifiers the shape is left. -/
theorem Numbering.unnumbered {next last : NodeId} {shape node : Node} :
    Numbering next shape node last → node.unnumbered = shape
  | .terminal => by rw [Node.unnumbered]
  | .list inside | .construct inside => by rw [Node.unnumbered, inside.unnumbered]
  | .declaration typed front back => by
      simp only [Node.unnumbered, Node.unnumberedAll, typed.unnumbered, front.unnumbered,
        back.unnumbered]

theorem NumberingAll.unnumbered {next last : NodeId} {shapes nodes : List Node} :
    NumberingAll next shapes nodes last → Node.unnumberedAll nodes = shapes
  | .nil => by rw [Node.unnumberedAll]
  | .cons head tail => by rw [Node.unnumberedAll, head.unnumbered, tail.unnumbered]

end

theorem NumberingAll.append {next mid last : NodeId} {shapes others nodes ns : List Node}
    (front : NumberingAll next shapes nodes mid) (back : NumberingAll mid others ns last) :
    NumberingAll next (shapes ++ others) (nodes ++ ns) last := by
  match front with
  | .nil => exact back
  | .cons head tail => exact .cons head (tail.append back)

namespace Numbered

/-- A walk over a list numbers the shapes of its elements when the walk over an element
does. -/
theorem numbering_mapM {α : Type} {walk : α → Numbered Node} {shape : α → Node}
    (numbers : ∀ a next, Numbering next (shape a) (walk a next).1 (walk a next).2)
    (as : List α) (next : NodeId) :
    NumberingAll next (as.map shape) (as.mapM walk next).1 (as.mapM walk next).2 := by
  induction as generalizing next with
  | nil => exact .nil
  | cons a as ih =>
      rw [List.mapM_cons, List.map_cons]
      exact .cons (numbers a next) (ih _)

theorem numbering_leaf (form : Construct) (label : String) (t : Token) (next : NodeId) :
    Numbering next (Shape.leaf form label t) (leaf form label t next).1
      (leaf form label t next).2 :=
  .construct (.cons .terminal .nil)

theorem numbering_listUnlessEmpty {label : String} {shapes nodes : List Node}
    {next last : NodeId} (inside : NumberingAll next shapes nodes last) :
    NumberingAll next (Shape.listUnlessEmpty label shapes)
      (listUnlessEmpty label nodes last).1 (listUnlessEmpty label nodes last).2 := by
  cases inside with
  | nil => exact .nil
  | cons head tail => exact .cons (.list (.cons head tail)) .nil

end Numbered

open Numbered

mutual

theorem Expr.numbering : ∀ (e : Expr) (next : NodeId),
    Numbering next e.shape (e.number next).1 (e.number next).2
  | .literal t, next => by
      rw [Expr.number, Expr.shape]
      exact numbering_leaf .literal "Value" t next
  | .reference name indices, next => by
      rw [Expr.number, Expr.shape]
      exact .construct (.cons .terminal
        (numbering_listUnlessEmpty (Expr.numberingAll indices (next + 1))))
  | .call name arguments, next => by
      rw [Expr.number, Expr.shape]
      exact .construct (.cons .terminal
        (numbering_listUnlessEmpty (Expr.numberingAll arguments (next + 1))))
  | .unary operator operand, next => by
      rw [Expr.number, Expr.shape]
      exact .construct (.cons .terminal (.cons (operand.numbering _) .nil))
  | .binary left operator right, next => by
      rw [Expr.number, Expr.shape]
      exact .construct (.cons (left.numbering _) (.cons .terminal (.cons (right.numbering _) .nil)))

theorem Expr.numberingAll : ∀ (es : List Expr) (next : NodeId),
    NumberingAll next (Expr.shapes es) (Expr.numberAll es next).1 (Expr.numberAll es next).2
  | [], next => by
      rw [Expr.numberAll, Expr.shapes]
      exact .nil
  | e :: es, next => by
      rw [Expr.numberAll, Expr.shapes]
      exact .cons (e.numbering next) (Expr.numberingAll es _)

end

mutual

theorem Stmt.numbering : ∀ (s : Stmt) (next : NodeId),
    Numbering next s.shape (s.number next).1 (s.number next).2
  | .declaration type dimensions names, next => by
      rw [Stmt.number, Stmt.shape]
      exact .declaration .terminal
        (numbering_mapM (numbering_leaf .literal "Value") dimensions (next + 1))
        (numbering_mapM (numbering_leaf .declarationItem "VarName") names _)
  | .assignment value target, next => by
      rw [Stmt.number, Stmt.shape]
      exact .construct (.cons (value.numbering _) (.cons (target.numbering _) .nil))
  | .print value, next => by
      rw [Stmt.number, Stmt.shape]
      exact .construct (.cons (value.numbering _) .nil)
  | .read target, next => by
      rw [Stmt.number, Stmt.shape]
      exact .construct (.cons (target.numbering _) .nil)
  | .conditional condition body orIfs otherwise, next => by
      rw [Stmt.number, Stmt.shape]
      exact .construct (.cons (condition.numbering _) (.cons (body.numbering _)
        ((Stmt.numberingOrIfs orIfs _).append (Stmt.numberingOption otherwise _))))
  | .loop counter lower upper body, next => by
      rw [Stmt.number, Stmt.shape]
      exact .construct (.cons .terminal (.cons (lower.numbering _) (.cons (upper.numbering _)
        (.cons (body.numbering _) .nil))))
  | .result none, next => by
      rw [Stmt.number, Stmt.shape]
      exact .construct .nil
  | .result (some value), next => by
      rw [Stmt.number, Stmt.shape]
      exact .construct (.cons (value.numbering _) .nil)
  | .block body, next => by
      rw [Stmt.number, Stmt.shape]
      exact .construct (Stmt.numberingAll body next)
  | .evaluation value, next => by
      rw [Stmt.number, Stmt.shape]
      exact .construct (.cons (value.numbering _) .nil)

theorem Stmt.numberingAll : ∀ (ss : List Stmt) (next : NodeId),
    NumberingAll next (Stmt.shapes ss) (Stmt.numberAll ss next).1 (Stmt.numberAll ss next).2
  | [], next => by
      rw [Stmt.numberAll, Stmt.shapes]
      exact .nil
  | s :: ss, next => by
      rw [Stmt.numberAll, Stmt.shapes]
      exact .cons (s.numbering next) (Stmt.numberingAll ss _)

theorem Stmt.numberingOrIfs : ∀ (orIfs : List (Expr × Stmt)) (next : NodeId),
    NumberingAll next (Stmt.orIfShapes orIfs) (Stmt.numberOrIfs orIfs next).1
      (Stmt.numberOrIfs orIfs next).2
  | [], next => by
      rw [Stmt.numberOrIfs, Stmt.orIfShapes]
      exact .nil
  | (condition, body) :: rest, next => by
      rw [Stmt.numberOrIfs, Stmt.orIfShapes]
      exact .cons (.construct (.cons (condition.numbering next) (.cons (body.numbering _) .nil)))
        (Stmt.numberingOrIfs rest _)

theorem Stmt.numberingOption : ∀ (otherwise : Option Stmt) (next : NodeId),
    NumberingAll next (Stmt.optionShape otherwise) (Stmt.numberOption otherwise next).1
      (Stmt.numberOption otherwise next).2
  | none, next => by
      rw [Stmt.numberOption, Stmt.optionShape]
      exact .nil
  | some s, next => by
      rw [Stmt.numberOption, Stmt.optionShape]
      exact .cons (s.numbering next) .nil

end

theorem Param.numbering (p : Param) (next : NodeId) :
    Numbering next p.shape (p.number next).1 (p.number next).2 :=
  .construct (.cons .terminal (.cons .terminal .nil))

theorem Function.numbering (f : Function) (next : NodeId) :
    Numbering next f.shape (f.number next).1 (f.number next).2 :=
  .construct (.cons .terminal (.cons (.list (numbering_mapM Param.numbering f.params (next + 1)))
    (.cons .terminal (.cons (f.body.numbering _) .nil))))

theorem Enumeration.numbering (e : Enumeration) (next : NodeId) :
    Numbering next e.shape (e.number next).1 (e.number next).2 :=
  .construct (.cons .terminal (.cons
    (.list (numbering_mapM (numbering_leaf .enumValue "ValueName") e.values (next + 1))) .nil))

/-! ## Programs -/

/-- The nodes of the groups, in the order in which a program shows them. -/
def Groups.all (g : Groups) : List Node := g.functions ++ g.enumerations ++ g.statements

/-- The items are numbered in the order of the source, and grouping them afterwards
neither loses a node nor changes the order inside a group. -/
theorem Item.numbering (items : List Item) (next : NodeId) :
    ∃ nodes, NumberingAll next (items.map Item.shape) nodes (Item.numberAll items next).2 ∧
      (Item.numberAll items next).1.all.Perm nodes ∧
      Node.unnumberedAll (Item.numberAll items next).1.functions =
        (Item.functions items).map Function.shape ∧
      Node.unnumberedAll (Item.numberAll items next).1.enumerations =
        (Item.enumerations items).map Enumeration.shape ∧
      Node.unnumberedAll (Item.numberAll items next).1.statements =
        (Item.statements items).map Stmt.shape := by
  induction items generalizing next with
  | nil => exact ⟨[], .nil, .nil, rfl, rfl, rfl⟩
  | cons item items ih =>
      cases item with
      | function f =>
          obtain ⟨nodes, numbering, perm, functions, enumerations, statements⟩ :=
            ih (f.number next).2
          refine ⟨(f.number next).1 :: nodes, .cons (f.numbering next) numbering,
            perm.cons _, ?_, enumerations, statements⟩
          exact List.cons_eq_cons.mpr ⟨(f.numbering next).unnumbered, functions⟩
      | enumeration e =>
          obtain ⟨nodes, numbering, perm, functions, enumerations, statements⟩ :=
            ih (e.number next).2
          refine ⟨(e.number next).1 :: nodes, .cons (e.numbering next) numbering,
            ?_, functions, ?_, statements⟩
          · exact (List.perm_middle.append_right _).trans (perm.cons _)
          · exact List.cons_eq_cons.mpr ⟨(e.numbering next).unnumbered, enumerations⟩
      | statement s =>
          obtain ⟨nodes, numbering, perm, functions, enumerations, statements⟩ :=
            ih (s.number next).2
          refine ⟨(s.number next).1 :: nodes, .cons (s.numbering next) numbering,
            ?_, functions, enumerations, ?_⟩
          · exact List.perm_middle.trans (perm.cons _)
          · exact List.cons_eq_cons.mpr ⟨(s.numbering next).unnumbered, statements⟩

/-- **Numbering a program** gives a node over its items, which are numbered in the order
of the source and then grouped. -/
theorem Program.numbering (p : Program) (next : NodeId) :
    ∃ nodes parts last, NumberingAll next (p.items.map Item.shape) nodes last ∧
      parts.Perm nodes ∧ p.number next = (.construct last .program parts, last + 1) := by
  obtain ⟨nodes, numbering, perm, _⟩ := Item.numbering p.items next
  exact ⟨nodes, _, _, numbering, perm, rfl⟩

/-- Without its identifiers a numbered program is the shape of the program. -/
theorem Program.unnumbered_number (p : Program) (next : NodeId) :
    (p.number next).1.unnumbered = p.shape := by
  obtain ⟨nodes, _, _, functions, enumerations, statements⟩ := Item.numbering p.items next
  rw [Program.shape, ← functions, ← enumerations, ← statements, ← Node.unnumberedAll_append,
    ← Node.unnumberedAll_append]
  rfl

end BlockSyntax
