import BlockSyntax.Proofs.Session
import BlockSyntax.Proofs.Terminals

/-!
# The names of nodes

A parse shows its nodes under few names: those of the constructs, and the labels of terminals
and lists (`Node.vocabulary`).  None of them is taken from the source.  So whatever holds of
these names holds of the names of every tree that a session answers with
(`Session.ask_knownNames`).
-/

set_option autoImplicit false

namespace BlockSyntax

namespace Node

/-- The labels of terminals and lists. -/
def labels : List String :=
  ["Value", "VarName", "FunctionName", "Operator", "Type", "ParamName", "ParamType", "ReturnType",
    "EnumName", "ValueName", "Indices", "Arguments", "Dimensions", "Variables", "Params", "Values"]

/-- The names under which a parse shows nodes. -/
def vocabulary : List Bytes := NodeKind.all.map NodeKind.name ++ labels.map ascii

/-- The names of the nodes of a tree are in the vocabulary. -/
def KnownNames (n : Node) : Prop := ∀ s ∈ n.preorder.map name, s ∈ vocabulary

/-- The names in all trees of a list are. -/
def AllKnown (ns : List Node) : Prop := ∀ n ∈ ns, n.KnownNames

theorem knownNames_iff {n : Node} : n.KnownNames ↔ n.name ∈ vocabulary ∧ AllKnown n.children := by
  unfold AllKnown KnownNames
  simp only [List.forall_mem_map]
  rw [preorder_eq, List.forall_mem_cons, List.forall_mem_flatMap]

mutual

/-- Identifiers have no part in the names of a tree. -/
theorem names_unnumbered : ∀ n : Node, n.unnumbered.preorder.map name = n.preorder.map name
  | terminal _ _ _ => rfl
  | list _ _ items => by
      simp only [unnumbered, preorder, List.map_cons, name, namesAll_unnumbered items]
  | construct _ _ parts => by
      simp only [unnumbered, preorder, List.map_cons, name, namesAll_unnumbered parts]

theorem namesAll_unnumbered : ∀ ns : List Node,
    (preorderAll (unnumberedAll ns)).map name = (preorderAll ns).map name
  | [] => rfl
  | n :: ns => by
      simp only [unnumberedAll, preorderAll, List.map_append, names_unnumbered n,
        namesAll_unnumbered ns]

end

theorem knownNames_of_unnumbered {n shape : Node} (same : n.unnumbered = shape)
    (known : shape.KnownNames) : n.KnownNames := by
  rwa [← same, KnownNames, names_unnumbered] at known

theorem AllKnown.nil : AllKnown [] := nofun

theorem AllKnown.cons {n : Node} {ns : List Node} (first : n.KnownNames) (others : AllKnown ns) :
    AllKnown (n :: ns) :=
  List.forall_mem_cons.mpr ⟨first, others⟩

theorem AllKnown.append {ns ms : List Node} (front : AllKnown ns) (back : AllKnown ms) :
    AllKnown (ns ++ ms) :=
  List.forall_mem_append.mpr ⟨front, back⟩

theorem AllKnown.map {α : Type} {shape : α → Node} (known : ∀ a, (shape a).KnownNames)
    (as : List α) : AllKnown (as.map shape) :=
  List.forall_mem_map.mpr fun a _ => known a

end Node

open Node (AllKnown labels vocabulary)

/-! ## Shapes -/

theorem Construct.name_mem_vocabulary (c : Construct) : c.name ∈ vocabulary := by
  have listed : NodeKind.construct c ∈ NodeKind.all := by cases c <;> decide
  exact List.mem_append_left _ (List.mem_map_of_mem listed)

theorem ascii_mem_vocabulary {label : String} (known : label ∈ labels) : ascii label ∈ vocabulary :=
  List.mem_append_right _ (List.mem_map_of_mem known)

namespace Shape

variable {label : String} {parts : List Node}

theorem knownNames_construct (form : Construct) (inside : AllKnown parts) :
    (construct form parts).KnownNames :=
  Node.knownNames_iff.mpr ⟨form.name_mem_vocabulary, inside⟩

theorem knownNames_terminal (known : label ∈ labels) (t : Token) :
    (terminal label t).KnownNames :=
  Node.knownNames_iff.mpr ⟨ascii_mem_vocabulary known, .nil⟩

theorem knownNames_list (known : label ∈ labels) (inside : AllKnown parts) :
    (list label parts).KnownNames :=
  Node.knownNames_iff.mpr ⟨ascii_mem_vocabulary known, inside⟩

theorem allKnown_listUnlessEmpty (known : label ∈ labels) (inside : AllKnown parts) :
    AllKnown (listUnlessEmpty label parts) := by
  unfold listUnlessEmpty
  split
  · exact .nil
  · exact .cons (knownNames_list known inside) .nil

theorem knownNames_leaf (known : label ∈ labels) (t : Token) (form : Construct) :
    (leaf form label t).KnownNames :=
  knownNames_construct form (.cons (knownNames_terminal known t) .nil)

end Shape

open Shape

mutual

theorem Expr.knownNames_shape : ∀ e : Expr, e.shape.KnownNames
  | .literal t => by
      rw [shape]
      exact knownNames_leaf (by decide) t .literal
  | .reference name indices => by
      rw [shape]
      exact knownNames_construct _ (.cons (knownNames_terminal (by decide) name)
        (allKnown_listUnlessEmpty (by decide) (Expr.allKnown_shapes indices)))
  | .call name arguments => by
      rw [shape]
      exact knownNames_construct _ (.cons (knownNames_terminal (by decide) name)
        (allKnown_listUnlessEmpty (by decide) (Expr.allKnown_shapes arguments)))
  | .unary operator operand => by
      rw [shape]
      exact knownNames_construct _ (.cons (knownNames_terminal (by decide) operator)
        (.cons operand.knownNames_shape .nil))
  | .binary left operator right => by
      rw [shape]
      exact knownNames_construct _ (.cons left.knownNames_shape
        (.cons (knownNames_terminal (by decide) operator) (.cons right.knownNames_shape .nil)))

theorem Expr.allKnown_shapes : ∀ es : List Expr, AllKnown (Expr.shapes es)
  | [] => by
      rw [shapes]
      exact .nil
  | e :: es => by
      rw [shapes]
      exact .cons e.knownNames_shape (Expr.allKnown_shapes es)

end

mutual

theorem Stmt.knownNames_shape : ∀ s : Stmt, s.shape.KnownNames
  | .declaration type dimensions names => by
      rw [shape]
      exact knownNames_construct _ (.cons (knownNames_terminal (by decide) type)
        (.cons (knownNames_list (by decide)
            (.map (fun t => knownNames_leaf (by decide) t .literal) dimensions))
          (.cons (knownNames_list (by decide)
            (.map (fun t => knownNames_leaf (by decide) t .declarationItem) names)) .nil)))
  | .assignment value target => by
      rw [shape]
      exact knownNames_construct _ (.cons value.knownNames_shape
        (.cons target.knownNames_shape .nil))
  | .print value => by
      rw [shape]
      exact knownNames_construct _ (.cons value.knownNames_shape .nil)
  | .read target => by
      rw [shape]
      exact knownNames_construct _ (.cons target.knownNames_shape .nil)
  | .conditional condition body orIfs otherwise => by
      rw [shape]
      exact knownNames_construct _ (.cons condition.knownNames_shape (.cons body.knownNames_shape
        ((Stmt.allKnown_orIfShapes orIfs).append (Stmt.allKnown_optionShape otherwise))))
  | .loop counter lower upper body => by
      rw [shape]
      exact knownNames_construct _ (.cons (knownNames_terminal (by decide) counter)
        (.cons lower.knownNames_shape (.cons upper.knownNames_shape
          (.cons body.knownNames_shape .nil))))
  | .result none => by
      rw [shape]
      exact knownNames_construct _ .nil
  | .result (some value) => by
      rw [shape]
      exact knownNames_construct _ (.cons value.knownNames_shape .nil)
  | .block body => by
      rw [shape]
      exact knownNames_construct _ (Stmt.allKnown_shapes body)
  | .evaluation value => by
      rw [shape]
      exact knownNames_construct _ (.cons value.knownNames_shape .nil)

theorem Stmt.allKnown_shapes : ∀ ss : List Stmt, AllKnown (Stmt.shapes ss)
  | [] => by
      rw [shapes]
      exact .nil
  | s :: ss => by
      rw [shapes]
      exact .cons s.knownNames_shape (Stmt.allKnown_shapes ss)

theorem Stmt.allKnown_orIfShapes : ∀ orIfs : List (Expr × Stmt), AllKnown (Stmt.orIfShapes orIfs)
  | [] => by
      rw [orIfShapes]
      exact .nil
  | (condition, body) :: rest => by
      rw [orIfShapes]
      exact .cons (knownNames_construct _ (.cons condition.knownNames_shape
        (.cons body.knownNames_shape .nil))) (Stmt.allKnown_orIfShapes rest)

theorem Stmt.allKnown_optionShape : ∀ otherwise : Option Stmt,
    AllKnown (Stmt.optionShape otherwise)
  | none => by
      rw [optionShape]
      exact .nil
  | some s => by
      rw [optionShape]
      exact .cons s.knownNames_shape .nil

end

theorem Param.knownNames_shape (p : Param) : p.shape.KnownNames :=
  knownNames_construct _ (.cons (knownNames_terminal (by decide) p.name)
    (.cons (knownNames_terminal (by decide) p.type) .nil))

theorem Function.knownNames_shape (f : Function) : f.shape.KnownNames :=
  knownNames_construct _ (.cons (knownNames_terminal (by decide) f.name)
    (.cons (knownNames_list (by decide) (.map Param.knownNames_shape f.params))
      (.cons (knownNames_terminal (by decide) f.returnType)
        (.cons f.body.knownNames_shape .nil))))

theorem Enumeration.knownNames_shape (e : Enumeration) : e.shape.KnownNames :=
  knownNames_construct _ (.cons (knownNames_terminal (by decide) e.name)
    (.cons (knownNames_list (by decide)
      (.map (fun t => knownNames_leaf (by decide) t .enumValue) e.values)) .nil))

/-- **The names of a program are in the vocabulary.** -/
theorem Program.knownNames_shape (p : Program) : p.shape.KnownNames :=
  knownNames_construct _ (((AllKnown.map Function.knownNames_shape _).append
    (.map Enumeration.knownNames_shape _)).append (.map Stmt.knownNames_shape _))

/-! ## Answers -/

/-- **A session answers with trees of known names**, whatever the tokens are. -/
theorem Session.ask_knownNames {s s' : Session} {goal : Goal} {root : Node}
    (answers : s.ask goal = (.ok root, s')) : root.KnownNames := by
  cases goal with
  | program =>
      obtain ⟨p, _, _, rfl, _⟩ := ask_program_eq_ok.mp answers
      exact Node.knownNames_of_unnumbered (p.unnumbered_number s.nextId) p.knownNames_shape
  | statement =>
      obtain ⟨st, _, _, rfl, _⟩ := ask_statement_eq_ok.mp answers
      exact Node.knownNames_of_unnumbered (st.numbering s.nextId).unnumbered st.knownNames_shape
  | expression =>
      obtain ⟨e, _, _, rfl, _⟩ := ask_expression_eq_ok.mp answers
      exact Node.knownNames_of_unnumbered (e.numbering s.nextId).unnumbered e.knownNames_shape

end BlockSyntax
