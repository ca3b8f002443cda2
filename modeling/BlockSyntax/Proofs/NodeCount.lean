import BlockSyntax.Grammar.Session
import BlockSyntax.Proofs.Terminals
import Mathlib.Algebra.GroupWithZero.Nat

/-!
# The nodes that a reply counts

A reply counts the nodes that were completed while it was read.  When it is a value, these
are the nodes of the tree of that value, not one more and not one fewer: no routine of the
grammar completes a node on its way to a value and then leaves it out of the tree.

The predicate `Reply.Counts before worth` says that the nodes completed earlier and those
counted by a reply are together as many as its value is worth.  It is carried along a chain
of parsers: what has been read so far is added to `before`, and the last reply has to
account for the rest.  Each routine of the grammar then has one lemma, in which the parser
for inner expressions or statements is assumed to count as well, and `expression_counts`,
`statement_counts` and `program_counts` close the recursion.
-/

set_option autoImplicit false

namespace BlockSyntax

variable {α β : Type} {m n : Nat}

/-! ## Chains of parsers -/

namespace Reply

/-- The nodes completed before a reply and those it counts are as many as its value is
worth.  Nothing is said of a failure. -/
def Counts (before : Nat) (worth : α → Nat) : Reply α n → Prop
  | ok a _ made _ => before + made = worth a
  | fail _ _ _ => True

variable {before : Nat} {worth : α → Nat} {r : Reply α n}

theorem counts_ok {a : α} {rest : List Token} {made : Nat} {h : rest.length < n} :
    (ok a rest made h : Reply α n).Counts before worth ↔ before + made = worth a :=
  Iff.rfl

theorem counts_fail {e : Expectation} {rest : List Token} {made : Nat} :
    (fail e rest made : Reply α n).Counts before worth :=
  trivial

theorem Counts.after {earlier : Nat} (counts : r.Counts (before + earlier) worth) :
    (r.after earlier).Counts before worth := by
  cases r with
  | ok a rest made h => exact (Nat.add_assoc _ _ _).symm.trans counts
  | fail => exact counts_fail

theorem Counts.node (counts : r.Counts (before + 1) worth) : r.node.Counts before worth := by
  cases r with
  | ok a rest made h =>
      have one : before + 1 + made = worth a := counts
      exact counts_ok.mpr (by omega)
  | fail => exact counts_fail

theorem Counts.map {f : α → β} {total : β → Nat} (counts : r.Counts before worth)
    (same : ∀ a, total (f a) = worth a) :
    (r.map f).Counts before total := by
  cases r with
  | ok a rest made h => exact Eq.trans counts (same a).symm
  | fail => exact counts_fail

theorem Counts.widen {r : Reply α m} {h : m ≤ n} (counts : r.Counts before worth) :
    (r.widen h).Counts before worth := by
  cases r with
  | ok a rest made h => exact counts
  | fail => exact counts_fail

/-- What a value is worth is added to what was completed before the parser behind it. -/
theorem Counts.bind {r : Reply α m} {total : β → Nat}
    {next : α → (rest : List Token) → rest.length < m → Reply β n} (counts : r.Counts 0 worth)
    (behind : ∀ a rest h, (next a rest h).Counts (before + worth a) total) :
    (r.bind next).Counts before total := by
  cases r with
  | ok a rest made h =>
      have same : 0 + made = worth a := counts
      have following := behind a rest h
      rw [← same, Nat.zero_add] at following
      exact following.after
  | fail => exact counts_fail

end Reply

open Reply

/-! ## Tokens and repetition -/

theorem counts_takeIf {test : TokenKind → Bool} {expected : Expectation} {tokens : List Token}
    {k : Nat} : (takeIf test expected tokens).Counts k fun _ => k := by
  cases tokens with
  | nil => exact counts_fail
  | cons t rest =>
      simp only [takeIf]
      split
      · exact counts_ok.mpr rfl
      · exact counts_fail

theorem counts_take {k : TokenKind} {tokens : List Token} :
    (take k tokens).Counts 0 fun _ => 0 :=
  counts_takeIf

theorem counts_takeAfter {k : TokenKind} {part : Part} {tokens : List Token} :
    (takeAfter k part tokens).Counts 0 fun _ => 0 :=
  counts_takeIf

/-- A token that becomes a terminal. -/
theorem counts_takeIf_node {test : TokenKind → Bool} {expected : Expectation}
    {tokens : List Token} : (takeIf test expected tokens).node.Counts 0 fun _ => 1 :=
  Counts.node counts_takeIf

/-- A token that becomes a terminal in a construct of its own. -/
theorem counts_takeIf_leaf {test : TokenKind → Bool} {expected : Expectation}
    {tokens : List Token} : (takeIf test expected tokens).node.node.Counts 0 fun _ => 2 :=
  Counts.node (Counts.node counts_takeIf)

theorem counts_takeName {role : NameRole} {tokens : List Token} :
    (takeName role tokens).Counts 0 fun _ => 1 :=
  counts_takeIf_node

theorem counts_takeType {tokens : List Token} : (takeType tokens).Counts 0 fun _ => 1 :=
  counts_takeIf_node

theorem counts_skip {k : TokenKind} {tokens : List Token} :
    (skip k tokens).Counts 0 fun _ => 0 := by
  unfold skip
  split
  · exact .widen (.map counts_take fun _ => rfl)
  · exact counts_ok.mpr rfl

variable {worth : α → Nat}

theorem counts_whileNext {invites : TokenKind → Bool} {tokens : List Token}
    {item : Below (tokens.length + 1) α} (each : ∀ us h, (item us h).Counts 0 worth) :
    (whileNext invites tokens item).Counts 0 fun as => (as.map worth).sum := by
  fun_induction whileNext invites tokens item with
  | case1 tokens item invited ih =>
      refine (each tokens _).bind fun a rest shorter => ?_
      refine (ih rest shorter fun us _ => each us _).bind fun as rest _ => ?_
      exact counts_ok.mpr (by simp)
  | case2 tokens item stops => exact counts_ok.mpr rfl

theorem counts_separated {tokens : List Token} {item : Below (tokens.length + 1) α}
    (each : ∀ us h, (item us h).Counts 0 worth) :
    (separated tokens item).Counts 0 fun as => (as.map worth).sum := by
  fun_induction separated tokens item with
  | case1 tokens item ih =>
      refine (each tokens _).bind fun a rest shorter => ?_
      split
      · refine counts_take.bind fun _ us shorter' => ?_
        refine (ih rest shorter us shorter' fun us _ => each us _).bind fun as rest _ => ?_
        exact counts_ok.mpr (by simp)
      · exact counts_ok.mpr (by simp)

theorem counts_separatedUpTo {close : TokenKind} {tokens : List Token}
    {item : Below (tokens.length + 1) α} (each : ∀ us h, (item us h).Counts 0 worth) :
    (separatedUpTo close tokens item).Counts 0 fun as => (as.map worth).sum := by
  unfold separatedUpTo
  split
  · exact counts_ok.mpr rfl
  · exact (counts_separated each).widen

/-! ## What trees are worth -/

/-- The number of nodes of an expression. -/
def Expr.nodes (e : Expr) : Nat := e.shape.count

/-- The number of nodes of a statement. -/
def Stmt.nodes (s : Stmt) : Nat := s.shape.count

/-- The number of nodes of a program: those of its items and its own. -/
def Program.nodes (p : Program) : Nat := (p.items.map fun i => i.shape.count).sum + 1

theorem Node.countAll_eq_sum (ns : List Node) : countAll ns = (ns.map count).sum := by
  induction ns with
  | nil => rw [countAll, List.map_nil, List.sum_nil]
  | cons n ns ih => rw [countAll, List.map_cons, List.sum_cons, ih]

theorem Expr.countAll_shapes (es : List Expr) :
    Node.countAll (Expr.shapes es) = (es.map Expr.nodes).sum := by
  induction es with
  | nil => rw [Expr.shapes, Node.countAll, List.map_nil, List.sum_nil]
  | cons e es ih => rw [Expr.shapes, Node.countAll, List.map_cons, List.sum_cons, ih, Expr.nodes]

theorem Expr.countAll_listUnlessEmpty (label : String) (es : List Expr) :
    Node.countAll (Shape.listUnlessEmpty label (Expr.shapes es)) =
      (es.map Expr.nodes).sum + Grammar.listNodes es := by
  rw [← Expr.countAll_shapes]
  cases es with
  | nil => rfl
  | cons e es =>
      simp [Expr.shapes, Shape.listUnlessEmpty, Shape.list, Node.countAll, Node.count,
        Grammar.listNodes]

theorem Expr.nodes_literal (t : Token) : (Expr.literal t).nodes = 2 := by
  rw [Expr.nodes, Expr.shape]
  rfl

theorem Expr.nodes_reference (name : Token) (indices : List Expr) :
    (Expr.reference name indices).nodes =
      (indices.map Expr.nodes).sum + Grammar.listNodes indices + 2 := by
  rw [Expr.nodes, Expr.shape, Shape.construct, Node.count, Node.countAll,
    Expr.countAll_listUnlessEmpty, Shape.terminal, Node.count]
  omega

theorem Expr.nodes_call (name : Token) (arguments : List Expr) :
    (Expr.call name arguments).nodes =
      (arguments.map Expr.nodes).sum + Grammar.listNodes arguments + 2 := by
  rw [Expr.nodes, Expr.shape, Shape.construct, Node.count, Node.countAll,
    Expr.countAll_listUnlessEmpty, Shape.terminal, Node.count]
  omega

theorem Expr.nodes_unary (operator : Token) (operand : Expr) :
    (Expr.unary operator operand).nodes = operand.nodes + 2 := by
  simp only [Expr.nodes, Expr.shape, Shape.construct, Shape.terminal, Node.count, Node.countAll]
  omega

theorem Expr.nodes_binary (left : Expr) (operator : Token) (right : Expr) :
    (Expr.binary left operator right).nodes = left.nodes + right.nodes + 2 := by
  simp only [Expr.nodes, Expr.shape, Shape.construct, Shape.terminal, Node.count, Node.countAll]
  omega

/-! ## Expressions -/

namespace Grammar

/-- Prefix operators are worth two nodes each. -/
theorem nodes_foldr_unary (operators : List Token) (e : Expr) :
    (operators.foldr Expr.unary e).nodes = e.nodes + 2 * operators.length := by
  induction operators with
  | nil => rfl
  | cons o operators ih =>
      rw [List.foldr_cons, Expr.nodes_unary, ih, List.length_cons]
      omega

/-- An operator between operands is worth two nodes, like the one in front of an operand. -/
theorem nodes_joinLeft (first : Expr) (others : List (Token × Expr)) :
    (joinLeft first others).nodes =
      first.nodes + (others.map fun o => o.2.nodes + 2).sum := by
  induction others generalizing first with
  | nil => rfl
  | cons o others ih =>
      have step : joinLeft first (o :: others) = joinLeft (.binary first o.1 o.2) others := rfl
      rw [step, ih, Expr.nodes_binary, List.map_cons, List.sum_cons]
      omega

variable {self : Below n Expr} (inner : ∀ us h, (self us h).Counts 0 Expr.nodes)
include inner

theorem index_counts {tokens : List Token} {h : tokens.length ≤ n} :
    (index self tokens h).Counts 0 Expr.nodes := by
  unfold index
  refine counts_take.bind fun _ us h₁ => ?_
  refine (inner us _).bind fun e vs h₂ => ?_
  refine counts_takeAfter.bind fun _ ws h₃ => ?_
  exact counts_ok.mpr (by omega)

/-- The terminal of the name is counted before what follows it. -/
theorem reference_counts {name : Token} {tokens : List Token} {h : tokens.length < n} :
    (reference self name tokens h).Counts 1 Expr.nodes := by
  unfold reference
  split
  · refine counts_take.bind fun _ us _ => ?_
    refine (counts_separatedUpTo fun vs _ => inner vs _).bind fun arguments vs _ => ?_
    refine counts_takeAfter.bind fun _ ws _ => ?_
    rw [counts_ok, Expr.nodes_call]
    omega
  · refine (counts_whileNext fun us _ => index_counts inner).bind fun indices us _ => ?_
    rw [counts_ok, Expr.nodes_reference]
    omega

theorem primary_counts {tokens : List Token} {h : tokens.length ≤ n} :
    (primary self tokens h).Counts 0 Expr.nodes := by
  unfold primary
  split
  · exact counts_fail
  · split
    case h_1 | h_2 | h_3 => exact counts_ok.mpr (Expr.nodes_literal _).symm
    case h_4 => exact Counts.after (reference_counts inner)
    case h_5 =>
      refine (inner _ _).bind fun e us _ => ?_
      refine counts_takeAfter.bind fun _ vs _ => ?_
      exact counts_ok.mpr (by omega)
    case h_6 => exact counts_fail

theorem unary_counts {tokens : List Token} {h : tokens.length ≤ n} :
    (unary self tokens h).Counts 0 Expr.nodes := by
  unfold unary
  refine (counts_whileNext fun us _ => counts_takeIf_node).bind fun operators us _ => ?_
  refine (primary_counts inner).bind fun e vs _ => ?_
  rw [counts_ok, nodes_foldr_unary, List.map_const', List.sum_replicate_nat]
  omega

theorem binary_counts {level : Nat} {tokens : List Token} {h : tokens.length ≤ n} :
    (binary self level tokens h).Counts 0 Expr.nodes := by
  induction level generalizing tokens with
  | zero => exact unary_counts inner
  | succ level ih =>
      have operations : ∀ (us : List Token) (h : us.length ≤ n),
          (operation (level + 1) (binary self level) us h).Counts 0 fun o => o.2.nodes + 2 := by
        intro us h
        unfold operation
        refine counts_takeIf_node.bind fun operator vs _ => ?_
        refine ih.bind fun right ws _ => ?_
        rw [counts_ok]
        dsimp only
        omega
      rw [binary]
      refine ih.bind fun first us _ => ?_
      refine (counts_whileNext fun vs _ => operations vs _).bind fun others vs _ => ?_
      rw [counts_ok, nodes_joinLeft]
      omega

end Grammar

open Grammar

/-- **A reply that is an expression counts the nodes of its tree.** -/
theorem expression_counts (tokens : List Token) : (expression tokens).Counts 0 Expr.nodes := by
  rw [expression]
  exact binary_counts fun us _ => expression_counts us
termination_by tokens.length

/-! ## What statements are worth -/

theorem Node.countAll_leaves (form : Construct) (label : String) (ts : List Token) :
    countAll (ts.map (Shape.leaf form label)) = 2 * ts.length := by
  induction ts with
  | nil => rfl
  | cons t ts ih =>
      rw [List.map_cons, countAll, ih, List.length_cons, Shape.leaf, Shape.construct, count,
        countAll, Shape.terminal, count, countAll]
      omega

theorem Stmt.countAll_shapes (ss : List Stmt) :
    Node.countAll (Stmt.shapes ss) = (ss.map Stmt.nodes).sum := by
  induction ss with
  | nil => rw [Stmt.shapes, Node.countAll, List.map_nil, List.sum_nil]
  | cons s ss ih => rw [Stmt.shapes, Node.countAll, List.map_cons, List.sum_cons, ih, Stmt.nodes]

/-- What a further condition with its body is worth. -/
def orIfNodes (branch : Expr × Stmt) : Nat := branch.1.nodes + branch.2.nodes + 1

theorem Stmt.countAll_orIfShapes (orIfs : List (Expr × Stmt)) :
    Node.countAll (Stmt.orIfShapes orIfs) = (orIfs.map orIfNodes).sum := by
  induction orIfs with
  | nil => rw [Stmt.orIfShapes, Node.countAll, List.map_nil, List.sum_nil]
  | cons branch orIfs ih =>
      simp only [Stmt.orIfShapes, Shape.construct, Node.countAll, Node.count, List.map_cons,
        List.sum_cons, ih, orIfNodes, Expr.nodes, Stmt.nodes]
      omega

/-- What a statement that may be absent is worth. -/
def optionNodes (last : Option Stmt) : Nat := (last.map Stmt.nodes).getD 0

theorem Stmt.countAll_optionShape (last : Option Stmt) :
    Node.countAll (Stmt.optionShape last) = optionNodes last := by
  cases last with
  | none => rw [Stmt.optionShape]; rfl
  | some s => rw [Stmt.optionShape]; rfl

theorem Stmt.nodes_declaration (type : Token) (dimensions names : List Token) :
    (Stmt.declaration type dimensions names).nodes =
      2 * dimensions.length + 2 * names.length + 4 := by
  simp only [Stmt.nodes, Stmt.shape, Shape.construct, Shape.terminal, Shape.list, Node.count,
    Node.countAll, Node.countAll_leaves]
  omega

theorem Stmt.nodes_conditional (condition : Expr) (body : Stmt) (orIfs : List (Expr × Stmt))
    (last : Option Stmt) :
    (Stmt.conditional condition body orIfs last).nodes =
      condition.nodes + body.nodes + (orIfs.map orIfNodes).sum + optionNodes last + 1 := by
  rw [Stmt.nodes, Stmt.shape, Shape.construct, Node.count, Node.countAll, Node.countAll,
    Node.countAll_append, Stmt.countAll_orIfShapes, Stmt.countAll_optionShape, ← Expr.nodes,
    ← Stmt.nodes]
  omega

/-- A construct over parts that are all there. -/
theorem Shape.count_construct (form : Construct) (parts : List Node) :
    (Shape.construct form parts).count = Node.countAll parts + 1 := by
  rw [Shape.construct, Node.count]

/-! ## Statements -/

namespace Grammar

theorem parenthesized_counts {before inside : Part} {tokens : List Token} :
    (parenthesized before inside tokens).Counts 0 Expr.nodes := by
  unfold parenthesized
  refine counts_takeAfter.bind fun _ us _ => ?_
  refine (expression_counts us).bind fun e vs _ => ?_
  refine counts_takeAfter.bind fun _ ws _ => ?_
  exact counts_ok.mpr (by omega)

/-- The terminal of the type is counted before the rest of a declaration. -/
theorem declaration_counts {type : Token} {tokens : List Token} :
    (declaration type tokens).Counts 1 Stmt.nodes := by
  have sizes : ∀ us : List Token, (dimension us).Counts 0 fun _ => 2 := by
    intro us
    unfold dimension
    refine counts_take.bind fun _ vs _ => ?_
    refine counts_takeIf_leaf.bind fun _ ws _ => ?_
    refine counts_takeAfter.bind fun _ xs _ => ?_
    exact counts_ok.mpr rfl
  unfold declaration
  refine (counts_whileNext fun us _ => sizes us).bind fun dimensions us _ => ?_
  refine (counts_separated fun vs _ => counts_takeIf_leaf).bind fun names vs _ => ?_
  refine counts_takeAfter.bind fun _ ws _ => ?_
  rw [counts_ok, Stmt.nodes_declaration]
  simp only [List.map_const', List.sum_replicate_nat]
  omega

theorem print_counts {tokens : List Token} : (print tokens).Counts 0 Stmt.nodes := by
  unfold print
  refine parenthesized_counts.bind fun value us _ => ?_
  refine counts_takeAfter.bind fun _ vs _ => ?_
  rw [counts_ok, Stmt.nodes, Stmt.shape, Shape.count_construct, Node.countAll, Node.countAll,
    ← Expr.nodes]
  omega

theorem read_counts {tokens : List Token} : (read tokens).Counts 0 Stmt.nodes := by
  unfold read
  refine parenthesized_counts.bind fun target us _ => ?_
  refine counts_takeAfter.bind fun _ vs _ => ?_
  rw [counts_ok, Stmt.nodes, Stmt.shape, Shape.count_construct, Node.countAll, Node.countAll,
    ← Expr.nodes]
  omega

/-- What the value of a `return` statement is worth, if it has one. -/
def valueNodes (value : Option Expr) : Nat := (value.map Expr.nodes).getD 0

theorem nodes_result (value : Option Expr) :
    (Stmt.result value).nodes = valueNodes value + 1 := by
  cases value with
  | none =>
      rw [Stmt.nodes, Stmt.shape]
      rfl
  | some e =>
      rw [Stmt.nodes, Stmt.shape, Shape.count_construct]
      rfl

theorem result_counts {tokens : List Token} : (result tokens).Counts 0 Stmt.nodes := by
  have value : (resultValue tokens).Counts 0 valueNodes := by
    unfold resultValue
    split
    · exact counts_ok.mpr rfl
    · exact .widen (.map (expression_counts tokens) fun _ => rfl)
  unfold result
  refine value.bind fun value us _ => ?_
  split
  · rw [counts_ok, nodes_result]
    omega
  · refine counts_takeAfter.bind fun _ vs _ => ?_
    rw [counts_ok, nodes_result]
    omega

theorem assignmentOrEvaluation_counts {tokens : List Token} :
    (assignmentOrEvaluation tokens).Counts 0 Stmt.nodes := by
  unfold assignmentOrEvaluation
  refine (expression_counts tokens).bind fun value us _ => ?_
  split
  · refine counts_take.bind fun _ vs _ => ?_
    refine (expression_counts vs).bind fun target ws _ => ?_
    refine counts_takeAfter.bind fun _ xs _ => ?_
    simp only [counts_ok, Stmt.nodes, Stmt.shape, Shape.count_construct, Node.countAll, Expr.nodes]
    omega
  · refine counts_takeAfter.bind fun _ vs _ => ?_
    simp only [counts_ok, Stmt.nodes, Stmt.shape, Shape.count_construct, Node.countAll, Expr.nodes]
    omega

theorem closing_counts {k : TokenKind} {tokens : List Token} :
    (closing k tokens).Counts 0 fun _ => 0 := by
  unfold closing
  refine counts_skip.bind fun ended us _ => ?_
  split
  · exact .widen (.map counts_takeAfter fun _ => rfl)
  · exact counts_ok.mpr rfl

variable {self : Below n Stmt} (inner : ∀ us h, (self us h).Counts 0 Stmt.nodes)
include inner

theorem orIf_counts {tokens : List Token} {h : tokens.length ≤ n} :
    (orIf self tokens h).Counts 0 orIfNodes := by
  unfold orIf
  refine counts_take.bind fun _ us _ => ?_
  refine counts_takeAfter.bind fun _ vs _ => ?_
  refine parenthesized_counts.bind fun condition ws _ => ?_
  refine (inner ws _).bind fun body xs _ => ?_
  rw [counts_ok, orIfNodes]
  dsimp only
  omega

theorem otherwise_counts {tokens : List Token} {h : tokens.length ≤ n} :
    (otherwise self tokens h).Counts 0 optionNodes := by
  unfold otherwise
  split
  · refine counts_take.bind fun _ us _ => ?_
    refine (inner us _).bind fun body vs _ => ?_
    exact counts_ok.mpr (Nat.zero_add _)
  · exact counts_ok.mpr rfl

theorem conditional_counts {tokens : List Token} {h : tokens.length ≤ n} :
    (conditional self tokens h).Counts 0 Stmt.nodes := by
  unfold conditional
  refine parenthesized_counts.bind fun condition us _ => ?_
  refine (inner us _).bind fun body vs _ => ?_
  refine (counts_whileNext fun ws _ => orIf_counts inner).bind fun orIfs ws _ => ?_
  refine (otherwise_counts inner).bind fun last xs _ => ?_
  refine counts_skip.bind fun _ ys _ => ?_
  rw [counts_ok, Stmt.nodes_conditional]
  omega

theorem loop_counts {tokens : List Token} {h : tokens.length ≤ n} :
    (loop self tokens h).Counts 0 Stmt.nodes := by
  unfold loop
  refine counts_takeAfter.bind fun _ _ _ => ?_
  refine counts_takeName.bind fun counter _ _ => ?_
  refine counts_take.bind fun _ _ _ => ?_
  refine counts_take.bind fun _ us _ => ?_
  refine (expression_counts us).bind fun lower _ _ => ?_
  refine counts_take.bind fun _ vs _ => ?_
  refine (expression_counts vs).bind fun upper _ _ => ?_
  refine counts_takeAfter.bind fun _ ws _ => ?_
  refine (inner ws _).bind fun body _ _ => ?_
  refine closing_counts.bind fun _ _ _ => ?_
  simp only [counts_ok, Stmt.nodes, Stmt.shape, Shape.count_construct, Shape.terminal, Node.count,
    Node.countAll, Expr.nodes]
  omega

theorem block_counts {tokens : List Token} {h : tokens.length < n} :
    (block self tokens h).Counts 0 Stmt.nodes := by
  unfold block
  refine (counts_whileNext fun us _ => inner us _).bind fun body us _ => ?_
  refine counts_take.bind fun _ vs _ => ?_
  rw [counts_ok, Stmt.nodes, Stmt.shape, Shape.count_construct, Stmt.countAll_shapes]
  omega

theorem begun_counts {tokens : List Token} {h : tokens.length < n} :
    (begun self tokens h).Counts 0 Stmt.nodes := by
  unfold begun
  split
  · exact counts_take.bind fun _ us _ => (conditional_counts inner).widen
  · exact counts_take.bind fun _ us _ => (loop_counts inner).widen
  · exact block_counts inner

theorem statementAround_counts {tokens : List Token} {h : tokens.length ≤ n} :
    (statementAround self tokens h).Counts 0 Stmt.nodes := by
  cases tokens with
  | nil => exact assignmentOrEvaluation_counts
  | cons t rest =>
      simp only [statementAround]
      split
      case h_1 => exact begun_counts inner
      case h_2 | h_3 | h_4 => exact (Counts.after declaration_counts).widen
      case h_5 => exact print_counts.widen
      case h_6 => exact read_counts.widen
      case h_7 => exact result_counts
      case h_8 => exact (conditional_counts inner).widen
      case h_9 => exact (loop_counts inner).widen
      case h_10 => exact assignmentOrEvaluation_counts

end Grammar

/-- **A reply that is a statement counts the nodes of its tree.** -/
theorem statement_counts (tokens : List Token) : (statement tokens).Counts 0 Stmt.nodes := by
  rw [statement]
  exact statementAround_counts fun us _ => statement_counts us
termination_by tokens.length

/-! ## Programs -/

namespace Grammar

theorem param_counts {tokens : List Token} :
    (param tokens).Counts 0 fun p => p.shape.count := by
  unfold param
  refine counts_takeName.bind fun name _ _ => ?_
  refine counts_takeAfter.bind fun _ _ _ => ?_
  refine counts_takeType.bind fun type _ _ => ?_
  exact counts_ok.mpr rfl

theorem params_counts {tokens : List Token} :
    (params tokens).Counts 0 fun ps => (ps.map fun p => p.shape.count).sum + 1 := by
  unfold params
  refine counts_takeAfter.bind fun _ us _ => ?_
  refine (counts_separatedUpTo fun vs _ => param_counts).bind fun ps vs _ => ?_
  refine counts_takeAfter.bind fun _ ws _ => ?_
  exact counts_ok.mpr (by omega)

theorem closingBegun_counts {body : Stmt} {tokens : List Token} :
    (closingBegun body tokens).Counts 0 fun _ => 0 := by
  unfold closingBegun
  split
  · exact .map counts_takeAfter fun _ => rfl
  · refine counts_takeAfter.bind fun _ us _ => ?_
    refine counts_takeAfter.bind fun _ vs _ => ?_
    exact counts_ok.mpr rfl

theorem function_counts {opened : Bool} {tokens : List Token} :
    (function opened tokens).Counts 0 fun f => f.shape.count := by
  have closed : ∀ (body : Stmt) (us : List Token),
      (if opened then (closingBegun body us).widen (length_le_succ us)
        else closing .kwFunction us).Counts 0 fun _ => 0 := by
    intro body us
    split
    · exact closingBegun_counts.widen
    · exact closing_counts
  unfold function
  refine counts_takeName.bind fun name _ _ => ?_
  refine params_counts.bind fun ps _ _ => ?_
  refine counts_takeAfter.bind fun _ _ _ => ?_
  refine counts_takeType.bind fun type us _ => ?_
  refine (statement_counts us).bind fun body vs _ => ?_
  refine (closed body vs).bind fun _ ws _ => ?_
  simp only [counts_ok, Function.shape, Shape.count_construct, Shape.terminal, Shape.list,
    Node.count, Node.countAll, Node.countAll_eq_sum, List.map_map, Stmt.nodes]
  dsimp only [Function.comp_def]
  omega

theorem enumeration_counts {tokens : List Token} :
    (enumeration tokens).Counts 0 fun e => e.shape.count := by
  have ends : ∀ us : List Token, (enumerationEnd us).Counts 0 fun _ => 0 := by
    intro us
    unfold enumerationEnd
    split
    · exact counts_ok.mpr rfl
    · exact .widen (.map counts_takeAfter fun _ => rfl)
  unfold enumeration
  refine counts_takeName.bind fun name _ _ => ?_
  refine counts_takeAfter.bind fun _ _ _ => ?_
  refine (counts_separatedUpTo fun us _ => counts_takeIf_leaf).bind fun values _ _ => ?_
  refine counts_takeAfter.bind fun _ us _ => ?_
  refine (ends us).bind fun _ vs _ => ?_
  simp only [counts_ok, Enumeration.shape, Shape.count_construct, Shape.terminal, Shape.list,
    Node.count, Node.countAll, Node.countAll_leaves, List.map_const', List.sum_replicate_nat]
  omega

theorem item_counts {tokens : List Token} : (item tokens).Counts 0 fun i => i.shape.count := by
  cases tokens with
  | nil => exact .map (statement_counts []) fun _ => rfl
  | cons t rest =>
      simp only [item]
      split
      · refine Counts.widen (counts_take.bind fun _ us _ => ?_)
        exact .widen (.map function_counts fun _ => rfl)
      · exact .widen (.map function_counts fun _ => rfl)
      · exact .widen (.map enumeration_counts fun _ => rfl)
      · exact .map (statement_counts _) fun _ => rfl

end Grammar

/-- **A reply that is a program counts the nodes of its tree.** -/
theorem program_counts (tokens : List Token) : (program tokens).Counts 0 Program.nodes := by
  unfold program
  refine (counts_whileNext fun us _ => item_counts).bind fun items us _ => ?_
  rw [counts_ok, Program.nodes]
  dsimp only
  omega

end BlockSyntax
