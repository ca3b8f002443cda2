import BlockSyntax.Proofs.ExpressionExactness
import BlockSyntax.Proofs.GrammarLocality
import BlockSyntax.Proofs.Viability

/-!
# The grammar takes no token too many

Whatever a routine of the grammar has taken can be completed, and every routine has a
sample.  There is one lemma for every routine, which follows the routine step by step, as
in the lemmas on what a parse depends on.

An expression is completed in front of what ends it.  A statement, a function and an
enumeration are completed in front of anything, because the sample of an optional closing
word has the word: an open conditional is completed with an `end` of its own, so that the
`end` of what encloses it goes where it belongs.
-/

set_option autoImplicit false

namespace BlockSyntax

open Reply

variable {I J : Type} {n : Nat}

namespace Grammar

/-! ## Expressions -/

/-- There is an operator of every level. -/
theorem exists_operator {level : Nat} (bounded : level < loosestLevel) :
    ∃ k : TokenKind, k.level = level + 1 := by
  have all : ∀ l < loosestLevel, ∃ k ∈ TokenKind.all, k.level = l + 1 := by decide
  obtain ⟨k, _, kind⟩ := all level bounded
  exact ⟨k, kind⟩

/-- A literal is an expression in front of all that ends one. -/
theorem opens_expression {first : TokenKind → Prop} {front : J → List Token}
    (opens : first .intLiteral) :
    Opens (Ends loosestLevel) first front fun j => expression (front j) := by
  let number := TokenKind.intLiteral.token
  have spells : Spells loosestLevel (.literal number) [number] := .primary (.literal rfl)
  refine ⟨[number], .literal number, fun v ends => ⟨opens, fun j list => ?_⟩⟩
  show (expression (front j)).Gives (.literal number) v
  rw [list]
  exact expression_complete spells ends

/-- A literal is a primary in front of anything. -/
theorem opens_primary {first : TokenKind → Prop} {front : J → List Token} {b : J → Nat}
    {h : ∀ j, (front j).length ≤ b j} (opens : first .intLiteral) :
    Opens (Ends 0) first front fun j => primary (innerExpr (b j)) (front j) (h j) := by
  let number := TokenKind.intLiteral.token
  have gives : ∀ {m : Nat} {us v : List Token} {h : us.length ≤ m}, us = number :: v →
      (primary (innerExpr m) us h).Gives (.literal number) v := by
    rintro m _ v h rfl
    exact (gives_primary_literal rfl).mpr ⟨rfl, rfl⟩
  exact ⟨[number], .literal number, fun v _ => ⟨opens, fun j list => gives list⟩⟩

section Expressions

variable {first : TokenKind → Prop} {input : I → List Token} {front : J → List Token}
  {b : J → Nat} {self : Below n Expr}
  (inside : ∀ us h, ViableAt (Ends loosestLevel) us (self us h) id expression)
include inside

theorem viable_insideExpr {h : ∀ i, (input i).length < n} (opens : first .intLiteral) :
    Viable (Ends loosestLevel) first input (fun i => self (input i) (h i)) front fun j =>
      expression (front j) where
  each i := (inside (input i) (h i)).comp front
  opens := opens_expression opens

theorem viable_index {h : ∀ i, (input i).length ≤ n} {h' : ∀ j, (front j).length ≤ b j}
    (opens : first .leftBracket) :
    Viable anyKind first input (fun i => index self (input i) (h i)) front fun j =>
      index (innerExpr (b j)) (front j) (h' j) := by
  unfold index
  refine .bind (viable_take (by decide) opens) fun _ => ?_
  refine .bind (viable_insideExpr inside trivial) fun e => ?_
  refine .bind (viable_takeAfter (by decide) (.of_endsExpression rfl)) fun _ => ?_
  exact .ok fun _ _ => trivial

theorem viable_reference {name : Token} {h : ∀ i, (input i).length < n}
    {h' : ∀ j, (front j).length < b j} :
    Viable (Ends 0) anyKind input (fun i => reference self name (input i) (h i)) front fun j =>
      reference (innerExpr (b j)) name (front j) (h' j) := by
  unfold reference
  refine .ite_no (p := (· = .leftParen)) (s := Ends 0) ?_ ?_ fun k ends => ?_
  · refine .bind (viable_take (by decide) trivial) fun _ => ?_
    refine .bind (viable_separatedUpTo (.of_endsExpression rfl) (by decide)
      (viable_insideExpr inside trivial) trivial) fun arguments => ?_
    refine .bind (viable_takeAfter (by decide) rfl) fun _ => ?_
    exact .ok fun _ _ => trivial
  · refine .bind (viable_whileNext (Ends 0) (fun k ends => ?_) (fun k ends => ?_)
      (viable_index inside trivial)) fun indices => ?_
    · simpa using ends.notBracket
    · exact ⟨trivial, ends⟩
    · exact .ok fun _ ends => ends
  · exact ⟨ends.notParen, trivial⟩

theorem viable_primaryBehind {t : Token} (opens : opensPrimary t.kind)
    {h : ∀ i, (input i).length < n} {h' : ∀ j, (front j).length < b j} :
    Viable (Ends 0) anyKind input (fun i => primaryBehind self t (input i) (h i)) front fun j =>
      primaryBehind (innerExpr (b j)) t (front j) (h' j) := by
  unfold primaryBehind
  cases kind : t.kind
  case intLiteral | realLiteral | boolLiteral => exact .ok fun _ _ => trivial
  case identifier => exact .after (viable_reference inside)
  case leftParen =>
    refine .bind (viable_insideExpr inside trivial) fun e => ?_
    refine .bind (viable_takeAfter (by decide) (.of_endsExpression rfl)) fun _ => ?_
    exact .ok fun _ _ => trivial
  all_goals simp [kind, opensPrimary] at opens

theorem viable_primary {h : ∀ i, (input i).length ≤ n} {h' : ∀ j, (front j).length ≤ b j}
    (opens : first .intLiteral) :
    Viable (Ends 0) first input (fun i => primary self (input i) (h i)) front fun j =>
      primary (innerExpr (b j)) (front j) (h' j) where
  opens := opens_primary opens
  each i := by
    generalize input i = us, h i = bound
    by_cases starts : opensPrimary (nextKind us)
    case neg =>
      rw [primary_of_not_opens starts]
      refine .failed (fun j same => primary_of_not_opens ?_) (opens_primary opens)
      rw [same]
      exact starts
    case pos =>
      cases us with
      | nil => cases starts
      | cons t us =>
          have bounded : ∀ j : Ahead front t, j.rest.length < b j.start := fun j =>
            length_lt_of_le (h' j.start) (j.front_eq ▸ length_lt_succ j.rest)
          have behind : Viable (Ends 0) anyKind (fun _ : Unit => us)
              (fun _ => primaryBehind self t us bound) Ahead.rest
              fun j : Ahead front t => primaryBehind (innerExpr (b j.start)) t j.rest (bounded j) :=
            viable_primaryBehind inside starts
          exact (behind.each ()).cons (primaryBehind_widens rfl bound) fun j =>
            primaryBehind_widens j.front_eq (bounded j)

theorem viable_unary {h : ∀ i, (input i).length ≤ n} {h' : ∀ j, (front j).length ≤ b j}
    (opens : first .intLiteral) :
    Viable (Ends 0) first input (fun i => unary self (input i) (h i)) front fun j =>
      unary (innerExpr (b j)) (front j) (h' j) := by
  unfold unary
  refine .bind (viable_whileNext (· = .intLiteral) ?_ ?_
    (viable_takeIf .minus rfl rfl trivial).node) fun operators => ?_
  · rintro _ rfl
    decide
  · rintro _ rfl
    exact ⟨trivial, opens⟩
  · refine .bind (viable_primary inside rfl) fun e => ?_
    exact .ok fun _ ends => ends

/-- An operand is completed in front of what a looser operator may follow as well. -/
theorem viable_binary {level : Nat} {h : ∀ i, (input i).length ≤ n}
    {h' : ∀ j, (front j).length ≤ b j} (bounded : level ≤ loosestLevel)
    (opens : first .intLiteral) :
    Viable (Ends level) first input (fun i => binary self level (input i) (h i)) front fun j =>
      binary (innerExpr (b j)) level (front j) (h' j) := by
  induction level generalizing I J first with
  | zero => exact viable_unary inside opens
  | succ level ih =>
      obtain ⟨k, kind⟩ := exists_operator bounded
      have operations : ∀ {I J : Type} {input : I → List Token} {front : J → List Token}
          {b : J → Nat} (h : ∀ i, (input i).length ≤ n) (h' : ∀ j, (front j).length ≤ b j),
          Viable (Ends level) anyKind input
            (fun i => operation (level + 1) (binary self level) (input i) (h i)) front
            fun j => operation (level + 1) (binary (innerExpr (b j)) level) (front j) (h' j) := by
        intro I J input front b h h'
        unfold operation
        refine .bind (viable_takeIf k (decide_eq_true kind) rfl trivial).node fun operator => ?_
        refine .bind (ih (Nat.le_of_succ_le bounded) trivial) fun right => ?_
        exact .ok fun _ ends => ends
      unfold binary
      refine .bind (ih (Nat.le_of_succ_le bounded) opens) fun left => ?_
      refine .bind (viable_whileNext (Ends (level + 1)) ?_ ?_ (operations _ _)) fun others => ?_
      · intro k ends
        have looser := ends.looser
        simp only [decide_eq_true_eq]
        omega
      · exact fun k ends => ⟨ends.of_looser, ends.of_looser⟩
      · exact .ok fun _ ends => ends

end Expressions

end Grammar

open Grammar

/-- **What is taken for an expression can be completed.** -/
theorem viableAt_expression (us : List Token) :
    ViableAt (Ends loosestLevel) us (expression us) id expression := by
  have parsed : Viable (Ends loosestLevel) anyKind (fun _ : Unit => us)
      (fun _ => binary (fun vs (_ : vs.length < us.length) => expression vs) loosestLevel us
        (Nat.le_refl _)) id fun vs =>
        binary (innerExpr vs.length) loosestLevel vs (Nat.le_refl _) :=
    viable_binary (fun vs _ => viableAt_expression vs) (Nat.le_refl _) trivial
  have same : expression us = binary (fun vs (_ : vs.length < us.length) => expression vs)
      loosestLevel us (Nat.le_refl _) := by rw [expression]
  have opens : Opens (Ends loosestLevel) anyKind id expression := opens_expression trivial
  rw [same]
  exact (parsed.each ()).congr (fun vs _ => expression_eq vs) opens
termination_by us.length

namespace Grammar

section Lines

variable {first : TokenKind → Prop} {input : I → List Token} {front : J → List Token}

theorem viable_expression (opens : first .intLiteral) :
    Viable (Ends loosestLevel) first input (fun i => expression (input i)) front fun j =>
      expression (front j) where
  each i := (viableAt_expression (input i)).comp front
  opens := opens_expression opens

/-! ## Statements without statements inside -/

theorem viable_parenthesized {before inside : Part} (opens : first .leftParen) :
    Viable anyKind first input (fun i => parenthesized before inside (input i)) front fun j =>
      parenthesized before inside (front j) := by
  unfold parenthesized
  refine .bind (viable_takeAfter (by decide) opens) fun _ => ?_
  refine .bind (viable_expression trivial) fun e => ?_
  refine .bind (viable_takeAfter (by decide) (.of_endsExpression rfl)) fun _ => ?_
  exact .ok fun _ _ => trivial

theorem viable_dimension (opens : first .leftBracket) :
    Viable anyKind first input (fun i => dimension (input i)) front fun j =>
      dimension (front j) := by
  unfold dimension
  refine .bind (viable_take (by decide) opens) fun _ => ?_
  refine .bind (viable_takeIf .intLiteral rfl rfl trivial).node.node fun size => ?_
  refine .bind (viable_takeAfter (by decide) trivial) fun _ => ?_
  exact .ok fun _ _ => trivial

theorem viable_declaration {type : Token} (opens : first .identifier) :
    Viable anyKind first input (fun i => declaration type (input i)) front fun j =>
      declaration type (front j) := by
  unfold declaration
  refine .bind (viable_whileNext (· = .identifier) ?_ ?_ (viable_dimension trivial))
    fun dimensions => ?_
  · rintro _ rfl
    decide
  · rintro _ rfl
    exact ⟨trivial, opens⟩
  · refine .bind (viable_separated .semicolon trivial (by decide)
      (.node (viable_takeName rfl))) fun names => ?_
    refine .bind (viable_takeAfter (by decide) rfl) fun _ => ?_
    exact .ok fun _ _ => trivial

theorem viable_print (opens : first .leftParen) :
    Viable anyKind first input (fun i => print (input i)) front fun j => print (front j) := by
  unfold print
  refine .bind (viable_parenthesized opens) fun value => ?_
  refine .bind (viable_takeAfter (by decide) trivial) fun _ => ?_
  exact .ok fun _ _ => trivial

theorem viable_read (opens : first .leftParen) :
    Viable anyKind first input (fun i => read (input i)) front fun j => read (front j) := by
  unfold read
  refine .bind (viable_parenthesized opens) fun target => ?_
  refine .bind (viable_takeAfter (by decide) trivial) fun _ => ?_
  exact .ok fun _ _ => trivial

/-- The value of a `return` may be left out in front of a semicolon. -/
theorem viable_resultValue (opens : first .semicolon) :
    Viable (· = .semicolon) first input (fun i => resultValue (input i)) front fun j =>
      resultValue (front j) := by
  have none : Viable (· = .semicolon) (· = .semicolon) input
      (fun i => (.ok none (input i) 0 (length_lt_succ _) :
        Reply (Option Expr) ((input i).length + 1))) front fun j =>
      (.ok none (front j) 0 (length_lt_succ _) :
        Reply (Option Expr) ((front j).length + 1)) := .ok fun _ => id
  refine none.ite_yes (p := (endsResult ·)) ?_ ?_
  · rintro _ rfl
    exact ⟨rfl, opens⟩
  · refine .widen (.map _ ((viable_expression trivial).mono ?_ fun _ => id))
    rintro _ rfl
    exact .of_endsExpression rfl

/-- A `return` is completed with a semicolon, which it needs in front of anything. -/
theorem viable_result (opens : first .semicolon) :
    Viable anyKind first input (fun i => result (input i)) front fun j => result (front j) := by
  unfold result
  refine .bind (viable_resultValue opens) fun value => ?_
  refine .ite_no (p := fun k => k = .kwEnd ∨ k = .eof) (s := (· = .semicolon))
    (.ok fun _ _ => trivial) ?_ ?_
  · refine .bind (viable_takeAfter (by decide) rfl) fun _ => ?_
    exact .ok fun _ _ => trivial
  · rintro _ rfl
    exact ⟨by decide, rfl⟩

theorem viable_assignmentOrEvaluation (opens : first .intLiteral) :
    Viable anyKind first input (fun i => assignmentOrEvaluation (input i)) front fun j =>
      assignmentOrEvaluation (front j) := by
  unfold assignmentOrEvaluation
  refine .bind (viable_expression opens) fun value => ?_
  refine .ite_no (p := (· = .assignArrow)) (s := (· = .semicolon)) ?_ ?_ ?_
  · refine .bind (viable_take (by decide) trivial) fun _ => ?_
    refine .bind (viable_expression trivial) fun target => ?_
    refine .bind (viable_takeAfter (by decide) (.of_endsExpression rfl)) fun _ => ?_
    exact .ok fun _ _ => trivial
  · refine .bind (viable_takeAfter (by decide) rfl) fun _ => ?_
    exact .ok fun _ _ => trivial
  · rintro _ rfl
    exact ⟨by decide, .of_endsExpression rfl⟩

/-- The words that may close a construct are completed with both of them. -/
theorem viable_closing {k : TokenKind} (mark : k ≠ .eof) (opens : first .kwEnd) :
    Viable anyKind first input (fun i => closing k (input i)) front fun j =>
      closing k (front j) := by
  unfold closing
  refine .bind (viable_skip (by decide) opens) fun ended => ?_
  cases ended with
  | true =>
      have taken : Viable anyKind anyKind (fun p : Behind fun i => (input i).length + 1 => p.rest)
          (fun p => ((takeAfter k (.word .kwEnd) p.rest).map fun _ => ()).widen p.length_le)
          (fun p : Behind fun j => (front j).length + 1 => p.rest)
          fun p => ((takeAfter k (.word .kwEnd) p.rest).map fun _ => ()).widen p.length_le :=
        .widen (.map _ (viable_takeAfter mark trivial))
      exact taken
  | false => exact .ok fun _ _ => trivial

end Lines

/-! ## Statements with statements inside -/

/-- An expression with a semicolon is a statement. -/
theorem opens_statementAround {first : TokenKind → Prop} {front : J → List Token} {b : J → Nat}
    {h : ∀ j, (front j).length ≤ b j} (opens : first .intLiteral) :
    Opens anyKind first front fun j => statementAround (inner (b j)) (front j) (h j) := by
  have stated : Viable anyKind (· = .intLiteral) front (fun j => assignmentOrEvaluation (front j))
      front fun j => assignmentOrEvaluation (front j) := viable_assignmentOrEvaluation rfl
  refine stated.opens.congr (fun j starts => statementAround_of_not_starts ?_) ?_
  · rw [starts]
    decide
  · rintro _ rfl
    exact opens

theorem opens_statement {first : TokenKind → Prop} {front : J → List Token}
    (opens : first .intLiteral) : Opens anyKind first front fun j => statement (front j) := by
  have around : Opens anyKind first front fun j =>
      statementAround (inner (front j).length) (front j) (Nat.le_refl _) :=
    opens_statementAround opens
  exact around.image (g := id) fun j s v gives => by rwa [statement_eq]

/-- The kinds in front of which the branches of a conditional are over. -/
def endsBranches (k : TokenKind) : Prop := k ≠ .kwOr ∧ k ≠ .kwElse

section Inside

variable {first : TokenKind → Prop} {input : I → List Token} {front : J → List Token}
  {b : J → Nat} {self : Below n Stmt}
  (inside : ∀ us h, ViableAt anyKind us (self us h) id statement)
include inside

theorem viable_insideStmt {h : ∀ i, (input i).length < n} (opens : first .intLiteral) :
    Viable anyKind first input (fun i => self (input i) (h i)) front fun j =>
      statement (front j) where
  each i := (inside (input i) (h i)).comp front
  opens := opens_statement opens

theorem viable_orIf {h : ∀ i, (input i).length ≤ n} {h' : ∀ j, (front j).length ≤ b j}
    (opens : first .kwOr) :
    Viable anyKind first input (fun i => orIf self (input i) (h i)) front fun j =>
      orIf (inner (b j)) (front j) (h' j) := by
  unfold orIf
  refine .bind (viable_take (by decide) opens) fun _ => ?_
  refine .bind (viable_takeAfter (by decide) trivial) fun _ => ?_
  refine .bind (viable_parenthesized trivial) fun condition => ?_
  refine .bind (viable_insideStmt inside trivial) fun body => ?_
  exact .ok fun _ _ => trivial

theorem viable_otherwise {h : ∀ i, (input i).length ≤ n} {h' : ∀ j, (front j).length ≤ b j} :
    Viable endsBranches (· ≠ .kwOr) input (fun i => otherwise self (input i) (h i)) front fun j =>
      otherwise (inner (b j)) (front j) (h' j) := by
  unfold otherwise
  refine .ite_no (p := (· = .kwElse)) (s := endsBranches) ?_ (.ok fun _ => id) ?_
  · refine .bind (viable_take (by decide) trivial) fun _ => ?_
    refine .bind (viable_insideStmt inside trivial) fun body => ?_
    exact .ok fun _ _ => trivial
  · exact fun k ends => ⟨ends.2, ends.1⟩

/-- A conditional is completed with an `end` of its own. -/
theorem viable_conditional {h : ∀ i, (input i).length ≤ n} {h' : ∀ j, (front j).length ≤ b j}
    (opens : first .leftParen) :
    Viable anyKind first input (fun i => conditional self (input i) (h i)) front fun j =>
      conditional (inner (b j)) (front j) (h' j) := by
  unfold conditional
  refine .bind (viable_parenthesized opens) fun condition => ?_
  refine .bind (viable_insideStmt inside trivial) fun body => ?_
  refine .bind (viable_whileNext (· ≠ .kwOr) ?_ ?_ (viable_orIf inside trivial)) fun orIfs => ?_
  · simp
  · exact fun _ _ => ⟨trivial, trivial⟩
  · refine .bind (viable_otherwise inside) fun last => ?_
    -- the `end` is optional, but only with it does the conditional end in front of anything
    refine .bind (viable_skip (by decide) ⟨by decide, by decide⟩) fun _ => ?_
    exact .ok fun _ _ => trivial

theorem viable_loop {h : ∀ i, (input i).length ≤ n} {h' : ∀ j, (front j).length ≤ b j}
    (opens : first .leftParen) :
    Viable anyKind first input (fun i => loop self (input i) (h i)) front fun j =>
      loop (inner (b j)) (front j) (h' j) := by
  unfold loop
  refine .bind (viable_takeAfter (by decide) opens) fun _ => ?_
  refine .bind (viable_takeName trivial) fun counter => ?_
  refine .bind (viable_take (by decide) trivial) fun _ => ?_
  refine .bind (viable_take (by decide) trivial) fun _ => ?_
  refine .bind (viable_expression trivial) fun lower => ?_
  refine .bind (viable_take (by decide) (.of_endsExpression rfl)) fun _ => ?_
  refine .bind (viable_expression trivial) fun upper => ?_
  refine .bind (viable_takeAfter (by decide) (.of_endsExpression rfl)) fun _ => ?_
  refine .bind (viable_insideStmt inside trivial) fun body => ?_
  refine .bind (viable_closing (by decide) trivial) fun _ => ?_
  exact .ok fun _ _ => trivial

theorem viable_block {h : ∀ i, (input i).length < n} {h' : ∀ j, (front j).length < b j}
    (opens : first .kwEnd) :
    Viable anyKind first input (fun i => block self (input i) (h i)) front fun j =>
      block (inner (b j)) (front j) (h' j) := by
  unfold block
  refine .bind (viable_whileNext (· = .kwEnd) ?_ ?_ (viable_insideStmt inside trivial))
    fun body => ?_
  · rintro _ rfl
    decide
  · rintro _ rfl
    exact ⟨trivial, opens⟩
  · refine .bind (viable_take (by decide) rfl) fun _ => ?_
    exact .ok fun _ _ => trivial

/-- What a `begin` opens may be an empty block. -/
theorem viable_begun {h : ∀ i, (input i).length < n} {h' : ∀ j, (front j).length < b j}
    (opens : first .kwEnd) :
    Viable anyKind first input (fun i => begun self (input i) (h i)) front fun j =>
      begun (inner (b j)) (front j) (h' j) := by
  -- an `end` is neither `if` nor `for`, so it closes a block that nothing is in
  have sample : Opens anyKind first front fun j => begun (inner (b j)) (front j) (h' j) := by
    have blocks : Viable anyKind (· = .kwEnd) input (fun i => block self (input i) (h i)) front
        fun j => block (inner (b j)) (front j) (h' j) := viable_block inside rfl
    refine blocks.opens.congr (fun j ends => begun_block ?_ ?_) ?_
    · rw [ends]
      decide
    · rw [ends]
      decide
    · rintro _ rfl
      exact opens
  refine ⟨fun i => ?_, sample⟩
  by_cases isIf : nextKind (input i) = .kwIf
  · have chain : Viable anyKind anyKind input (fun i => conditionalAt self (input i) (h i)) front
        fun j => conditionalAt (inner (b j)) (front j) (h' j) :=
      .bind (viable_take (by decide) trivial) fun _ => .widen (viable_conditional inside trivial)
    rw [begun_if isIf]
    exact (chain.each i).congr (fun j same => begun_if (same.trans isIf)) sample
  by_cases isFor : nextKind (input i) = .kwFor
  · have chain : Viable anyKind anyKind input (fun i => loopAt self (input i) (h i)) front
        fun j => loopAt (inner (b j)) (front j) (h' j) :=
      .bind (viable_take (by decide) trivial) fun _ => .widen (viable_loop inside trivial)
    rw [begun_for isFor]
    exact (chain.each i).congr (fun j same => begun_for (same.trans isFor)) sample
  · have chain : Viable anyKind anyKind input (fun i => block self (input i) (h i)) front
        fun j => block (inner (b j)) (front j) (h' j) := viable_block inside trivial
    rw [begun_block isIf isFor]
    refine (chain.each i).congr (fun j same => begun_block ?_ ?_) sample
    · exact same ▸ isIf
    · exact same ▸ isFor

theorem viable_statementBehind {t : Token} (starts : startsStatement t.kind)
    {h : ∀ i, (input i).length < n} {h' : ∀ j, (front j).length < b j} :
    Viable anyKind anyKind input (fun i => statementBehind self t (input i) (h i)) front fun j =>
      statementBehind (inner (b j)) t (front j) (h' j) := by
  unfold statementBehind
  cases kind : t.kind
  case kwBegin => exact viable_begun inside trivial
  case kwInt | kwReal | kwBool => exact .widen (.after (viable_declaration trivial))
  case kwPrint => exact .widen (viable_print trivial)
  case kwRead => exact .widen (viable_read trivial)
  case kwReturn => exact viable_result trivial
  case kwIf => exact .widen (viable_conditional inside trivial)
  case kwFor => exact .widen (viable_loop inside trivial)
  all_goals simp [kind, startsStatement] at starts

theorem viable_statementAround {h : ∀ i, (input i).length ≤ n}
    {h' : ∀ j, (front j).length ≤ b j} (opens : first .intLiteral) :
    Viable anyKind first input (fun i => statementAround self (input i) (h i)) front fun j =>
      statementAround (inner (b j)) (front j) (h' j) where
  opens := opens_statementAround opens
  each i := by
    have sample : Opens anyKind anyKind front fun j =>
        statementAround (inner (b j)) (front j) (h' j) := opens_statementAround trivial
    generalize input i = us, h i = bound
    by_cases starts : startsStatement (nextKind us)
    case neg =>
      have stated : Viable anyKind anyKind (fun _ : Unit => us)
          (fun _ => assignmentOrEvaluation us) front fun j => assignmentOrEvaluation (front j) :=
        viable_assignmentOrEvaluation trivial
      rw [statementAround_of_not_starts starts]
      refine (stated.each ()).congr (fun j same => statementAround_of_not_starts ?_) sample
      rw [same]
      exact starts
    case pos =>
      cases us with
      | nil => cases starts
      | cons t us =>
          have bounded : ∀ j : Ahead front t, j.rest.length < b j.start := fun j =>
            length_lt_of_le (h' j.start) (j.front_eq ▸ length_lt_succ j.rest)
          have behind : Viable anyKind anyKind (fun _ : Unit => us)
              (fun _ => statementBehind self t us bound) Ahead.rest
              fun j : Ahead front t => statementBehind (inner (b j.start)) t j.rest (bounded j) :=
            viable_statementBehind inside starts
          exact (behind.each ()).cons (statementBehind_widens rfl bound) fun j =>
            statementBehind_widens j.front_eq (bounded j)

end Inside

end Grammar

/-- **What is taken for a statement can be completed** in front of anything. -/
theorem viableAt_statement (us : List Token) :
    ViableAt anyKind us (statement us) id statement := by
  have parsed : Viable anyKind anyKind (fun _ : Unit => us)
      (fun _ => statementAround (fun vs (_ : vs.length < us.length) => statement vs) us
        (Nat.le_refl _)) id fun vs => statementAround (inner vs.length) vs (Nat.le_refl _) :=
    viable_statementAround (fun vs _ => viableAt_statement vs) trivial
  have same : statement us = statementAround (fun vs (_ : vs.length < us.length) => statement vs)
      us (Nat.le_refl _) := by rw [statement]
  have opens : Opens anyKind anyKind id statement := opens_statement trivial
  rw [same]
  exact (parsed.each ()).congr (fun vs _ => statement_eq vs) opens
termination_by us.length

/-! ## Programs -/

namespace Grammar

section Items

variable {first : TokenKind → Prop} {input : I → List Token} {front : J → List Token}

theorem viable_statement (opens : first .intLiteral) :
    Viable anyKind first input (fun i => statement (input i)) front fun j =>
      statement (front j) where
  each i := (viableAt_statement (input i)).comp front
  opens := opens_statement opens

theorem viable_param (opens : first .identifier) :
    Viable anyKind first input (fun i => param (input i)) front fun j => param (front j) := by
  unfold param
  refine .bind (viable_takeName opens) fun name => ?_
  refine .bind (viable_takeAfter (by decide) trivial) fun _ => ?_
  refine .bind (viable_takeType trivial) fun type => ?_
  exact .ok fun _ _ => trivial

theorem viable_params (opens : first .leftParen) :
    Viable anyKind first input (fun i => params (input i)) front fun j => params (front j) := by
  unfold params
  refine .bind (viable_takeAfter (by decide) opens) fun _ => ?_
  refine .bind (viable_separatedUpTo trivial (by decide) (viable_param trivial) trivial)
    fun ps => ?_
  refine .bind (viable_takeAfter (by decide) rfl) fun _ => ?_
  exact .ok fun _ _ => trivial

theorem viable_closingBegun {body : Stmt} :
    Viable anyKind anyKind input (fun i => closingBegun body (input i)) front fun j =>
      closingBegun body (front j) := by
  unfold closingBegun
  by_cases block : body.isBlock
  · simp only [block, if_true]
    exact .map _ (viable_takeAfter (by decide) trivial)
  · simp only [block]
    refine .bind (viable_takeAfter (by decide) trivial) fun _ => ?_
    refine .bind (viable_takeAfter (by decide) trivial) fun _ => ?_
    exact .ok fun _ _ => trivial

/-- A function can be closed whether it opened with `begin` or not. -/
theorem viable_functionEnd {opened : Bool} {body : Stmt} :
    Viable anyKind anyKind input
      (fun i => if opened then (closingBegun body (input i)).widen (length_le_succ (input i))
        else closing .kwFunction (input i)) front
      fun j => if opened then (closingBegun body (front j)).widen (length_le_succ (front j))
        else closing .kwFunction (front j) := by
  cases opened with
  | true =>
      simp only [if_true]
      exact .widen viable_closingBegun
  | false => exact viable_closing (by decide) trivial

theorem viable_function {opened : Bool} (opens : first .identifier) :
    Viable anyKind first input (fun i => function opened (input i)) front fun j =>
      function opened (front j) := by
  unfold function
  refine .bind (viable_takeName opens) fun name => ?_
  refine .bind (viable_params trivial) fun ps => ?_
  refine .bind (viable_takeAfter (by decide) trivial) fun _ => ?_
  refine .bind (viable_takeType trivial) fun type => ?_
  refine .bind (viable_statement trivial) fun body => ?_
  refine .bind viable_functionEnd fun _ => ?_
  exact .ok fun _ _ => trivial

theorem viable_enumerationEnd :
    Viable anyKind anyKind input (fun i => enumerationEnd (input i)) front fun j =>
      enumerationEnd (front j) := by
  unfold enumerationEnd
  refine .ite_no (p := (endsEnumeration ·)) (s := (· = .semicolon))
    (.ok fun _ _ => trivial) (.widen (.map _ (viable_takeAfter (by decide) rfl))) ?_
  rintro _ rfl
  exact ⟨by decide, trivial⟩

theorem viable_enumeration (opens : first .identifier) :
    Viable anyKind first input (fun i => enumeration (input i)) front fun j =>
      enumeration (front j) := by
  unfold enumeration
  refine .bind (viable_takeName opens) fun name => ?_
  refine .bind (viable_takeAfter (by decide) trivial) fun _ => ?_
  refine .bind (viable_separatedUpTo trivial (by decide) (.node (viable_takeName trivial)) trivial)
    fun values => ?_
  refine .bind (viable_takeAfter (by decide) rfl) fun _ => ?_
  refine .bind viable_enumerationEnd fun _ => ?_
  exact .ok fun _ _ => trivial

theorem viable_functionAt :
    Viable anyKind anyKind input (fun i => functionAt (input i)) front fun j =>
      functionAt (front j) := by
  unfold functionAt
  refine .bind (viable_take (by decide) trivial) fun _ => ?_
  exact .widen (.map _ (viable_function trivial))

theorem viable_itemBehind {t : Token} {us : List Token} (opens : opensItem t.kind) :
    Viable anyKind anyKind (fun _ : Unit => us) (fun _ => itemBehind t us) front fun j =>
      itemBehind t (front j) := by
  unfold itemBehind
  cases kind : t.kind
  case kwBegin =>
    have begins : Viable anyKind (· = .kwEnd) (fun _ : Unit => us)
        (fun _ => begun (inner (us.length + 1)) us (length_lt_succ us)) front fun j =>
          begun (inner ((front j).length + 1)) (front j) (length_lt_succ (front j)) :=
      viable_begun (fun vs _ => viableAt_statement vs) rfl
    refine .ite_no (p := (· = .kwFunction)) (.widen viable_functionAt) (.map _ begins) ?_
    rintro _ rfl
    exact ⟨by decide, trivial⟩
  case kwFunction => exact .widen (.map _ (viable_function trivial))
  case kwEnum => exact .widen (.map _ (viable_enumeration trivial))
  all_goals simp [kind, opensItem] at opens

theorem viable_item (opens : first .intLiteral) :
    Viable anyKind first input (fun i => item (input i)) front fun j => item (front j) := by
  have stated : Viable anyKind (· = .intLiteral) input
      (fun i => (statement (input i)).map Item.statement) front fun j =>
        (statement (front j)).map Item.statement := .map _ (viable_statement rfl)
  have sample : Opens anyKind first front fun j => item (front j) := by
    refine stated.opens.congr (fun j starts => item_of_not_opens ?_) ?_
    · rw [starts]
      decide
    · rintro _ rfl
      exact opens
  refine ⟨fun i => ?_, sample⟩
  by_cases starts : opensItem (nextKind (input i))
  case neg =>
    rw [item_of_not_opens starts]
    refine (stated.each i).congr (fun j same => item_of_not_opens ?_) sample
    rw [same]
    exact starts
  case pos =>
    generalize input i = us at starts ⊢
    cases us with
    | nil => cases starts
    | cons t us =>
        have behind : Viable anyKind anyKind (fun _ : Unit => us) (fun _ => itemBehind t us)
            Ahead.rest fun j : Ahead front t => itemBehind t j.rest := viable_itemBehind starts
        exact (behind.each ()).cons (itemBehind_widens rfl) fun j => itemBehind_widens j.front_eq

end Items

end Grammar

/-- **What is taken for a program can be completed.** -/
theorem viableAt_program (us : List Token) :
    ViableAt (· = .eof) us (program us) id program := by
  have parsed : Viable (· = .eof) anyKind (fun _ : Unit => us) (fun _ => program us) id
      program := by
    unfold program
    refine .bind (viable_whileNext (· = .eof) ?_ ?_ (viable_item trivial)) fun items => ?_
    · rintro _ rfl
      decide
    · exact fun _ _ => ⟨trivial, trivial⟩
    · exact .ok fun _ => id
  exact parsed.each ()

/-- What a parse that fails has taken is completed by other tokens. -/
theorem program_fails_completed {used left : List Token} {expected : Expectation} {made : Nat}
    (failed : program (used ++ left) = .fail expected left made) :
    ∃ more p, (program (used ++ more)).Gives p [] := by
  obtain ⟨taken, parts, more, p, completed⟩ := (viableAt_program (used ++ left)).completes
  rw [failed] at parts
  obtain rfl : used = taken := List.append_cancel_right parts
  exact ⟨more, p, completed [] rfl (used ++ more) (by rw [List.append_nil]; rfl)⟩

/-- A parse that fails fails in the same way on all that starts with the tokens taken and goes
on with a token of the same kind. -/
theorem program_fails_alike {used left rest : List Token} {expected : Expectation} {made : Nat}
    (failed : program (used ++ left) = .fail expected left made)
    (same : nextKind rest = nextKind left) :
    program (used ++ rest) = .fail expected rest made := by
  obtain ⟨taken, parts, alike⟩ := (viableAt_program (used ++ left)).determines
  rw [failed] at parts alike
  obtain rfl : used = taken := List.append_cancel_right parts
  exact alike (used ++ rest) rest (by rw [List.map_id]; rfl) same

end BlockSyntax
