import BlockSyntax.Grammar.Session
import BlockSyntax.Proofs.Locality
import BlockSyntax.Proofs.ProgramRoutines
import BlockSyntax.Proofs.StatementReading
import BlockSyntax.Proofs.TokenMaps

/-!
# What a parse depends on

The reply to a request for an expression, a statement or a program is determined by the
tokens that are taken and the kind of the token behind them.  There is one lemma for every
routine, which follows the routine step by step; the parser for the parts inside is one
that is known to be determined, and the recursion is closed once for expressions and once
for statements.

The tree that is read is the same with other tokens in the places of those taken, and a
routine that looks at a tree it has read looks at its form alone.
-/

set_option autoImplicit false

namespace BlockSyntax

open Reply

variable {α β : Type} {J : Type} {n : Nat}

namespace Grammar

/-! ## Expressions -/

/-- The parser for the expressions inside an expression, whose tokens are below a bound. -/
def innerExpr (n : Nat) : Below n Expr := fun us _ => expression us

theorem listNodes_map (g : α → β) (items : List α) : listNodes (items.map g) = listNodes items := by
  cases items <;> rfl

theorem foldr_unary_mapTokens (f : Token → Token) (operators : List Token) (e : Expr) :
    (operators.map f).foldr Expr.unary (e.mapTokens f) =
      (operators.foldr Expr.unary e).mapTokens f := by
  induction operators with
  | nil => rfl
  | cons o operators ih => rw [List.map_cons, List.foldr_cons, ih, List.foldr_cons, Expr.mapTokens]

theorem joinLeft_mapTokens (f : Token → Token) (first : Expr) (others : List (Token × Expr)) :
    joinLeft (first.mapTokens f) (others.map (Prod.map f (Expr.mapTokens f))) =
      (joinLeft first others).mapTokens f := by
  induction others generalizing first with
  | nil => rfl
  | cons o others ih =>
      have joined := ih (.binary first o.1 o.2)
      rw [Expr.mapTokens] at joined
      exact joined

/-- Reads a primary behind its first token, which may be one that starts a primary. -/
def primaryBehind (self : Below n Expr) (t : Token) (tokens : List Token) (h : tokens.length < n) :
    Reply Expr (tokens.length + 1) :=
  match t.kind with
  | .intLiteral | .realLiteral | .boolLiteral => .ok (.literal t) tokens 2 (length_lt_succ tokens)
  | .identifier => (reference self t tokens h).after 1
  | .leftParen =>
    (self tokens h).bind fun e rest first =>
    (takeAfter .rightParen .expression rest).bind fun _ rest second =>
    .ok e rest 0 (Nat.lt_succ_of_lt (length_lt_two first second))
  | _ => .fail .expression (t :: tokens) 0

/-- The kinds of the tokens a primary may start with. -/
def opensPrimary : TokenKind → Bool
  | .intLiteral | .realLiteral | .boolLiteral | .identifier | .leftParen => true
  | _ => false

section FirstToken

variable {self : Below n Expr} {vs : List Token} {h : vs.length ≤ n}

theorem primaryBehind_widens {t : Token} {us : List Token} (first : vs = t :: us)
    (h' : us.length < n) : (primaryBehind self t us h').Widens (primary self vs h) := by
  subst first
  exact widens_refl (primaryBehind self t us h')

theorem primary_of_not_opens (other : ¬ opensPrimary (nextKind vs)) :
    primary self vs h = .fail .expression vs 0 := by
  cases vs with
  | nil => rw [primary]
  | cons t us =>
      rw [nextKind_cons] at other
      rw [primary]
      split
      case h_6 => rfl
      all_goals simp_all [opensPrimary]

end FirstToken

section Expressions

variable {f : Token → Token} (kinds : ∀ t, (f t).kind = t.kind) {us : List Token}
  {front : J → List Token} {b : J → Nat} {self : Below n Expr}
  (inside : ∀ us h, (self us h).Determines f (Expr.mapTokens f) us id expression)
include kinds inside

theorem index_determined {h : us.length ≤ n} {h' : ∀ j, (front j).length ≤ b j} :
    (index self us h).Determines f (Expr.mapTokens f) us front fun j =>
      index (innerExpr (b j)) (front j) (h' j) := by
  unfold index
  refine .bind kinds (determines_take kinds (by decide)) fun _ vs _ => ?_
  refine .bind kinds ((inside vs _).comp Behind.rest) fun e ws _ => ?_
  refine .bind kinds (determines_takeAfter kinds (by decide)) fun _ xs _ => ?_
  exact .ok _

theorem reference_determined {name : Token} {h : us.length < n} {h' : ∀ j, (front j).length < b j} :
    (reference self name us h).Determines f (Expr.mapTokens f) us front fun j =>
      reference (innerExpr (b j)) (f name) (front j) (h' j) := by
  unfold reference
  refine .ite (p := (· = .leftParen)) kinds (fun _ => ?_) fun _ => ?_
  · refine .bind kinds (determines_take kinds (by decide)) fun _ vs _ => ?_
    refine .bind kinds (determines_separatedUpTo kinds fun ws _ =>
      (inside ws _).comp Behind.rest) fun arguments ws _ => ?_
    refine .bind kinds (determines_takeAfter kinds (by decide)) fun _ xs _ => ?_
    refine .ok_of _ ?_ (congrArg (· + 1) (listNodes_map _ arguments))
    rw [Expr.mapTokens, Expr.mapTokensAll_eq_map]
  · refine .bind kinds (determines_whileNext kinds fun vs _ =>
      index_determined kinds inside) fun indices vs _ => ?_
    refine .ok_of _ ?_ (congrArg (· + 1) (listNodes_map _ indices))
    rw [Expr.mapTokens, Expr.mapTokensAll_eq_map]

theorem primaryBehind_determined {t : Token} (opens : opensPrimary t.kind) {h : us.length < n}
    {h' : ∀ j, (front j).length < b j} :
    (primaryBehind self t us h).Determines f (Expr.mapTokens f) us front fun j =>
      primaryBehind (innerExpr (b j)) (f t) (front j) (h' j) := by
  unfold primaryBehind
  simp only [kinds]
  split
  case h_1 | h_2 | h_3 => exact .ok_of _ rfl rfl
  case h_4 => exact (reference_determined kinds inside).after
  case h_5 =>
    refine .bind kinds ((inside us _).comp front) fun e vs _ => ?_
    refine .bind kinds (determines_takeAfter kinds (by decide)) fun _ ws _ => ?_
    exact .ok _
  case h_6 => simp_all [opensPrimary]

theorem primary_determined {h : us.length ≤ n} {h' : ∀ j, (front j).length ≤ b j} :
    (primary self us h).Determines f (Expr.mapTokens f) us front fun j =>
      primary (innerExpr (b j)) (front j) (h' j) := by
  by_cases opens : opensPrimary (nextKind us)
  case neg =>
    rw [primary_of_not_opens opens]
    refine Determines.fail.congr kinds fun j same => primary_of_not_opens ?_
    rw [same]
    exact opens
  case pos =>
    cases us with
    | nil => cases opens
    | cons t us =>
        have bounded : ∀ j : Ahead front (f t), j.rest.length < b j.start := fun j =>
          length_lt_of_le (h' j.start) (j.front_eq ▸ length_lt_succ j.rest)
        have behind : (primaryBehind self t us h).Determines f (Expr.mapTokens f) us Ahead.rest
            fun j : Ahead front (f t) =>
              primaryBehind (innerExpr (b j.start)) (f t) j.rest (bounded j) :=
          primaryBehind_determined kinds inside opens
        exact behind.cons (primaryBehind_widens rfl h) fun j =>
          primaryBehind_widens j.front_eq (bounded j)

theorem unary_determined {h : us.length ≤ n} {h' : ∀ j, (front j).length ≤ b j} :
    (unary self us h).Determines f (Expr.mapTokens f) us front fun j =>
      unary (innerExpr (b j)) (front j) (h' j) := by
  unfold unary
  refine .bind kinds (determines_whileNext kinds fun vs _ =>
    (determines_takeIf kinds rfl).node) fun operators vs _ => ?_
  refine .bind kinds (primary_determined kinds inside) fun e ws _ => ?_
  exact .ok_of _ (foldr_unary_mapTokens f operators e) (List.length_map f)

omit inside in
/-- An operation is determined when its operand is. -/
theorem operation_determined {level : Nat}
    {operand : (vs : List Token) → vs.length ≤ n → Reply Expr vs.length}
    (operand' : (m : Nat) → (vs : List Token) → vs.length ≤ m → Reply Expr vs.length)
    (operands : ∀ {K : Type} {front : K → List Token} {b : K → Nat} (vs : List Token)
      (h : vs.length ≤ n) (h' : ∀ k, (front k).length ≤ b k),
      (operand vs h).Determines f (Expr.mapTokens f) vs front fun k =>
        operand' (b k) (front k) (h' k))
    {h : us.length ≤ n} {h' : ∀ j, (front j).length ≤ b j} :
    (operation (level + 1) operand us h).Determines f (Prod.map f (Expr.mapTokens f)) us front
      fun j => operation (level + 1) (operand' (b j)) (front j) (h' j) := by
  unfold operation
  refine .bind kinds (determines_takeIf kinds rfl).node fun operator ws _ => ?_
  refine .bind kinds (operands ws _ _) fun right xs _ => ?_
  exact .ok _

theorem binary_determined {level : Nat} {h : us.length ≤ n} {h' : ∀ j, (front j).length ≤ b j} :
    (binary self level us h).Determines f (Expr.mapTokens f) us front fun j =>
      binary (innerExpr (b j)) level (front j) (h' j) := by
  induction level generalizing us J with
  | zero => exact unary_determined kinds inside
  | succ level ih =>
      unfold binary
      refine .bind kinds ih fun first vs _ => ?_
      refine .bind kinds (determines_whileNext kinds fun ws _ =>
        operation_determined kinds (fun m => binary (innerExpr m) level) fun _ _ _ => ih)
        fun others ws _ => ?_
      exact .ok_of _ (joinLeft_mapTokens f first others) rfl

end Expressions

end Grammar

open Grammar

theorem expression_eq (us : List Token) :
    expression us = binary (innerExpr us.length) loosestLevel us (Nat.le_refl _) := by
  rw [expression]
  rfl

/-- **The reply to a list of tokens, asked for an expression, is determined** by the tokens
taken and the kind of the next one. -/
theorem expression_determined {f : Token → Token} (kinds : ∀ t, (f t).kind = t.kind)
    (us : List Token) : (expression us).Determines f (Expr.mapTokens f) us id expression := by
  have parsed : (binary (fun vs (_ : vs.length < us.length) => expression vs) loosestLevel us
      (Nat.le_refl _)).Determines f (Expr.mapTokens f) us id fun vs =>
        binary (innerExpr vs.length) loosestLevel vs (Nat.le_refl _) :=
    binary_determined kinds fun vs _ => expression_determined kinds vs
  have same : expression us = binary (fun vs (_ : vs.length < us.length) => expression vs)
      loosestLevel us (Nat.le_refl _) := by rw [expression]
  rw [same]
  exact parsed.congr kinds fun vs _ => expression_eq vs
termination_by us.length

/-! ## Statements without statements inside -/

namespace Grammar

section Lines

variable {f : Token → Token} (kinds : ∀ t, (f t).kind = t.kind) {us : List Token}
  {front : J → List Token}
include kinds

theorem determines_expression :
    (expression us).Determines f (Expr.mapTokens f) us front fun j => expression (front j) :=
  (expression_determined kinds us).comp front

theorem parenthesized_determined {before inside : Part} :
    (parenthesized before inside us).Determines f (Expr.mapTokens f) us front fun j =>
      parenthesized before inside (front j) := by
  unfold parenthesized
  refine .bind kinds (determines_takeAfter kinds (by decide)) fun _ vs _ => ?_
  refine .bind kinds (determines_expression kinds) fun e ws _ => ?_
  refine .bind kinds (determines_takeAfter kinds (by decide)) fun _ xs _ => ?_
  exact .ok _

theorem dimension_determined :
    (dimension us).Determines f f us front fun j => dimension (front j) := by
  unfold dimension
  refine .bind kinds (determines_take kinds (by decide)) fun _ vs _ => ?_
  refine .bind kinds (determines_takeIf kinds rfl).node.node fun size ws _ => ?_
  refine .bind kinds (determines_takeAfter kinds (by decide)) fun _ xs _ => ?_
  exact .ok _

theorem declaration_determined {type : Token} :
    (declaration type us).Determines f (Stmt.mapTokens f) us front fun j =>
      declaration (f type) (front j) := by
  unfold declaration
  refine .bind kinds (determines_whileNext kinds fun vs _ => dimension_determined kinds)
    fun dimensions vs _ => ?_
  refine .bind kinds (determines_separated kinds fun ws _ => (determines_takeName kinds).node)
    fun names ws _ => ?_
  refine .bind kinds (determines_takeAfter kinds (by decide)) fun _ xs _ => ?_
  exact .ok_of _ (by rw [Stmt.mapTokens]) rfl

theorem print_determined :
    (print us).Determines f (Stmt.mapTokens f) us front fun j => print (front j) := by
  unfold print
  refine .bind kinds (parenthesized_determined kinds) fun value vs _ => ?_
  refine .bind kinds (determines_takeAfter kinds (by decide)) fun _ ws _ => ?_
  exact .ok_of _ (by rw [Stmt.mapTokens]) rfl

theorem read_determined :
    (read us).Determines f (Stmt.mapTokens f) us front fun j => read (front j) := by
  unfold read
  refine .bind kinds (parenthesized_determined kinds) fun target vs _ => ?_
  refine .bind kinds (determines_takeAfter kinds (by decide)) fun _ ws _ => ?_
  exact .ok_of _ (by rw [Stmt.mapTokens]) rfl

theorem resultValue_determined :
    (resultValue us).Determines f (Option.map (Expr.mapTokens f)) us front fun j =>
      resultValue (front j) := by
  unfold resultValue
  refine .ite (p := (endsResult ·)) kinds (fun _ => .ok_of _ rfl rfl) fun _ => ?_
  exact .widen (.map (fun _ => rfl) (determines_expression kinds))

theorem result_determined :
    (result us).Determines f (Stmt.mapTokens f) us front fun j => result (front j) := by
  unfold result
  refine .bind kinds (resultValue_determined kinds) fun value vs _ => ?_
  refine .ite (p := fun k => k = .kwEnd ∨ k = .eof) kinds (fun _ => ?_) fun _ => ?_
  · exact .ok_of _ (by rw [Stmt.mapTokens]) rfl
  · refine .bind kinds (determines_takeAfter kinds (by decide)) fun _ ws _ => ?_
    exact .ok_of _ (by rw [Stmt.mapTokens]) rfl

theorem assignmentOrEvaluation_determined :
    (assignmentOrEvaluation us).Determines f (Stmt.mapTokens f) us front fun j =>
      assignmentOrEvaluation (front j) := by
  unfold assignmentOrEvaluation
  refine .bind kinds (determines_expression kinds) fun value vs _ => ?_
  refine .ite (p := (· = .assignArrow)) kinds (fun _ => ?_) fun _ => ?_
  · refine .bind kinds (determines_take kinds (by decide)) fun _ ws _ => ?_
    refine .bind kinds (determines_expression kinds) fun target xs _ => ?_
    refine .bind kinds (determines_takeAfter kinds (by decide)) fun _ ys _ => ?_
    exact .ok_of _ (by rw [Stmt.mapTokens]) rfl
  · refine .bind kinds (determines_takeAfter kinds (by decide)) fun _ ws _ => ?_
    exact .ok_of _ (by rw [Stmt.mapTokens]) rfl

theorem closing_determined {k : TokenKind} (mark : k ≠ .eof) :
    (closing k us).Determines f id us front fun j => closing k (front j) := by
  unfold closing
  refine .bind kinds (determines_skip kinds (by decide)) fun ended vs shorter => ?_
  cases ended with
  | true =>
      have taken : (((takeAfter k (.word .kwEnd) vs).map fun _ => ()).widen
          (Nat.le_of_lt shorter)).Determines f id vs Behind.rest
          fun j : Behind fun j => (front j).length + 1 =>
            ((takeAfter k (.word .kwEnd) j.rest).map fun _ => ()).widen j.length_le :=
        .widen (.map (fun _ => rfl) (determines_takeAfter kinds mark))
      exact taken
  | false => exact .ok _

end Lines

/-! ## Statements with statements inside -/

section Length

variable {us vs : List Token}

theorem length_le_of_lt (shorter : vs.length < us.length) : vs.length ≤ us.length :=
  Nat.le_of_lt shorter

theorem length_le_behind (shorter : vs.length < us.length) (bounded : us.length < n) :
    vs.length ≤ n :=
  Nat.le_of_lt (Nat.lt_trans shorter bounded)

theorem length_le_behind_succ (shorter : vs.length < us.length) : vs.length ≤ us.length + 1 :=
  length_le_behind shorter (length_lt_succ us)

end Length

/-- Reads a statement behind its first token, which may be one that says what it is. -/
def statementBehind (self : Below n Stmt) (t : Token) (tokens : List Token)
    (h : tokens.length < n) : Reply Stmt (tokens.length + 1) :=
  match t.kind with
  | .kwBegin => begun self tokens h
  | .kwInt | .kwReal | .kwBool => ((declaration t tokens).after 1).widen (length_le_succ tokens)
  | .kwPrint => (print tokens).widen (length_le_succ tokens)
  | .kwRead => (read tokens).widen (length_le_succ tokens)
  | .kwReturn => result tokens
  | .kwIf => (conditional self tokens (Nat.le_of_lt h)).widen (length_le_succ tokens)
  | .kwFor => (loop self tokens (Nat.le_of_lt h)).widen (length_le_succ tokens)
  | _ => assignmentOrEvaluation (t :: tokens)

/-- Reads a conditional at its `if`. -/
def conditionalAt (self : Below n Stmt) (tokens : List Token) (h : tokens.length < n) :
    Reply Stmt (tokens.length + 1) :=
  (take .kwIf tokens).bind fun _ rest shorter =>
  (conditional self rest (length_le_behind shorter h)).widen (length_le_behind_succ shorter)

/-- Reads a loop at its `for`. -/
def loopAt (self : Below n Stmt) (tokens : List Token) (h : tokens.length < n) :
    Reply Stmt (tokens.length + 1) :=
  (take .kwFor tokens).bind fun _ rest shorter =>
  (loop self rest (length_le_behind shorter h)).widen (length_le_behind_succ shorter)

section Begun

variable {self : Below n Stmt} {us : List Token} {h : us.length < n}

theorem begun_if (kind : nextKind us = .kwIf) : begun self us h = conditionalAt self us h := by
  simp only [begun, kind, conditionalAt]

theorem begun_for (kind : nextKind us = .kwFor) : begun self us h = loopAt self us h := by
  simp only [begun, kind, loopAt]

theorem begun_block (notIf : nextKind us ≠ .kwIf) (notFor : nextKind us ≠ .kwFor) :
    begun self us h = block self us h := by
  unfold begun
  split
  case h_1 kind => exact absurd kind notIf
  case h_2 kind => exact absurd kind notFor
  case h_3 => rfl

end Begun

section FirstToken

variable {self : Below n Stmt} {vs : List Token} {h : vs.length ≤ n}

theorem statementBehind_widens {t : Token} {us : List Token} (first : vs = t :: us)
    (h' : us.length < n) : (statementBehind self t us h').Widens (statementAround self vs h) := by
  subst first
  exact widens_refl (statementBehind self t us h')

theorem statementAround_of_not_starts (other : ¬ startsStatement (nextKind vs)) :
    statementAround self vs h = assignmentOrEvaluation vs := by
  cases vs with
  | nil => rw [statementAround]
  | cons t us =>
      rw [nextKind_cons] at other
      rw [statementAround]
      split
      case h_10 => rfl
      all_goals simp_all [startsStatement]

end FirstToken

section Inside

variable {f : Token → Token} (kinds : ∀ t, (f t).kind = t.kind) {us : List Token}
  {front : J → List Token} {b : J → Nat} {self : Below n Stmt}
  (inside : ∀ us h, (self us h).Determines f (Stmt.mapTokens f) us id statement)
include kinds inside

theorem orIf_determined {h : us.length ≤ n} {h' : ∀ j, (front j).length ≤ b j} :
    (orIf self us h).Determines f (orIfMapTokens f) us front fun j =>
      orIf (inner (b j)) (front j) (h' j) := by
  unfold orIf
  refine .bind kinds (determines_take kinds (by decide)) fun _ vs _ => ?_
  refine .bind kinds (determines_takeAfter kinds (by decide)) fun _ ws _ => ?_
  refine .bind kinds (parenthesized_determined kinds) fun condition xs _ => ?_
  refine .bind kinds ((inside xs _).comp Behind.rest) fun body ys _ => ?_
  exact .ok_of _ rfl rfl

theorem otherwise_determined {h : us.length ≤ n} {h' : ∀ j, (front j).length ≤ b j} :
    (otherwise self us h).Determines f (Option.map (Stmt.mapTokens f)) us front fun j =>
      otherwise (inner (b j)) (front j) (h' j) := by
  unfold otherwise
  refine .ite (p := (· = .kwElse)) kinds (fun _ => ?_) fun _ => .ok_of _ rfl rfl
  refine .bind kinds (determines_take kinds (by decide)) fun _ vs _ => ?_
  refine .bind kinds ((inside vs _).comp Behind.rest) fun body ws _ => ?_
  exact .ok_of _ rfl rfl

theorem conditional_determined {h : us.length ≤ n} {h' : ∀ j, (front j).length ≤ b j} :
    (conditional self us h).Determines f (Stmt.mapTokens f) us front fun j =>
      conditional (inner (b j)) (front j) (h' j) := by
  unfold conditional
  refine .bind kinds (parenthesized_determined kinds) fun condition vs _ => ?_
  refine .bind kinds ((inside vs _).comp Behind.rest) fun body ws _ => ?_
  refine .bind kinds (determines_whileNext kinds fun xs _ => orIf_determined kinds inside)
    fun orIfs xs _ => ?_
  refine .bind kinds (otherwise_determined kinds inside) fun last ys _ => ?_
  refine .bind kinds (determines_skip kinds (by decide)) fun _ zs _ => ?_
  refine .ok_of _ ?_ rfl
  rw [Stmt.mapTokens, Stmt.mapTokensOrIfs_eq_map, Stmt.mapTokensOption_eq_map]

theorem loop_determined {h : us.length ≤ n} {h' : ∀ j, (front j).length ≤ b j} :
    (loop self us h).Determines f (Stmt.mapTokens f) us front fun j =>
      loop (inner (b j)) (front j) (h' j) := by
  unfold loop
  refine .bind kinds (determines_takeAfter kinds (by decide)) fun _ vs _ => ?_
  refine .bind kinds (determines_takeName kinds) fun counter vs _ => ?_
  refine .bind kinds (determines_take kinds (by decide)) fun _ vs _ => ?_
  refine .bind kinds (determines_take kinds (by decide)) fun _ vs _ => ?_
  refine .bind kinds (determines_expression kinds) fun lower vs _ => ?_
  refine .bind kinds (determines_take kinds (by decide)) fun _ vs _ => ?_
  refine .bind kinds (determines_expression kinds) fun upper vs _ => ?_
  refine .bind kinds (determines_takeAfter kinds (by decide)) fun _ vs _ => ?_
  refine .bind kinds ((inside vs _).comp Behind.rest) fun body ws _ => ?_
  refine .bind kinds (closing_determined kinds (by decide)) fun _ xs _ => ?_
  exact .ok_of _ (by rw [Stmt.mapTokens]) rfl

theorem block_determined {h : us.length < n} {h' : ∀ j, (front j).length < b j} :
    (block self us h).Determines f (Stmt.mapTokens f) us front fun j =>
      block (inner (b j)) (front j) (h' j) := by
  unfold block
  refine .bind kinds (determines_whileNext kinds fun vs _ => (inside vs _).comp Behind.rest)
    fun body vs _ => ?_
  refine .bind kinds (determines_take kinds (by decide)) fun _ ws _ => ?_
  refine .ok_of _ ?_ rfl
  rw [Stmt.mapTokens, Stmt.mapTokensAll_eq_map]

theorem begun_determined {h : us.length < n} {h' : ∀ j, (front j).length < b j} :
    (begun self us h).Determines f (Stmt.mapTokens f) us front fun j =>
      begun (inner (b j)) (front j) (h' j) := by
  by_cases isIf : nextKind us = .kwIf
  · have chain : (conditionalAt self us h).Determines f (Stmt.mapTokens f) us front fun j =>
        conditionalAt (inner (b j)) (front j) (h' j) :=
      .bind kinds (determines_take kinds (by decide)) fun _ vs _ =>
        (conditional_determined kinds inside).widen
    rw [begun_if isIf]
    exact chain.congr kinds fun j same => begun_if (same.trans isIf)
  by_cases isFor : nextKind us = .kwFor
  · have chain : (loopAt self us h).Determines f (Stmt.mapTokens f) us front fun j =>
        loopAt (inner (b j)) (front j) (h' j) :=
      .bind kinds (determines_take kinds (by decide)) fun _ vs _ =>
        (loop_determined kinds inside).widen
    rw [begun_for isFor]
    exact chain.congr kinds fun j same => begun_for (same.trans isFor)
  · rw [begun_block isIf isFor]
    refine (block_determined kinds inside).congr kinds fun j same => begun_block ?_ ?_
    · exact same ▸ isIf
    · exact same ▸ isFor

theorem statementBehind_determined {t : Token} (starts : startsStatement t.kind)
    {h : us.length < n} {h' : ∀ j, (front j).length < b j} :
    (statementBehind self t us h).Determines f (Stmt.mapTokens f) us front fun j =>
      statementBehind (inner (b j)) (f t) (front j) (h' j) := by
  unfold statementBehind
  simp only [kinds]
  split
  case h_1 => exact begun_determined kinds inside
  case h_2 | h_3 | h_4 => exact (declaration_determined kinds).after.widen
  case h_5 => exact (print_determined kinds).widen
  case h_6 => exact (read_determined kinds).widen
  case h_7 => exact result_determined kinds
  case h_8 => exact (conditional_determined kinds inside).widen
  case h_9 => exact (loop_determined kinds inside).widen
  case h_10 => simp_all [startsStatement]

theorem statementAround_determined {h : us.length ≤ n} {h' : ∀ j, (front j).length ≤ b j} :
    (statementAround self us h).Determines f (Stmt.mapTokens f) us front fun j =>
      statementAround (inner (b j)) (front j) (h' j) := by
  by_cases starts : startsStatement (nextKind us)
  case neg =>
    rw [statementAround_of_not_starts starts]
    refine (assignmentOrEvaluation_determined kinds).congr kinds fun j same =>
      statementAround_of_not_starts ?_
    rw [same]
    exact starts
  case pos =>
    cases us with
    | nil => cases starts
    | cons t us =>
        have bounded : ∀ j : Ahead front (f t), j.rest.length < b j.start := fun j =>
          length_lt_of_le (h' j.start) (j.front_eq ▸ length_lt_succ j.rest)
        have behind : (statementBehind self t us h).Determines f (Stmt.mapTokens f) us Ahead.rest
            fun j : Ahead front (f t) =>
              statementBehind (inner (b j.start)) (f t) j.rest (bounded j) :=
          statementBehind_determined kinds inside starts
        exact behind.cons (statementBehind_widens rfl h) fun j =>
          statementBehind_widens j.front_eq (bounded j)

end Inside

end Grammar

theorem statement_eq (us : List Token) :
    statement us = statementAround (inner us.length) us (Nat.le_refl _) := by
  rw [statement]
  rfl

/-- **The reply to a list of tokens, asked for a statement, is determined** by the tokens taken
and the kind of the next one. -/
theorem statement_determined {f : Token → Token} (kinds : ∀ t, (f t).kind = t.kind)
    (us : List Token) : (statement us).Determines f (Stmt.mapTokens f) us id statement := by
  have parsed : (statementAround (fun vs (_ : vs.length < us.length) => statement vs) us
      (Nat.le_refl _)).Determines f (Stmt.mapTokens f) us id fun vs =>
        statementAround (inner vs.length) vs (Nat.le_refl _) :=
    statementAround_determined kinds fun vs _ => statement_determined kinds vs
  have same : statement us = statementAround (fun vs (_ : vs.length < us.length) => statement vs)
      us (Nat.le_refl _) := by rw [statement]
  rw [same]
  exact parsed.congr kinds fun vs _ => statement_eq vs
termination_by us.length

/-! ## Programs -/

namespace Grammar

/-- Reads a function at its word. -/
def functionAt (tokens : List Token) : Reply Item tokens.length :=
  (take .kwFunction tokens).bind fun _ rest shorter =>
  ((function true rest).map .function).widen (length_le_of_lt shorter)

/-- Reads an item behind its first token, which may be one that opens an item or a block. -/
def itemBehind (t : Token) (tokens : List Token) : Reply Item (tokens.length + 1) :=
  match t.kind with
  | .kwBegin =>
    if nextKind tokens = .kwFunction then (functionAt tokens).widen (length_le_succ tokens)
    else (begun (inner (tokens.length + 1)) tokens (length_lt_succ tokens)).map .statement
  | .kwFunction => ((function false tokens).map .function).widen (length_le_succ tokens)
  | .kwEnum => ((enumeration tokens).map .enumeration).widen (length_le_succ tokens)
  | _ => (statement (t :: tokens)).map .statement

/-- The words that open an item, or a block that is one. -/
def opensItem : TokenKind → Bool
  | .kwBegin | .kwFunction | .kwEnum => true
  | _ => false

section FirstToken

variable {vs : List Token}

theorem item_of_not_opens (other : ¬ opensItem (nextKind vs)) :
    item vs = (statement vs).map .statement := by
  cases vs with
  | nil => rw [item]
  | cons t us =>
      rw [nextKind_cons] at other
      rw [item]
      split
      case h_4 => rfl
      all_goals simp_all [opensItem]

theorem itemBehind_widens {t : Token} {us : List Token} (first : vs = t :: us) :
    (itemBehind t us).Widens (item vs) := by
  subst first
  unfold itemBehind
  split
  case h_1 begins =>
    split
    case isTrue word =>
      have same : item (t :: us) = (functionAt us).widen (length_le_succ us) := by
        simp only [item, begins, word, functionAt]
      exact same ▸ widens_refl _
    case isFalse other =>
      have same : item (t :: us) = (statement (t :: us)).map .statement := by
        unfold item
        simp only
        split
        case h_1 word => exact absurd word other
        case h_2 kind | h_3 kind => cases begins.symm.trans kind
        case h_4 => rfl
      rw [same, statement_eq, statementAround]
      simp only [begins]
      exact widens_refl _
  case h_2 kind =>
    simp only [item, kind]
    exact widens_refl _
  case h_3 kind =>
    simp only [item, kind]
    exact widens_refl _
  case h_4 notBegin notFunction notEnum =>
    have other : ¬ opensItem (nextKind (t :: us)) := by
      rw [nextKind_cons]
      unfold opensItem
      split <;> simp_all
    rw [item_of_not_opens other]
    exact widens_refl _

end FirstToken

section Items

variable {f : Token → Token} (kinds : ∀ t, (f t).kind = t.kind) {us : List Token}
  {front : J → List Token}
include kinds

theorem determines_statement :
    (statement us).Determines f (Stmt.mapTokens f) us front fun j => statement (front j) :=
  (statement_determined kinds us).comp front

theorem param_determined :
    (param us).Determines f (Param.mapTokens f) us front fun j => param (front j) := by
  unfold param
  refine .bind kinds (determines_takeName kinds) fun name vs _ => ?_
  refine .bind kinds (determines_takeAfter kinds (by decide)) fun _ ws _ => ?_
  refine .bind kinds (determines_takeType kinds) fun type xs _ => ?_
  exact .ok_of _ rfl rfl

theorem params_determined :
    (params us).Determines f (List.map (Param.mapTokens f)) us front fun j =>
      params (front j) := by
  unfold params
  refine .bind kinds (determines_takeAfter kinds (by decide)) fun _ vs _ => ?_
  refine .bind kinds (determines_separatedUpTo kinds fun ws _ => param_determined kinds)
    fun ps ws _ => ?_
  refine .bind kinds (determines_takeAfter kinds (by decide)) fun _ xs _ => ?_
  exact .ok _

theorem closingBegun_determined {body : Stmt} :
    (closingBegun body us).Determines f id us front fun j =>
      closingBegun (body.mapTokens f) (front j) := by
  unfold closingBegun
  rw [Stmt.isBlock_mapTokens]
  by_cases block : body.isBlock
  · simp only [block, if_true]
    exact (determines_takeAfter kinds (by decide)).map fun _ => rfl
  · simp only [block]
    refine .bind kinds (determines_takeAfter kinds (by decide)) fun _ vs _ => ?_
    refine .bind kinds (determines_takeAfter kinds (by decide)) fun _ ws _ => ?_
    exact .ok _

theorem functionEnd_determined {opened : Bool} {body : Stmt} :
    (if opened then (closingBegun body us).widen (length_le_succ us)
      else closing .kwFunction us).Determines f id us front fun j =>
        if opened then (closingBegun (body.mapTokens f) (front j)).widen (length_le_succ (front j))
        else closing .kwFunction (front j) := by
  cases opened with
  | true =>
      simp only [if_true]
      exact .widen (closingBegun_determined kinds)
  | false => exact closing_determined kinds (by decide)

theorem function_determined {opened : Bool} :
    (function opened us).Determines f (Function.mapTokens f) us front fun j =>
      function opened (front j) := by
  unfold function
  refine .bind kinds (determines_takeName kinds) fun name vs _ => ?_
  refine .bind kinds (params_determined kinds) fun ps vs _ => ?_
  refine .bind kinds (determines_takeAfter kinds (by decide)) fun _ vs _ => ?_
  refine .bind kinds (determines_takeType kinds) fun type vs _ => ?_
  refine .bind kinds (determines_statement kinds) fun body vs _ => ?_
  refine .bind kinds (functionEnd_determined kinds) fun _ ws _ => ?_
  exact .ok_of _ rfl rfl

theorem enumerationEnd_determined :
    (enumerationEnd us).Determines f id us front fun j => enumerationEnd (front j) := by
  unfold enumerationEnd
  refine .ite (p := (endsEnumeration ·)) kinds (fun _ => .ok _) fun _ => ?_
  exact .widen (.map (fun _ => rfl) (determines_takeAfter kinds (by decide)))

theorem enumeration_determined :
    (enumeration us).Determines f (Enumeration.mapTokens f) us front fun j =>
      enumeration (front j) := by
  unfold enumeration
  refine .bind kinds (determines_takeName kinds) fun name vs _ => ?_
  refine .bind kinds (determines_takeAfter kinds (by decide)) fun _ vs _ => ?_
  refine .bind kinds (determines_separatedUpTo kinds fun ws _ => (determines_takeName kinds).node)
    fun values vs _ => ?_
  refine .bind kinds (determines_takeAfter kinds (by decide)) fun _ vs _ => ?_
  refine .bind kinds (enumerationEnd_determined kinds) fun _ vs _ => ?_
  exact .ok_of _ rfl rfl

theorem functionAt_determined :
    (functionAt us).Determines f (Item.mapTokens f) us front fun j => functionAt (front j) := by
  unfold functionAt
  refine .bind kinds (determines_take kinds (by decide)) fun _ vs _ => ?_
  exact .widen (.map (fun _ => rfl) (function_determined kinds))

theorem itemBehind_determined {t : Token} (opens : opensItem t.kind) :
    (itemBehind t us).Determines f (Item.mapTokens f) us front fun j =>
      itemBehind (f t) (front j) := by
  unfold itemBehind
  simp only [kinds]
  split
  case h_1 =>
    refine .ite (p := (· = .kwFunction)) kinds (fun _ => ?_) fun _ => ?_
    · exact .widen (functionAt_determined kinds)
    · exact (begun_determined kinds fun vs _ => statement_determined kinds vs).map fun _ => rfl
  case h_2 => exact .widen (.map (fun _ => rfl) (function_determined kinds))
  case h_3 => exact .widen (.map (fun _ => rfl) (enumeration_determined kinds))
  case h_4 => simp_all [opensItem]

theorem item_determined :
    (item us).Determines f (Item.mapTokens f) us front fun j => item (front j) := by
  by_cases opens : opensItem (nextKind us)
  case neg =>
    have stated : ((statement us).map Item.statement).Determines f (Item.mapTokens f) us front
        fun j => (statement (front j)).map .statement :=
      (determines_statement kinds).map fun _ => rfl
    rw [item_of_not_opens opens]
    refine stated.congr kinds fun j same => item_of_not_opens ?_
    rw [same]
    exact opens
  case pos =>
    cases us with
    | nil => cases opens
    | cons t us =>
        have behind : (itemBehind t us).Determines f (Item.mapTokens f) us Ahead.rest
            fun j : Ahead front (f t) => itemBehind (f t) j.rest :=
          itemBehind_determined kinds opens
        exact behind.cons (itemBehind_widens rfl) fun j => itemBehind_widens j.front_eq

end Items

end Grammar

/-- **The reply to a list of tokens, asked for a program, is determined** by the tokens taken
and the kind of the next one. -/
theorem program_determined {f : Token → Token} (kinds : ∀ t, (f t).kind = t.kind)
    (us : List Token) : (program us).Determines f (Program.mapTokens f) us id program := by
  unfold program
  refine .bind kinds (determines_whileNext kinds fun vs _ => item_determined kinds)
    fun items vs _ => ?_
  exact .ok_of _ rfl rfl

/-! ## The tokens themselves -/

/-- A token has its own kind. -/
theorem kind_id (t : Token) : (id t).kind = t.kind := rfl

/-- The expressions inside others are determined. -/
theorem innerExpr_determined (us : List Token) (h : us.length < n) :
    (Grammar.innerExpr n us h).Determines id (Expr.mapTokens id) us id expression :=
  expression_determined kind_id us

/-- The statements inside others are determined. -/
theorem inner_determined (us : List Token) (h : us.length < n) :
    (inner n us h).Determines id (Stmt.mapTokens id) us id statement :=
  statement_determined kind_id us

/-- What is left of a request is the end of the tokens it was made on. -/
theorem Goal.parse_left (goal : Goal) (us : List Token) :
    ∃ used, us = used ++ (goal.parse us).left := by
  cases goal with
  | program =>
      rw [Goal.parse, left_map]
      exact (program_determined kind_id us).exists_used
  | statement =>
      rw [Goal.parse, left_widen, left_map]
      exact (statement_determined kind_id us).exists_used
  | expression =>
      rw [Goal.parse, left_widen, left_map]
      exact (expression_determined kind_id us).exists_used

end BlockSyntax
