import BlockSyntax.Grammar.Expression
import BlockSyntax.Proofs.Reply
import BlockSyntax.Proofs.Spelling

/-!
# The routines of the expression grammar

What every routine that reads a part of an expression gives, as an equivalence.  The
expressions inside a primary are read by the argument `self` of the routines, and
`Inside self` is the relation of what it gives.
-/

set_option autoImplicit false

namespace BlockSyntax.Grammar

open Reply

variable {n : Nat} {self : Below n Expr}

/-- An operator of the level above a level and an operand of the level. -/
def Operation (self : Below n Expr) (level : Nat) (operation : Token × Expr)
    (us rest : List Token) : Prop :=
  operation.1.kind.level = level + 1 ∧ ∃ vs, ∃ h : vs.length ≤ n, us = operation.1 :: vs ∧
    (binary self level vs h).Gives operation.2 rest

/-- An index is an expression in brackets. -/
theorem gives_index {tokens : List Token} {h : tokens.length ≤ n} {e : Expr} {rest : List Token} :
    (index self tokens h).Gives e rest ↔ Bracketed (Inside self) e tokens rest := by
  unfold index
  refine (gives_enclosed (fun _ _ _ => gives_take) (fun _ _ _ => gives_takeAfter) ?_).trans
    exists_eq_left
  intro us shorter e closing rest _
  exact inside_iff _

theorem invited_index {tokens : List Token} {h : tokens.length ≤ n} {e : Expr}
    {rest : List Token} :
    decide (nextKind tokens = .leftBracket) = true ∧ (index self tokens h).Gives e rest ↔
      Bracketed (Inside self) e tokens rest := by
  rw [gives_index, and_iff_right_of_imp]
  rintro ⟨opening, _, _, rfl, opens, _⟩
  exact decide_eq_true opens

/-- What follows a name is its arguments in parentheses, or any number of indices. -/
theorem gives_reference {name : Token} {tokens : List Token} {h : tokens.length < n} {e : Expr}
    {rest : List Token} :
    (reference self name tokens h).Gives e rest ↔
      (∃ arguments, .call name arguments = e ∧
        Parenthesized (SeparatedUpTo .rightParen (Inside self)) arguments tokens rest) ∨
      (∃ indices, .reference name indices = e ∧ nextKind tokens ≠ .leftParen ∧
        Repeats (Bracketed (Inside self)) indices tokens rest ∧ nextKind rest ≠ .leftBracket) := by
  unfold reference
  split
  case isTrue opens =>
    have notReference : ¬ ∃ indices, .reference name indices = e ∧ nextKind tokens ≠ .leftParen ∧
        Repeats (Bracketed (Inside self)) indices tokens rest ∧ nextKind rest ≠ .leftBracket := by
      rintro ⟨_, _, notParen, _⟩
      exact notParen opens
    rw [or_iff_left notReference]
    refine gives_enclosed (fun _ _ _ => gives_take) (fun _ _ _ => gives_takeAfter) ?_
    intro us shorter arguments closing rest closes
    exact gives_separatedUpTo (fun _ _ _ _ => inside_iff _) closes (by decide)
  case isFalse notParen =>
    constructor
    · simp only [gives_bind, gives_ok,
        gives_whileNext (p := (· = .leftBracket)) (R := Bracketed (Inside self))
          fun _ _ _ _ => invited_index]
      rintro ⟨indices, mid, _, ⟨repeats, stops⟩, rfl, rfl⟩
      exact .inr ⟨_, rfl, notParen, repeats, by simpa using stops⟩
    · rintro (⟨_, _, opening, _, us, rfl, opens, _⟩ | ⟨indices, rfl, _, repeats, stops⟩)
      · exact absurd opens notParen
      · refine Gives.bind (a := indices) ?_ fun _ => ⟨rfl, rfl⟩
        rw [gives_whileNext (p := (· = .leftBracket)) fun _ _ _ _ => invited_index]
        exact ⟨repeats, by simpa using stops⟩

/-- A literal is a primary of its own. -/
theorem gives_primary_literal {t : Token} {us : List Token} {h : (t :: us).length ≤ n} {e : Expr}
    {rest : List Token} (kind : t.kind.isLiteral) :
    (primary self (t :: us) h).Gives e rest ↔ e = .literal t ∧ us = rest := by
  rw [primary]
  split
  case h_1 | h_2 | h_3 => rw [gives_ok, eq_comm]
  case h_4 name | h_5 name => simp [name, TokenKind.isLiteral] at kind
  case h_6 => simp [TokenKind.isLiteral] at kind

/-- A name is a primary with what follows it. -/
theorem gives_primary_name {t : Token} {us : List Token} {h : (t :: us).length ≤ n} {e : Expr}
    {rest : List Token} (kind : t.kind = .identifier) :
    (primary self (t :: us) h).Gives e rest ↔ (reference self t us h).Gives e rest := by
  rw [primary]
  simp only [kind, gives_after]

/-- An expression in parentheses is a primary. -/
theorem gives_primary_parenthesis {t : Token} {us : List Token} {h : (t :: us).length ≤ n}
    {e : Expr} {rest : List Token} (kind : t.kind = .leftParen) :
    (primary self (t :: us) h).Gives e rest ↔
      ∃ closing, Inside self e us (closing :: rest) ∧ closing.kind = .rightParen := by
  rw [primary]
  simp only [kind]
  constructor
  · simp only [gives_bind, gives_takeAfter, gives_ok]
    rintro ⟨e, mid, _, inside, closing, us, _, ⟨rfl, closes⟩, rfl, rfl⟩
    exact ⟨closing, ⟨_, inside⟩, closes⟩
  · rintro ⟨closing, ⟨_, inside⟩, closes⟩
    refine inside.bind fun _ => ?_
    exact (gives_takeAfter.mpr ⟨rfl, closes⟩).bind fun _ => ⟨rfl, rfl⟩

/-- A primary starts with a literal, a name or a parenthesis. -/
theorem primary_starts {tokens : List Token} {h : tokens.length ≤ n} {e : Expr}
    {rest : List Token} (gives : (primary self tokens h).Gives e rest) :
    ∃ t us, tokens = t :: us ∧
      (t.kind.isLiteral ∨ t.kind = .identifier ∨ t.kind = .leftParen) := by
  cases tokens with
  | nil => exact gives.elim
  | cons t us =>
      refine ⟨t, us, rfl, ?_⟩
      rw [primary] at gives
      split at gives
      case h_1 kind | h_2 kind | h_3 kind => exact .inl (by simp [kind, TokenKind.isLiteral])
      case h_4 kind => exact .inr (.inl kind)
      case h_5 kind => exact .inr (.inr kind)
      case h_6 => exact gives.elim

/-- Prefix operators stand in front of a primary, as many as there are. -/
theorem gives_unary {tokens : List Token} {h : tokens.length ≤ n} {e : Expr}
    {rest : List Token} :
    (unary self tokens h).Gives e rest ↔
      ∃ operators inner mid, ∃ shorter : mid.length ≤ n, tokens = operators ++ mid ∧
        (∀ o ∈ operators, o.kind.isUnary) ∧ ¬ (nextKind mid).isUnary ∧
        (primary self mid shorter).Gives inner rest ∧ e = operators.foldr Expr.unary inner := by
  have reads : ∀ (us : List Token) (_ : us.length < tokens.length + 1) (o : Token)
      (vs : List Token), (nextKind us).isUnary = true ∧
        (takeIf TokenKind.isUnary .expression us).node.Gives o vs ↔
          Next (·.isUnary) o us vs := by
    intro us _ o vs
    rw [gives_node, gives_takeIf]
    refine and_iff_right_of_imp ?_
    rintro ⟨rfl, kind⟩
    exact kind
  unfold unary
  constructor
  · simp only [gives_bind, gives_ok, gives_whileNext reads, repeats_next]
    rintro ⟨operators, mid, shorter, ⟨⟨rfl, unary⟩, stops⟩, inner, us, _, primary, rfl, rfl⟩
    exact ⟨operators, inner, mid, _, rfl, unary, stops, primary, rfl⟩
  · rintro ⟨operators, inner, mid, shorter, rfl, unary, stops, primary, rfl⟩
    refine Gives.bind (a := operators) ?_ fun _ => primary.bind fun _ => ⟨rfl, rfl⟩
    rw [gives_whileNext reads, repeats_next]
    exact ⟨⟨rfl, unary⟩, stops⟩

/-- Operators of a level with the operands behind them. -/
theorem invited_operation {level : Nat} {tokens : List Token} {h : tokens.length ≤ n}
    {o : Token × Expr} {rest : List Token} :
    decide ((nextKind tokens).level = level + 1) = true ∧
        (operation (level + 1) (binary self level) tokens h).Gives o rest ↔
      Operation self level o tokens rest := by
  unfold operation
  constructor
  · simp only [gives_bind, gives_node, gives_takeIf, gives_ok, decide_eq_true_eq]
    rintro ⟨_, operator, vs, _, ⟨rfl, kind⟩, right, us, _, gives, rfl, rfl⟩
    exact ⟨kind, vs, _, rfl, gives⟩
  · rintro ⟨kind, vs, _, rfl, gives⟩
    refine ⟨decide_eq_true kind, ?_⟩
    refine (gives_node.mpr (gives_takeIf.mpr ⟨rfl, decide_eq_true kind⟩)).bind fun _ => ?_
    exact gives.bind fun _ => ⟨rfl, rfl⟩

/-- Operands of the level below stand with operators of a level between them, as many as
there are. -/
theorem gives_binary {level : Nat} {tokens : List Token} {h : tokens.length ≤ n} {e : Expr}
    {rest : List Token} :
    (binary self (level + 1) tokens h).Gives e rest ↔
      ∃ first others mid, (binary self level tokens h).Gives first mid ∧
        Repeats (Operation self level) others mid rest ∧ (nextKind rest).level ≠ level + 1 ∧
        e = joinLeft first others := by
  rw [binary]
  constructor
  · simp only [gives_bind, gives_ok, gives_whileNext (p := (·.level = level + 1))
      (R := Operation self level) fun _ _ _ _ => invited_operation]
    rintro ⟨first, mid, _, head, others, last, _, ⟨repeats, stops⟩, rfl, rfl⟩
    exact ⟨first, others, mid, head, repeats, by simpa using stops, rfl⟩
  · rintro ⟨first, others, mid, head, repeats, stops, rfl⟩
    refine head.bind fun _ => Gives.bind (a := others) ?_ fun _ => ⟨rfl, rfl⟩
    rw [gives_whileNext (p := (·.level = level + 1)) fun _ _ _ _ => invited_operation]
    exact ⟨repeats, by simpa using stops⟩

end BlockSyntax.Grammar
