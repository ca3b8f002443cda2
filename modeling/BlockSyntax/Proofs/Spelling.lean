import BlockSyntax.Grammar.Expression

/-!
# How expressions are spelled

A list of tokens spells an expression when it has the tokens of the expression in
order, with brackets around indices, parentheses around arguments and commas between
them, and with at least the parentheses that the levels of the operators ask for.  The
left operand of an operator is spelled at the operator's own level or tighter, the right
operand strictly tighter, and what stands behind a prefix operator is again a prefix
operator or a primary.  Any spelling may be put in parentheses, any number of times.

The relation says nothing about where the brackets and commas come from: any tokens of
the right kinds will do.  The tokens that the expression itself holds have to be of the
kinds that the grammar gives them in their places (`Expr.WellFormed`), and only
expressions of which that is true are spelled at all (`Spells.wellFormed`).

An expression at some level is a first operand of the level below followed by operators
of the level with further operands; `Spells.others` and `SpellsOthers.join` turn the
recursion of the relation on left operands into that sequence and back, which is how a
parser meets it.  `Spells.prefixes` and `SpellsPrimary.prefixed` do the same for prefix
operators.
-/

set_option autoImplicit false

namespace BlockSyntax

/-! ## Tokens in their places -/

/-- A token of a kind with its one spelling, at no known location. -/
def TokenKind.token (k : TokenKind) : Token := ⟨k, k.spelling, .unknown⟩

/-- The kinds of literals. -/
def TokenKind.isLiteral : TokenKind → Bool
  | .intLiteral | .realLiteral | .boolLiteral => true
  | _ => false

/-- The kinds of operators between operands. -/
def TokenKind.isBinary (k : TokenKind) : Bool := k.level ≠ 0

mutual

/-- Every token of the expression has a kind that it can have in its place. -/
def Expr.WellFormed : Expr → Prop
  | .literal t => t.kind.isLiteral
  | .reference name indices => name.kind = .identifier ∧ Expr.AllWellFormed indices
  | .call name arguments => name.kind = .identifier ∧ Expr.AllWellFormed arguments
  | .unary operator operand => operator.kind.isUnary ∧ operand.WellFormed
  | .binary left operator right =>
      left.WellFormed ∧ operator.kind.isBinary ∧ right.WellFormed

/-- Every token of the expressions has a kind that it can have in its place. -/
def Expr.AllWellFormed : List Expr → Prop
  | [] => True
  | e :: es => e.WellFormed ∧ Expr.AllWellFormed es

end

/-! ## Spellings -/

mutual

/-- The tokens spell the expression with operators up to a level outside parentheses. -/
inductive Spells : Nat → Expr → List Token → Prop where
  | primary {level : Nat} {e : Expr} {us : List Token} (inside : SpellsPrimary e us) :
      Spells level e us
  | unary {level : Nat} {operator : Token} {operand : Expr} {us : List Token}
      (kind : operator.kind.isUnary) (inside : Spells 0 operand us) :
      Spells level (.unary operator operand) (operator :: us)
  | binary {level below : Nat} {left right : Expr} {operator : Token} {us vs : List Token}
      (kind : operator.kind.level = below + 1) (allowed : below < level)
      (leftward : Spells (below + 1) left us) (rightward : Spells below right vs) :
      Spells level (.binary left operator right) (us ++ operator :: vs)

/-- The tokens spell the expression without operators outside brackets. -/
inductive SpellsPrimary : Expr → List Token → Prop where
  | literal {t : Token} (kind : t.kind.isLiteral) : SpellsPrimary (.literal t) [t]
  | reference {name : Token} {indices : List Expr} {us : List Token}
      (kind : name.kind = .identifier) (inside : SpellsIndices indices us) :
      SpellsPrimary (.reference name indices) (name :: us)
  | call {name opening closing : Token} {arguments : List Expr} {us : List Token}
      (kind : name.kind = .identifier) (opens : opening.kind = .leftParen)
      (inside : SpellsArguments arguments us) (closes : closing.kind = .rightParen) :
      SpellsPrimary (.call name arguments) (name :: opening :: (us ++ [closing]))
  | parenthesized {e : Expr} {opening closing : Token} {us : List Token}
      (opens : opening.kind = .leftParen) (inside : Spells loosestLevel e us)
      (closes : closing.kind = .rightParen) : SpellsPrimary e (opening :: (us ++ [closing]))

/-- The tokens spell expressions, each in brackets. -/
inductive SpellsIndices : List Expr → List Token → Prop where
  | nil : SpellsIndices [] []
  | cons {e : Expr} {es : List Expr} {opening closing : Token} {us vs : List Token}
      (opens : opening.kind = .leftBracket) (head : Spells loosestLevel e us)
      (closes : closing.kind = .rightBracket) (tail : SpellsIndices es vs) :
      SpellsIndices (e :: es) (opening :: (us ++ closing :: vs))

/-- The tokens spell expressions with commas between them. -/
inductive SpellsArguments : List Expr → List Token → Prop where
  | nil : SpellsArguments [] []
  | last {e : Expr} {us : List Token} (head : Spells loosestLevel e us) : SpellsArguments [e] us
  | more {e d : Expr} {es : List Expr} {comma : Token} {us vs : List Token}
      (head : Spells loosestLevel e us) (between : comma.kind = .comma)
      (tail : SpellsArguments (d :: es) vs) : SpellsArguments (e :: d :: es) (us ++ comma :: vs)

end

mutual

/-- Only well-formed expressions are spelled. -/
theorem Spells.wellFormed {level : Nat} {e : Expr} {us : List Token} :
    Spells level e us → e.WellFormed
  | .primary inside => inside.wellFormed
  | .unary kind inside => by
      rw [Expr.WellFormed]
      exact ⟨kind, inside.wellFormed⟩
  | .binary kind _ leftward rightward => by
      rw [Expr.WellFormed]
      exact ⟨leftward.wellFormed, by simp [TokenKind.isBinary, kind], rightward.wellFormed⟩

theorem SpellsPrimary.wellFormed {e : Expr} {us : List Token} :
    SpellsPrimary e us → e.WellFormed
  | .literal kind => by rwa [Expr.WellFormed]
  | .reference kind inside => by
      rw [Expr.WellFormed]
      exact ⟨kind, inside.wellFormed⟩
  | .call kind _ inside _ => by
      rw [Expr.WellFormed]
      exact ⟨kind, inside.wellFormed⟩
  | .parenthesized _ inside _ => inside.wellFormed

theorem SpellsIndices.wellFormed {es : List Expr} {us : List Token} :
    SpellsIndices es us → Expr.AllWellFormed es
  | .nil => by
      rw [Expr.AllWellFormed]
      trivial
  | .cons _ head _ tail => by
      rw [Expr.AllWellFormed]
      exact ⟨head.wellFormed, tail.wellFormed⟩

theorem SpellsArguments.wellFormed {es : List Expr} {us : List Token} :
    SpellsArguments es us → Expr.AllWellFormed es
  | .nil => by
      rw [Expr.AllWellFormed]
      trivial
  | .last head => by
      rw [Expr.AllWellFormed, Expr.AllWellFormed]
      exact ⟨head.wellFormed, trivial⟩
  | .more head _ tail => by
      rw [Expr.AllWellFormed]
      exact ⟨head.wellFormed, tail.wellFormed⟩

end

/-- A spelling at some level is one at every looser level. -/
theorem Spells.mono {level looser : Nat} {e : Expr} {us : List Token} (le : level ≤ looser)
    (spells : Spells level e us) : Spells looser e us := by
  cases spells with
  | primary inside => exact .primary inside
  | unary kind inside => exact .unary kind inside
  | binary kind allowed leftward rightward =>
      exact .binary kind (Nat.lt_of_lt_of_le allowed le) leftward rightward

/-! ## End markers -/

/-- There is no end marker among the tokens. -/
def Unended (us : List Token) : Prop := ∀ t ∈ us, t.kind ≠ .eof

@[simp] theorem unended_nil : Unended [] := by
  simp [Unended]

@[simp] theorem unended_cons {t : Token} {us : List Token} :
    Unended (t :: us) ↔ t.kind ≠ .eof ∧ Unended us :=
  List.forall_mem_cons

@[simp] theorem unended_append {us vs : List Token} :
    Unended (us ++ vs) ↔ Unended us ∧ Unended vs :=
  List.forall_mem_append

/-- A kind that passes a test is not the end marker when that does not. -/
theorem TokenKind.ne_eof {test : TokenKind → Bool} {k : TokenKind} (passes : test k)
    (fails : test .eof = false := by rfl) : k ≠ .eof := by
  rintro rfl
  exact absurd passes (by simp [fails])

mutual

/-- No spelling has an end marker in it. -/
theorem Spells.unended {level : Nat} {e : Expr} {us : List Token} :
    Spells level e us → Unended us
  | .primary inside => inside.unended
  | .unary kind inside => unended_cons.mpr ⟨TokenKind.ne_eof kind, inside.unended⟩
  | .binary kind _ leftward rightward => by
      have between : TokenKind.eof.level = 0 := rfl
      rw [unended_append, unended_cons]
      refine ⟨leftward.unended, ?_, rightward.unended⟩
      intro ended
      rw [ended, between] at kind
      cases kind

theorem SpellsPrimary.unended {e : Expr} {us : List Token} : SpellsPrimary e us → Unended us
  | .literal kind => by simpa using TokenKind.ne_eof kind
  | .reference kind inside => by simp [kind, inside.unended]
  | .call kind opens inside closes => by simp [kind, opens, inside.unended, closes]
  | .parenthesized opens inside closes => by simp [opens, inside.unended, closes]

theorem SpellsIndices.unended {es : List Expr} {us : List Token} :
    SpellsIndices es us → Unended us
  | .nil => unended_nil
  | .cons opens head closes tail => by simp [opens, head.unended, closes, tail.unended]

theorem SpellsArguments.unended {es : List Expr} {us : List Token} :
    SpellsArguments es us → Unended us
  | .nil => unended_nil
  | .last head => head.unended
  | .more head between tail => by simp [head.unended, between, tail.unended]

end

/-! ## Sequences of operands -/

/-- The tokens spell operators of the level above with operands of the level behind
them. -/
inductive SpellsOthers (level : Nat) : List (Token × Expr) → List Token → Prop where
  | nil : SpellsOthers level [] []
  | cons {operator : Token} {right : Expr} {others : List (Token × Expr)} {us vs : List Token}
      (kind : operator.kind.level = level + 1) (head : Spells level right us)
      (tail : SpellsOthers level others vs) :
      SpellsOthers level ((operator, right) :: others) (operator :: (us ++ vs))

theorem SpellsOthers.concat {level : Nat} {others : List (Token × Expr)} {operator : Token}
    {right : Expr} {us vs : List Token} (spells : SpellsOthers level others us)
    (kind : operator.kind.level = level + 1) (last : Spells level right vs) :
    SpellsOthers level (others ++ [(operator, right)]) (us ++ operator :: vs) := by
  induction spells with
  | nil => simpa using SpellsOthers.cons kind last .nil
  | cons kind' head _ ih => simpa using SpellsOthers.cons kind' head ih

/-- Every expression at a level is a first operand of the level below with operators of
the level and further operands behind it. -/
theorem Spells.others {level : Nat} {e : Expr} {ts : List Token} :
    Spells (level + 1) e ts → ∃ first others us vs, ts = us ++ vs ∧ Spells level first us ∧
      SpellsOthers level others vs ∧ e = Grammar.joinLeft first others
  | .primary inside => ⟨_, [], _, [], (List.append_nil _).symm, .primary inside, .nil, rfl⟩
  | .unary kind inside => ⟨_, [], _, [], (List.append_nil _).symm, .unary kind inside, .nil, rfl⟩
  | .binary kind allowed leftward rightward => by
      rcases Nat.lt_or_eq_of_le (Nat.le_of_lt_succ allowed) with tighter | rfl
      · have spells : Spells level _ _ := .binary kind tighter leftward rightward
        exact ⟨_, [], _, [], (List.append_nil _).symm, spells, .nil, rfl⟩
      · obtain ⟨first, others, us, vs, rfl, head, tail, rfl⟩ := leftward.others
        refine ⟨first, _, us, _, List.append_assoc .., head, tail.concat kind rightward, ?_⟩
        simp [Grammar.joinLeft]

/-- Operators of a level with operands behind them may follow any expression of the
level. -/
theorem SpellsOthers.join {level : Nat} {others : List (Token × Expr)} {vs : List Token}
    (spells : SpellsOthers level others vs) :
    ∀ {first : Expr} {us : List Token}, Spells (level + 1) first us →
      Spells (level + 1) (Grammar.joinLeft first others) (us ++ vs) := by
  induction spells with
  | nil =>
      intro first us head
      simpa [Grammar.joinLeft] using head
  | cons kind right _ ih =>
      intro first us head
      have joined := ih (.binary kind (Nat.lt_succ_self _) head right)
      simpa [Grammar.joinLeft] using joined

/-- An expression without operators between operands is a primary behind prefix
operators. -/
theorem Spells.prefixes {e : Expr} {ts : List Token} :
    Spells 0 e ts → ∃ (operators : List Token) (inner : Expr) (us : List Token),
      ts = operators ++ us ∧ (∀ o ∈ operators, o.kind.isUnary) ∧ SpellsPrimary inner us ∧
        e = operators.foldr Expr.unary inner
  | .primary inside => ⟨[], e, ts, rfl, by simp, inside, rfl⟩
  | .unary kind inside => by
      obtain ⟨operators, inner, us, rfl, unary, primary, rfl⟩ := inside.prefixes
      exact ⟨_ :: operators, inner, us, rfl, List.forall_mem_cons.mpr ⟨kind, unary⟩, primary, rfl⟩

/-- Prefix operators may stand in front of any primary. -/
theorem SpellsPrimary.prefixed {inner : Expr} {us : List Token} (primary : SpellsPrimary inner us)
    {operators : List Token} (unary : ∀ o ∈ operators, o.kind.isUnary) :
    Spells 0 (operators.foldr Expr.unary inner) (operators ++ us) := by
  induction operators with
  | nil => exact .primary primary
  | cons o operators ih =>
      rw [List.forall_mem_cons] at unary
      exact .unary unary.1 (ih unary.2)

/-! ## First tokens -/

/-- The kinds of tokens that a primary can start with. -/
def TokenKind.startsPrimary (k : TokenKind) : Bool :=
  k.isLiteral || k = .identifier || k = .leftParen

/-- The kinds of tokens that an expression can start with. -/
def TokenKind.startsExpression (k : TokenKind) : Bool := k.startsPrimary || k.isUnary

theorem TokenKind.not_isUnary_of_startsPrimary {k : TokenKind} (starts : k.startsPrimary) :
    ¬ k.isUnary := by
  revert starts
  cases k <;> decide

theorem SpellsPrimary.starts {e : Expr} {us : List Token} (spells : SpellsPrimary e us) :
    ∃ t vs, us = t :: vs ∧ t.kind.startsPrimary := by
  cases spells with
  | literal kind => exact ⟨_, _, rfl, by simp [TokenKind.startsPrimary, kind]⟩
  | reference kind _ => exact ⟨_, _, rfl, by simp [TokenKind.startsPrimary, kind]⟩
  | call kind _ _ _ => exact ⟨_, _, rfl, by simp [TokenKind.startsPrimary, kind]⟩
  | parenthesized opens _ _ => exact ⟨_, _, rfl, by simp [TokenKind.startsPrimary, opens]⟩

/-- A spelling starts with a token that an expression can start with. -/
theorem Spells.starts {level : Nat} {e : Expr} {us : List Token} :
    Spells level e us → ∃ t vs, us = t :: vs ∧ t.kind.startsExpression
  | .primary inside => by
      obtain ⟨t, vs, rfl, starts⟩ := inside.starts
      exact ⟨t, vs, rfl, by simp [TokenKind.startsExpression, starts]⟩
  | .unary kind _ => ⟨_, _, rfl, by simp [TokenKind.startsExpression, kind]⟩
  | .binary _ _ leftward _ => by
      obtain ⟨t, vs, rfl, starts⟩ := leftward.starts
      exact ⟨t, _, rfl, starts⟩

theorem SpellsArguments.empty_or_filled {es : List Expr} {us : List Token}
    (spells : SpellsArguments es us) : es = [] ∧ us = [] ∨ es ≠ [] := by
  cases spells with
  | nil => exact .inl ⟨rfl, rfl⟩
  | last _ => exact .inr (List.cons_ne_nil _ _)
  | more _ _ _ => exact .inr (List.cons_ne_nil _ _)

theorem SpellsArguments.starts {es : List Expr} {us : List Token} (spells : SpellsArguments es us)
    (filled : es ≠ []) : ∃ t vs, us = t :: vs ∧ t.kind.startsExpression := by
  cases spells with
  | nil => exact absurd rfl filled
  | last head => exact head.starts
  | more head _ _ =>
      obtain ⟨t, vs, rfl, starts⟩ := head.starts
      exact ⟨t, _, rfl, starts⟩

/-! ## Tokens behind an expression -/

/-- A token of this kind cannot go on with an expression of a level: it is no operator
of the level or tighter, and it opens neither arguments nor indices. -/
structure Ends (level : Nat) (k : TokenKind) : Prop where
  /-- An operator is looser than the level. -/
  looser : k.level = 0 ∨ level < k.level
  /-- No arguments follow. -/
  notParen : k ≠ .leftParen
  /-- No index follows. -/
  notBracket : k ≠ .leftBracket

/-- The kinds of tokens that end every expression: all but operators between operands and
the marks that open arguments and indices. -/
def TokenKind.endsExpression (k : TokenKind) : Bool :=
  !k.isBinary && k ≠ .leftParen && k ≠ .leftBracket

theorem Ends.of_endsExpression {level : Nat} {k : TokenKind} (ends : k.endsExpression) :
    Ends level k := by
  simp only [TokenKind.endsExpression, TokenKind.isBinary, Bool.and_eq_true, Bool.not_eq_true',
    decide_eq_true_eq, decide_eq_false_iff_not, ne_eq, Decidable.not_not] at ends
  exact ⟨.inl ends.1.1, ends.1.2, ends.2⟩

theorem Ends.of_looser {level : Nat} {k : TokenKind} (ends : Ends (level + 1) k) :
    Ends level k where
  looser := by
    have := ends.looser
    omega
  notParen := ends.notParen
  notBracket := ends.notBracket

/-- An operator of the level above ends an expression. -/
theorem Ends.of_operator {level : Nat} {k : TokenKind} (kind : k.level = level + 1) :
    Ends level k where
  looser := by omega
  notParen same := by simp [same, TokenKind.level] at kind
  notBracket same := by simp [same, TokenKind.level] at kind

/-- What stands behind an operand ends it: an operator of the level above, or what stands
behind all the operands. -/
theorem SpellsOthers.ends {level : Nat} {others : List (Token × Expr)} {us rest : List Token}
    (spells : SpellsOthers level others us) (ends : Ends (level + 1) (nextKind rest)) :
    Ends level (nextKind (us ++ rest)) := by
  cases spells with
  | nil => exact ends.of_looser
  | cons kind _ _ => exact .of_operator kind

end BlockSyntax
