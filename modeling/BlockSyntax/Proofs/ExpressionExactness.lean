import BlockSyntax.Proofs.ExpressionRoutines
import BlockSyntax.Proofs.Session
import BlockSyntax.Proofs.Shape

/-!
# Expressions are read exactly as they are spelled

What the parser of expressions takes is a spelling of what it gives, and every spelling
is read back when the token behind it cannot go on with an expression.  Both directions
are proved for each routine under the hypothesis that the parser for the expressions
inside has the property (`Sound`, `Complete`), and an induction on the number of tokens
discharges the hypothesis (`expression_sound`, `expression_complete`).
-/

set_option autoImplicit false

namespace BlockSyntax

namespace Grammar

open Reply

variable {n : Nat} {self : Below n Expr}

/-! ## What is taken is a spelling -/

/-- The parser for the expressions inside takes spellings of what it gives. -/
def Sound (self : Below n Expr) : Prop :=
  ∀ e us rest, Inside self e us rest → ∃ used, us = used ++ rest ∧ Spells loosestLevel e used

theorem Sound.indices (sound : Sound self) {es : List Expr} {us rest : List Token}
    (repeats : Repeats (Bracketed (Inside self)) es us rest) :
    ∃ used, us = used ++ rest ∧ SpellsIndices es used := by
  induction repeats with
  | nil => exact ⟨[], rfl, .nil⟩
  | cons head _ ih =>
      obtain ⟨opening, closing, vs, rfl, opens, inside, closes⟩ := head
      obtain ⟨used, rfl, spells⟩ := sound _ _ _ inside
      obtain ⟨others, rfl, tail⟩ := ih
      exact ⟨_, by simp, .cons opens spells closes tail⟩

theorem Sound.arguments (sound : Sound self) {es : List Expr} {us rest : List Token}
    (separated : Separated (Inside self) es us rest) :
    ∃ used, us = used ++ rest ∧ SpellsArguments es used := by
  induction separated with
  | last head =>
      obtain ⟨used, rfl, spells⟩ := sound _ _ _ head
      exact ⟨used, rfl, .last spells⟩
  | more head between tail ih =>
      obtain ⟨used, rfl, spells⟩ := sound _ _ _ head
      obtain ⟨others, rfl, arguments⟩ := ih
      obtain ⟨d, ds, rfl⟩ := tail.exists_cons
      exact ⟨_, by simp, .more spells between arguments⟩

theorem Sound.primary (sound : Sound self) {tokens : List Token} {h : tokens.length ≤ n}
    {e : Expr} {rest : List Token} (gives : (primary self tokens h).Gives e rest) :
    ∃ used, tokens = used ++ rest ∧ SpellsPrimary e used := by
  obtain ⟨t, us, rfl, literal | name | parenthesis⟩ := primary_starts gives
  · obtain ⟨rfl, rfl⟩ := (gives_primary_literal literal).mp gives
    exact ⟨[t], rfl, .literal literal⟩
  · rw [gives_primary_name name, gives_reference] at gives
    rcases gives with ⟨arguments, rfl, opening, closing, vs, rfl, opens, list, closes⟩ |
      ⟨indices, rfl, _, repeats, _⟩
    · rcases list with ⟨rfl, rfl⟩ | ⟨separated, _⟩
      · exact ⟨[t, opening, closing], rfl, .call name opens .nil closes⟩
      · obtain ⟨used, rfl, spells⟩ := sound.arguments separated
        exact ⟨_, by simp, .call name opens spells closes⟩
    · obtain ⟨used, rfl, spells⟩ := sound.indices repeats
      exact ⟨t :: used, rfl, .reference name spells⟩
  · obtain ⟨closing, inside, closes⟩ := (gives_primary_parenthesis parenthesis).mp gives
    obtain ⟨used, rfl, spells⟩ := sound _ _ _ inside
    exact ⟨_, by simp, .parenthesized parenthesis spells closes⟩

theorem Sound.operations {level : Nat}
    (operand : ∀ {tokens : List Token} {h : tokens.length ≤ n} {e : Expr} {rest : List Token},
      (binary self level tokens h).Gives e rest →
        ∃ used, tokens = used ++ rest ∧ Spells level e used)
    {others : List (Token × Expr)} {us rest : List Token}
    (repeats : Repeats (Operation self level) others us rest) :
    ∃ used, us = used ++ rest ∧ SpellsOthers level others used := by
  induction repeats with
  | nil => exact ⟨[], rfl, .nil⟩
  | cons head _ ih =>
      obtain ⟨kind, vs, _, rfl, gives⟩ := head
      obtain ⟨used, rfl, spells⟩ := operand gives
      obtain ⟨others, rfl, tail⟩ := ih
      exact ⟨_, by simp, .cons kind spells tail⟩

theorem Sound.binary (sound : Sound self) {level : Nat} {tokens : List Token}
    {h : tokens.length ≤ n} {e : Expr} {rest : List Token}
    (gives : (binary self level tokens h).Gives e rest) :
    ∃ used, tokens = used ++ rest ∧ Spells level e used := by
  induction level generalizing tokens e rest with
  | zero =>
      obtain ⟨operators, inner, mid, _, rfl, unary, _, inside, rfl⟩ := gives_unary.mp gives
      obtain ⟨used, rfl, spells⟩ := sound.primary inside
      exact ⟨operators ++ used, by simp, spells.prefixed unary⟩
  | succ level ih =>
      obtain ⟨first, others, mid, head, repeats, _, rfl⟩ := gives_binary.mp gives
      obtain ⟨used, rfl, spells⟩ := ih head
      obtain ⟨behind, rfl, tail⟩ := Sound.operations (fun gives => ih gives) repeats
      exact ⟨used ++ behind, by simp, tail.join (spells.mono (Nat.le_succ _))⟩

/-! ## Every spelling is read back -/

/-- The parser for the expressions inside reads spellings back. -/
def Complete (self : Below n Expr) : Prop :=
  ∀ e used rest, (used ++ rest).length < n → Spells loosestLevel e used →
    Ends loosestLevel (nextKind rest) → Inside self e (used ++ rest) rest

theorem Complete.closed (complete : Complete self) {e : Expr} {used rest : List Token} {t : Token}
    {k : TokenKind} (bound : (used ++ t :: rest).length < n) (spells : Spells loosestLevel e used)
    (kind : t.kind = k) (ends : k.endsExpression) : Inside self e (used ++ t :: rest) (t :: rest) :=
  complete _ _ _ bound spells (.of_endsExpression (by rwa [nextKind_cons, kind]))

theorem Complete.indices (complete : Complete self) {es : List Expr} {used : List Token} :
    SpellsIndices es used → ∀ {rest : List Token}, (used ++ rest).length ≤ n →
      Repeats (Bracketed (Inside self)) es (used ++ rest) rest
  | .nil, _, _ => .nil
  | @SpellsIndices.cons _ _ _ _ us vs opens head closes tail, rest, bound => by
      rw [List.cons_append, List.append_assoc, List.length_cons] at bound
      rw [List.cons_append, List.append_assoc]
      have inside := complete.closed bound head closes rfl
      refine .cons ⟨_, _, _, rfl, opens, inside, closes⟩ (complete.indices tail ?_)
      rw [List.length_append, List.cons_append, List.length_cons] at bound
      omega

theorem Complete.arguments (complete : Complete self) {es : List Expr} {used : List Token} :
    SpellsArguments es used → es ≠ [] → ∀ {closing : Token} {rest : List Token},
      closing.kind = .rightParen → (used ++ closing :: rest).length < n →
      Separated (Inside self) es (used ++ closing :: rest) (closing :: rest)
  | .nil, filled, _, _, _, _ => absurd rfl filled
  | .last head, _, _, _, closes, bound => .last (complete.closed bound head closes rfl)
  | .more head between tail, _, closing, rest, closes, bound => by
      rw [List.append_assoc] at bound ⊢
      have inside := complete.closed bound head between rfl
      refine .more inside between (complete.arguments tail (List.cons_ne_nil _ _) closes ?_)
      rw [List.length_append, List.cons_append, List.length_cons] at bound
      omega

theorem Complete.primary (complete : Complete self) {e : Expr} {tokens used rest : List Token}
    {h : tokens.length ≤ n} (same : tokens = used ++ rest) (spells : SpellsPrimary e used)
    (notParen : nextKind rest ≠ .leftParen) (notBracket : nextKind rest ≠ .leftBracket) :
    (primary self tokens h).Gives e rest := by
  cases spells with
  | literal kind =>
      subst same
      exact (gives_primary_literal kind).mpr ⟨rfl, rfl⟩
  | reference kind inside =>
      subst same
      refine (gives_primary_name kind).mpr (gives_reference.mpr (.inr ⟨_, rfl, ?_, ?_, notBracket⟩))
      · cases inside with
        | nil => exact notParen
        | cons opens _ _ _ => simp [opens]
      · exact complete.indices inside (Nat.le_of_succ_le h)
  | call kind opens inside closes =>
      simp only [List.cons_append, List.append_assoc, List.nil_append] at same
      subst same
      refine (gives_primary_name kind).mpr (gives_reference.mpr
        (.inl ⟨_, rfl, _, _, _, rfl, opens, ?_, closes⟩))
      rcases inside.empty_or_filled with ⟨rfl, rfl⟩ | filled
      · exact .inl ⟨rfl, rfl⟩
      · have bound := Nat.lt_of_succ_lt (Nat.lt_of_succ_le h)
        refine .inr ⟨complete.arguments inside filled closes bound, ?_⟩
        obtain ⟨t, vs, rfl, starts⟩ := inside.starts filled
        intro same
        have kind : t.kind = .rightParen := same
        exact absurd starts (by rw [kind]; decide)
  | parenthesized opens inside closes =>
      simp only [List.cons_append, List.append_assoc, List.nil_append] at same
      subst same
      exact (gives_primary_parenthesis opens).mpr
        ⟨_, complete.closed (Nat.lt_of_succ_le h) inside closes rfl, closes⟩

theorem Complete.unary (complete : Complete self) {e : Expr} {tokens used rest : List Token}
    {h : tokens.length ≤ n} (same : tokens = used ++ rest) (spells : Spells 0 e used)
    (notParen : nextKind rest ≠ .leftParen) (notBracket : nextKind rest ≠ .leftBracket) :
    (unary self tokens h).Gives e rest := by
  obtain ⟨operators, inner, us, rfl, unary, primary, rfl⟩ := spells.prefixes
  rw [List.append_assoc] at same
  have bound : (us ++ rest).length ≤ n := by
    rw [same, List.length_append] at h
    omega
  refine gives_unary.mpr ⟨operators, inner, us ++ rest, bound, same, unary, ?_, ?_, rfl⟩
  · obtain ⟨t, vs, rfl, starts⟩ := primary.starts
    exact TokenKind.not_isUnary_of_startsPrimary starts
  · exact complete.primary rfl primary notParen notBracket

theorem Complete.operations {level : Nat}
    (operand : ∀ {e : Expr} {tokens used rest : List Token} {h : tokens.length ≤ n},
      tokens = used ++ rest → Spells level e used → Ends level (nextKind rest) →
        (Grammar.binary self level tokens h).Gives e rest)
    {others : List (Token × Expr)} {used rest : List Token}
    (spells : SpellsOthers level others used) (bound : (used ++ rest).length ≤ n)
    (ends : Ends (level + 1) (nextKind rest)) :
    Repeats (Operation self level) others (used ++ rest) rest := by
  induction spells with
  | nil => exact .nil
  | cons kind head tail ih =>
      rw [List.cons_append, List.append_assoc, List.length_cons] at bound
      rw [List.cons_append, List.append_assoc]
      have shorter := Nat.le_of_succ_le bound
      refine .cons ⟨kind, _, shorter, rfl, operand rfl head (tail.ends ends)⟩ (ih ?_)
      rw [List.length_append] at shorter
      omega

theorem Complete.binary (complete : Complete self) {level : Nat} {e : Expr}
    {tokens used rest : List Token} {h : tokens.length ≤ n} (same : tokens = used ++ rest)
    (spells : Spells level e used) (ends : Ends level (nextKind rest)) :
    (binary self level tokens h).Gives e rest := by
  induction level generalizing tokens used rest e with
  | zero => exact complete.unary same spells ends.notParen ends.notBracket
  | succ level ih =>
      obtain ⟨first, others, us, vs, rfl, head, tail, rfl⟩ := spells.others
      rw [List.append_assoc] at same
      have headEnds := tail.ends ends
      refine gives_binary.mpr
        ⟨first, others, vs ++ rest, ih same head headEnds, ?_, ?_, rfl⟩
      · refine Complete.operations (fun same spells ends => ih same spells ends) tail ?_ ends
        rw [same, List.length_append] at h
        omega
      · have looser := ends.looser
        omega

end Grammar

/-! ## Expressions -/

open Grammar

/-- **What is taken for an expression spells it.** -/
theorem expression_sound {tokens : List Token} {e : Expr} {rest : List Token}
    (gives : (expression tokens).Gives e rest) :
    ∃ used, tokens = used ++ rest ∧ Spells loosestLevel e used := by
  rw [expression] at gives
  refine Sound.binary ?_ gives
  rintro d us vs ⟨shorter, inside⟩
  exact expression_sound inside
termination_by tokens.length

/-- **A spelling is read back** when the token behind it ends the expression. -/
theorem expression_complete {e : Expr} {used rest : List Token}
    (spells : Spells loosestLevel e used) (ends : Ends loosestLevel (nextKind rest)) :
    (expression (used ++ rest)).Gives e rest := by
  rw [expression]
  refine Complete.binary ?_ rfl spells ends
  intro d us vs shorter inside stops
  exact ⟨shorter, expression_complete inside stops⟩
termination_by (used ++ rest).length
decreasing_by exact shorter

/-! ## Requests for an expression -/

/-- A session reads back a spelling that is in front of it, and goes on behind it. -/
theorem Session.ask_expression_of_spells {s : Session} {e : Expr} {used rest : List Token}
    (front : s.rest = used ++ rest) (spells : Spells loosestLevel e used)
    (ends : (nextKind rest).endsExpression) :
    ∃ root, s.ask .expression = (.ok root, s.behind rest (e.number s.nextId).2) ∧
      root.unnumbered = e.shape := by
  have gives := expression_complete spells (.of_endsExpression ends)
  rw [← front] at gives
  refine ⟨(e.number s.nextId).1, ?_, (e.numbering s.nextId).unnumbered⟩
  exact ask_expression_eq_ok.mpr ⟨e, rest, gives, rfl, rfl⟩

/-- What a session has taken for an expression spells it. -/
theorem Session.spells_of_ask_expression {s s' : Session} {root : Node}
    (answers : s.ask .expression = (.ok root, s')) :
    ∃ e used, s.rest = used ++ s'.rest ∧ s'.taken.reverse = s.taken.reverse ++ used ∧
      Spells loosestLevel e used ∧ root.unnumbered = e.shape := by
  obtain ⟨e, rest, gives, rfl, rfl⟩ := ask_expression_eq_ok.mp answers
  obtain ⟨used, front, spells⟩ := expression_sound gives
  exact ⟨e, used, front, taken_behind front, spells, (e.numbering s.nextId).unnumbered⟩

/-- **Expressions are read exactly as they are spelled.**  Every spelling of a well-formed
expression is read back when the token behind it ends the expression: the tree has the
shape of the expression, and exactly the spelling is taken.  Conversely, the tokens taken
for an expression spell a well-formed one whose shape the tree has. -/
theorem ask_expression_exact :
    (∀ (e : Expr) (used after : List Token) (next : Token) (nextId : NodeId),
      e.WellFormed → Spells loosestLevel e used → next.kind.endsExpression →
      ∃ root s, (Session.ofTokens (used ++ next :: after) nextId).ask .expression = (.ok root, s) ∧
        root.unnumbered = e.shape ∧ s.taken.reverse = used ∧ s.current = next) ∧
    ∀ (tokens : List Token) (nextId : NodeId) (root : Node) (s : Session),
      (Session.ofTokens tokens nextId).ask .expression = (.ok root, s) →
      ∃ e, e.WellFormed ∧ Spells loosestLevel e s.taken.reverse ∧ root.unnumbered = e.shape ∧
        s.taken.reverse ++ s.rest = tokens.takeWhile (·.kind ≠ .eof) := by
  constructor
  · intro e used after next nextId _ spells ends
    obtain ⟨rest, front, kind, current⟩ :=
      Session.ofTokens_append spells.unended next after nextId
    rw [← kind] at ends
    obtain ⟨root, answers, shape⟩ := Session.ask_expression_of_spells front spells ends
    exact ⟨root, _, answers, shape, Session.taken_behind front, current⟩
  · intro tokens nextId root s answers
    obtain ⟨e, used, front, taken, spells, shape⟩ := Session.spells_of_ask_expression answers
    have all : s.taken.reverse = used := taken
    rw [all]
    exact ⟨e, spells.wellFormed, spells, shape, front.symm⟩

/-- The product of a negated name and a sum is read back from its tightest spelling. -/
theorem ask_expression_exact_product :
    let minus := TokenKind.minus.token
    let name := TokenKind.identifier.token
    let times := TokenKind.star.token
    let plus := TokenKind.plus.token
    let opening := TokenKind.leftParen.token
    let closing := TokenKind.rightParen.token
    let sum := Expr.binary (.reference name []) plus (.reference name [])
    let e := Expr.binary (.unary minus (.reference name [])) times sum
    let used := [minus, name, times, opening, name, plus, name, closing]
    e.WellFormed ∧ Spells loosestLevel e used ∧ ∃ root s,
      (Session.ofTokens (used ++ [TokenKind.semicolon.token]) 1).ask .expression = (.ok root, s) ∧
        root.unnumbered = e.shape ∧ s.taken.reverse = used ∧
        s.current = TokenKind.semicolon.token := by
  intro minus name times plus opening closing sum e used
  have reference : SpellsPrimary (.reference name []) [name] := .reference rfl .nil
  have sumSpells : Spells loosestLevel sum [name, plus, name] :=
    @Spells.binary _ 1 _ _ _ [name] [name] rfl (by decide) (.primary reference) (.primary reference)
  have right : Spells 0 sum [opening, name, plus, name, closing] :=
    .primary (@SpellsPrimary.parenthesized _ _ _ [name, plus, name] rfl sumSpells rfl)
  have left : Spells 1 (.unary minus (.reference name [])) [minus, name] :=
    .unary rfl (.primary reference)
  have spells : Spells loosestLevel e used :=
    @Spells.binary _ 0 _ _ _ [minus, name] _ rfl (by decide) left right
  have wellFormed := spells.wellFormed
  exact ⟨wellFormed, spells, ask_expression_exact.1 e used [] _ 1 wellFormed spells rfl⟩

end BlockSyntax
