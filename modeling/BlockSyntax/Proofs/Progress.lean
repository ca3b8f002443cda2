import BlockSyntax.Proofs.Lookahead

/-!
# Progress

A parser that reads something takes at least one token, and what it leaves is an end of the
tokens, as it is when the parser fails.  It is so for every routine of the grammar and for
what every loop reads in one round (`Progress`).

Therefore parsing ends.  Expressions and statements are read inside each other less deep than
there are tokens, and no loop goes round more often than there are tokens: a reading that is
cut off behind so many levels or rounds, and goes on there in any way, is the same reading
(`Returns`).

A program is read up to the first end marker, since only the end marker stops the loop over
its items.
-/

set_option autoImplicit false

namespace BlockSyntax

open Reply

variable {α β : Type} {n : Nat}

/-! ## Readings that are cut off -/

section Length

variable {us vs ws xs : List Token}

theorem length_le_refl (us : List Token) : us.length ≤ us.length := Nat.le_refl _

theorem length_lt_behind_succ (first : vs.length < us.length)
    (second : ws.length < vs.length + 1) : ws.length < us.length + 1 :=
  Nat.lt_succ_of_le (Nat.le_trans (Nat.le_of_lt_succ second) (Nat.le_of_lt first))

theorem length_lt_two_succ (first : vs.length < us.length) (second : ws.length < vs.length)
    (third : xs.length < ws.length + 1) : xs.length < us.length + 1 :=
  length_lt_behind_succ (length_lt_two first second) third

end Length

/-- Reads an expression; the ones that are nested to a depth are read by another parser. -/
def expressionWithin (beyond : (us : List Token) → Reply Expr us.length) :
    Nat → (us : List Token) → Reply Expr us.length
  | 0, us => beyond us
  | depth + 1, us =>
    Grammar.binary (fun vs (_ : vs.length < us.length) => expressionWithin beyond depth vs)
      loosestLevel us (length_le_refl us)

/-- Reads a statement; the ones that are nested to a depth are read by another parser. -/
def statementWithin (beyond : (us : List Token) → Reply Stmt us.length) :
    Nat → (us : List Token) → Reply Stmt us.length
  | 0, us => beyond us
  | depth + 1, us =>
    Grammar.statementAround (fun vs (_ : vs.length < us.length) => statementWithin beyond depth vs)
      us (length_le_refl us)

/-- Reads items as long as the next token invites one; behind a number of rounds another parser
goes on. -/
def whileNextWithin (beyond : (us : List Token) → Reply (List α) (us.length + 1))
    (invites : TokenKind → Bool) : Nat → (us : List Token) → Below (us.length + 1) α →
      Reply (List α) (us.length + 1)
  | 0, us, _ => beyond us
  | rounds + 1, us, item =>
    if invites (nextKind us) then
      (item us (length_lt_succ us)).bind fun a vs shorter =>
      (whileNextWithin beyond invites rounds vs fun ws within =>
        item ws (length_lt_behind_succ shorter within)).bind fun as ws within =>
      .ok (a :: as) ws 0 (length_lt_behind_succ shorter within)
    else .ok [] us 0 (length_lt_succ us)

/-- Reads one item and another behind every comma; behind a number of rounds another parser goes
on. -/
def separatedWithin (beyond : (us : List Token) → Reply (List α) us.length) :
    Nat → (us : List Token) → Below (us.length + 1) α → Reply (List α) us.length
  | 0, us, _ => beyond us
  | rounds + 1, us, item =>
    (item us (length_lt_succ us)).bind fun a vs first =>
    if nextKind vs = .comma then
      (take .comma vs).bind fun _ ws second =>
      (separatedWithin beyond rounds ws fun xs within =>
        item xs (length_lt_two_succ first second within)).bind fun as xs third =>
      .ok (a :: as) xs 0 (length_lt_three first second third)
    else .ok [a] vs 0 first

theorem Reply.bind_congr {m : Nat} {r : Reply α m}
    {next next' : α → (rest : List Token) → rest.length < m → Reply β n}
    (same : ∀ a rest h, next a rest h = next' a rest h) : r.bind next = r.bind next' :=
  congrArg r.bind (funext fun a => funext fun rest => funext fun h => same a rest h)

/-- **Expressions nest less deep than there are tokens.** -/
theorem expressionWithin_eq {beyond : (us : List Token) → Reply Expr us.length} {depth : Nat}
    {us : List Token} (enough : us.length < depth) :
    expressionWithin beyond depth us = expression us := by
  induction depth generalizing us with
  | zero => exact absurd enough (Nat.not_lt_zero _)
  | succ depth ih =>
      have inside : (fun vs (_ : vs.length < us.length) => expressionWithin beyond depth vs) =
          Grammar.innerExpr us.length :=
        funext fun vs => funext fun shorter => ih (by omega)
      rw [expressionWithin, inside, expression_eq]

/-- **Statements nest less deep than there are tokens.** -/
theorem statementWithin_eq {beyond : (us : List Token) → Reply Stmt us.length} {depth : Nat}
    {us : List Token} (enough : us.length < depth) :
    statementWithin beyond depth us = statement us := by
  induction depth generalizing us with
  | zero => exact absurd enough (Nat.not_lt_zero _)
  | succ depth ih =>
      have inside : (fun vs (_ : vs.length < us.length) => statementWithin beyond depth vs) =
          inner us.length :=
        funext fun vs => funext fun shorter => ih (by omega)
      rw [statementWithin, inside, statement_eq]

/-- **A loop goes round no more often than there are tokens.** -/
theorem whileNextWithin_eq {beyond : (us : List Token) → Reply (List α) (us.length + 1)}
    {invites : TokenKind → Bool} {rounds : Nat} {us : List Token} {item : Below (us.length + 1) α}
    (enough : us.length < rounds) :
    whileNextWithin beyond invites rounds us item = whileNext invites us item := by
  induction rounds generalizing us with
  | zero => exact absurd enough (Nat.not_lt_zero _)
  | succ rounds ih =>
      rw [whileNextWithin, whileNext]
      split
      case isTrue =>
        refine bind_congr fun a vs shorter => ?_
        rw [ih (by omega)]
      case isFalse => rfl

/-- **Items with commas between them are no more than there are tokens.** -/
theorem separatedWithin_eq {beyond : (us : List Token) → Reply (List α) us.length}
    {rounds : Nat} {us : List Token} {item : Below (us.length + 1) α}
    (enough : us.length < rounds) :
    separatedWithin beyond rounds us item = separated us item := by
  induction rounds generalizing us with
  | zero => exact absurd enough (Nat.not_lt_zero _)
  | succ rounds ih =>
      rw [separatedWithin, separated]
      refine bind_congr fun a vs first => ?_
      split
      case isTrue =>
        refine bind_congr fun _ ws second => ?_
        rw [ih (by omega)]
      case isFalse => rfl

/-- Parsing ends on a list of tokens: a reading that is cut off behind more levels or rounds than
there are tokens is the whole reading, whatever comes behind. -/
structure Returns (us : List Token) : Prop where
  /-- Expressions inside each other. -/
  expression : ∀ beyond depth, us.length < depth →
    expressionWithin beyond depth us = BlockSyntax.expression us
  /-- Statements inside each other. -/
  statement : ∀ beyond depth, us.length < depth →
    statementWithin beyond depth us = BlockSyntax.statement us
  /-- Loops that go on as long as the next token invites it. -/
  whileNext : ∀ {α : Type} beyond invites (item : Below (us.length + 1) α) rounds,
    us.length < rounds →
      whileNextWithin beyond invites rounds us item = BlockSyntax.whileNext invites us item
  /-- Loops that go on behind every comma. -/
  separated : ∀ {α : Type} beyond (item : Below (us.length + 1) α) rounds, us.length < rounds →
    separatedWithin beyond rounds us item = BlockSyntax.separated us item

theorem returns (us : List Token) : Returns us where
  expression _ _ := expressionWithin_eq
  statement _ _ := statementWithin_eq
  whileNext _ _ _ _ := whileNextWithin_eq
  separated _ _ _ := separatedWithin_eq

/-! ## Routines and rounds -/

/-- What is left is an end of the tokens, and at least one of them is in front of it when a value
was read. -/
def Reply.Progresses (us : List Token) (r : Reply α n) : Prop :=
  match r with
  | ok _ rest _ _ => ∃ t used, us = t :: used ++ rest
  | fail _ rest _ => ∃ used, us = used ++ rest

/-- A parser that leaves an end which is shorter has taken a token. -/
theorem Reply.Determines.progresses {f : Token → Token} {v : α → β} {us : List Token}
    {r : Reply α us.length} {bound : List Token → Nat}
    {family : (vs : List Token) → Reply β (bound vs)} (determines : r.Determines f v us id family) :
    r.Progresses us := by
  obtain ⟨used, parts⟩ := determines.exists_used
  cases r with
  | fail e rest made => exact ⟨used, parts⟩
  | ok a rest made shorter =>
      cases used with
      | cons t used => exact ⟨t, used, parts⟩
      | nil =>
          obtain rfl : us = rest := parts
          exact absurd shorter (Nat.lt_irrefl _)

/-- Every routine and every round of a loop progresses on a list of tokens. -/
structure Progress (us : List Token) : Prop where
  /-- An expression, which is also a round of the loop over arguments. -/
  expression : (BlockSyntax.expression us).Progresses us
  /-- A statement, which is also a round of the loop over the statements of a block. -/
  statement : (BlockSyntax.statement us).Progresses us
  /-- A function behind its word. -/
  function : ∀ opened, (Grammar.function opened us).Progresses us
  /-- An enumeration behind its word. -/
  enumeration : (Grammar.enumeration us).Progresses us
  /-- The parameters of a function. -/
  params : (Grammar.params us).Progresses us
  /-- A variable declaration behind its type. -/
  declaration : ∀ type, (Grammar.declaration type us).Progresses us
  /-- An item of a program. -/
  item : (Grammar.item us).Progresses us
  /-- A further condition of a conditional, with its body. -/
  orIf : ∀ n h, (Grammar.orIf (inner n) us h).Progresses us
  /-- An operator of a level with the operand behind it. -/
  operation : ∀ n level h, (Grammar.operation (level + 1)
    (Grammar.binary (Grammar.innerExpr n) level) us h).Progresses us
  /-- An operator in front of an operand. -/
  unary : (takeIf TokenKind.isUnary .expression us).node.Progresses us
  /-- An index behind a name. -/
  index : ∀ n h, (Grammar.index (Grammar.innerExpr n) us h).Progresses us
  /-- A dimension of an array type. -/
  dimension : (Grammar.dimension us).Progresses us
  /-- A parameter. -/
  param : (Grammar.param us).Progresses us
  /-- A name: a value of an enumeration, or a variable that is declared. -/
  name : ∀ role, (takeName role us).node.Progresses us

/-- **Every success takes a token**, and every failure leaves an end of the tokens. -/
theorem progress (us : List Token) : Progress us where
  expression := (expression_determined kind_id us).progresses
  statement := (statement_determined kind_id us).progresses
  function _ := (Grammar.function_determined kind_id).progresses
  enumeration := (Grammar.enumeration_determined kind_id).progresses
  params := (Grammar.params_determined kind_id).progresses
  declaration _ := (Grammar.declaration_determined kind_id).progresses
  item := (Grammar.item_determined kind_id).progresses
  orIf n h := by
    have determined : (Grammar.orIf (inner n) us h).Determines id (orIfMapTokens id) us id
        fun vs => Grammar.orIf (inner vs.length) vs (Nat.le_refl _) :=
      Grammar.orIf_determined kind_id inner_determined
    exact determined.progresses
  operation n level h := by
    have determined : (Grammar.operation (level + 1)
        (Grammar.binary (Grammar.innerExpr n) level) us h).Determines id
          (Prod.map id (Expr.mapTokens id)) us id fun vs => Grammar.operation (level + 1)
            (Grammar.binary (Grammar.innerExpr vs.length) level) vs (Nat.le_refl _) :=
      Grammar.operation_determined kind_id (fun m => Grammar.binary (Grammar.innerExpr m) level)
        fun _ _ _ => Grammar.binary_determined kind_id innerExpr_determined
    exact determined.progresses
  unary := (determines_takeIf kind_id rfl).node.progresses
  index n h := by
    have determined : (Grammar.index (Grammar.innerExpr n) us h).Determines id (Expr.mapTokens id)
        us id fun vs => Grammar.index (Grammar.innerExpr vs.length) vs (Nat.le_refl _) :=
      Grammar.index_determined kind_id innerExpr_determined
    exact determined.progresses
  dimension := (Grammar.dimension_determined kind_id).progresses
  param := (Grammar.param_determined kind_id).progresses
  name _ := (determines_takeName kind_id).node.progresses

/-! ## Requests -/

namespace Session

variable {s s' : Session}

theorem Advances.cursor_lt (advances : s.Advances s') (shorter : s'.rest.length < s.rest.length) :
    s.cursor < s'.cursor := by
  obtain ⟨⟨used, front, taken⟩, _⟩ := advances
  rw [front, List.length_append] at shorter
  rw [cursor, cursor, taken, List.length_append, List.length_reverse]
  omega

/-- A session with nothing left has come to the first end marker. -/
theorem Advances.cursor_eq {tokens : List Token} {nextId : NodeId}
    (advances : (ofTokens tokens nextId).Advances s) (nothing : s.rest = []) :
    s.cursor = firstEnd tokens := by
  obtain ⟨⟨used, front, taken⟩, _⟩ := advances
  rw [nothing, List.append_nil] at front
  rw [cursor_of_taken taken, firstEnd_eq_length tokens nextId, front]

theorem ask_shortens {goal : Goal} (part : goal ≠ .program) (ok : (s.ask goal).1.isOk) :
    (s.ask goal).2.rest.length < s.rest.length := by
  obtain ⟨root, s', asked⟩ := exists_of_isOk ok
  obtain ⟨walk, rest, gives, _, rfl⟩ := ask_eq_ok.mp asked
  rw [asked]
  show rest.length < s.rest.length
  cases goal with
  | program => exact absurd rfl part
  | statement =>
      simp only [Goal.parse, gives_widen] at gives
      exact gives.length_lt
  | expression =>
      simp only [Goal.parse, gives_widen] at gives
      exact gives.length_lt

/-- A program is all that is left. -/
theorem ask_program_rest (unended : Unended s.rest) (ok : (s.ask .program).1.isOk) :
    (s.ask .program).2.rest = [] := by
  obtain ⟨root, s', asked⟩ := exists_of_isOk ok
  obtain ⟨p, rest, gives, _, rfl⟩ := ask_program_eq_ok.mp asked
  obtain ⟨⟨used, front, _⟩, _⟩ := (ask_step s .program).1
  rw [front, unended_append] at unended
  rw [asked] at unended ⊢
  exact (nextKind_eq_eof unended.2).mp (gives_program.mp gives).2

end Session

/-- **Parsing progresses and ends, at every cursor.**  Among the tokens behind a cursor every
routine that reads something takes at least one, and so does every round of a loop; expressions
and statements nest less deep, and loops go round no more often, than there are tokens.  A request
stops between its cursor and the first end marker.  One for a statement or an expression that
succeeds has moved on, and one for a program that succeeds stops at the first end marker. -/
theorem parsing_progresses {tokens : List Token} {cursor : Nat} (nextId : NodeId)
    (error? : Option SyntaxError) (within : cursor ≤ Session.firstEnd tokens) :
    let s := Session.resumed tokens cursor nextId error?
    Progress s.rest ∧ Returns s.rest ∧
      (∀ goal, cursor ≤ (s.ask goal).2.cursor ∧
        (s.ask goal).2.cursor ≤ Session.firstEnd tokens) ∧
      (∀ goal, goal ≠ .program → (s.ask goal).1.isOk → cursor < (s.ask goal).2.cursor) ∧
      ((s.ask .program).1.isOk → (s.ask .program).2.cursor = Session.firstEnd tokens) := by
  intro s
  have start : s.cursor = cursor := Session.cursor_resumed within
  have advances (goal : Goal) : s.Advances (s.ask goal).2 := (Session.ask_step s goal).1
  have fromStart (goal : Goal) : (Session.ofTokens tokens nextId).Advances (s.ask goal).2 :=
    (Session.advances_resumed tokens cursor nextId error?).trans (advances goal)
  refine ⟨progress s.rest, returns s.rest, ?between, ?moved, ?ended⟩
  case between =>
    intro goal
    exact ⟨start ▸ (advances goal).cursor_le, (fromStart goal).atCursor.within⟩
  case moved =>
    intro goal part ok
    exact start ▸ (advances goal).cursor_lt (Session.ask_shortens part ok)
  case ended =>
    intro ok
    have unended : Unended s.rest := Session.unended_behind (List.take_append_drop cursor _).symm
    exact (fromStart .program).cursor_eq (Session.ask_program_rest unended ok)

/-- A conditional in a block, an enumeration and a function, from the cursor behind an expression:
the statement takes the block, and the program stops at the first of two end markers. -/
theorem parsing_progresses_block :
    let tokens := [TokenKind.identifier, .semicolon, .kwBegin, .kwReturn, .kwEnd, .kwEnum,
      .identifier, .leftBrace, .rightBrace, .kwFunction, .identifier, .leftParen, .rightParen,
      .colon, .kwInt, .kwReturn, .eof, .semicolon, .eof].map TokenKind.token
    let s := Session.resumed tokens 2 7 none
    (s.ask .statement).1.isOk ∧ 2 < (s.ask .statement).2.cursor ∧
      (s.ask .program).1.isOk ∧ (s.ask .program).2.cursor = 16 := by
  intro tokens s
  have within : 2 ≤ Session.firstEnd tokens := by decide +kernel
  have read : (s.ask .statement).1.isOk := by decide +kernel
  have whole : (s.ask .program).1.isOk := by decide +kernel
  obtain ⟨_, _, _, moved, ended⟩ := parsing_progresses 7 none within
  refine ⟨read, moved .statement (by decide) read, whole, ?_⟩
  exact (ended whole).trans (by decide +kernel)

end BlockSyntax
