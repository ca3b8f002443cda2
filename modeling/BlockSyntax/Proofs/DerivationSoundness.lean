import BlockSyntax.Proofs.Derivation
import BlockSyntax.Proofs.ExpressionExactness
import BlockSyntax.Proofs.ProgramRoutines
import BlockSyntax.Proofs.Session
import BlockSyntax.Proofs.Shape

/-!
# What is read is derived by the grammar

Every statement, item and program that a parse gives is derived by the productions from
the tokens it took.  A routine is sound when the parser for the statements inside is
(`SoundStmts`), one lemma for each production, and an induction on the number of tokens
discharges the hypothesis (`statement_sound`).

A session that answers with a program has taken all its tokens, so the tokens in front of
the first end marker are derived as a whole, and the tree of the answer has the shape of
what they were derived as.
-/

set_option autoImplicit false

namespace BlockSyntax

theorem ReadsExpr.derives {e : Expr} {us rest : List Token} (reads : ReadsExpr e us rest) :
    DerivesExpr e us rest :=
  expression_sound reads

namespace Grammar

open Reply

/-! ## Statements without statements inside -/

theorem declaration_sound {type : Token} {tokens rest : List Token} {s : Stmt}
    (kind : type.kind.isType) (gives : (declaration type tokens).Gives s rest) :
    DerivesStmt s (type :: tokens) rest := by
  obtain ⟨dimensions, names, mid, semicolon, rfl, sizes, _, declared, ends⟩ :=
    gives_declaration.mp gives
  exact .declaration ⟨rfl, kind⟩ sizes declared (marks_one ends)

theorem print_sound {word : Token} {tokens rest : List Token} {s : Stmt}
    (kind : word.kind = .kwPrint) (gives : (print tokens).Gives s rest) :
    DerivesStmt s (word :: tokens) rest := by
  obtain ⟨value, semicolon, rfl, ⟨opening, closing, us, rfl, opens, inside, closes⟩, ends⟩ :=
    gives_print.mp gives
  exact .print (marks_two kind opens) inside.derives (marks_two closes ends)

theorem read_sound {word : Token} {tokens rest : List Token} {s : Stmt}
    (kind : word.kind = .kwRead) (gives : (read tokens).Gives s rest) :
    DerivesStmt s (word :: tokens) rest := by
  obtain ⟨target, semicolon, rfl, ⟨opening, closing, us, rfl, opens, inside, closes⟩, ends⟩ :=
    gives_read.mp gives
  exact .read (marks_two kind opens) inside.derives (marks_two closes ends)

theorem result_sound {word : Token} {tokens rest : List Token} {s : Stmt}
    (kind : word.kind = .kwReturn) (gives : (result tokens).Gives s rest) :
    DerivesStmt s (word :: tokens) rest := by
  obtain ⟨value, mid, rfl, inside, ends⟩ := gives_result.mp gives
  have derived : DerivesValue value tokens mid := by
    rcases gives_resultValue.mp inside with ⟨rfl, _, rfl⟩ | ⟨e, rfl, _, reads⟩
    · exact .none
    · exact .some reads.derives
  refine .result (marks_one kind) derived ?_
  rcases ends with ⟨follows, rfl⟩ | ⟨semicolon, rfl, ends⟩
  · exact .inr ⟨rfl, follows⟩
  · exact .inl (marks_one ends)

theorem assignmentOrEvaluation_sound {tokens rest : List Token} {s : Stmt}
    (gives : (assignmentOrEvaluation tokens).Gives s rest) : DerivesStmt s tokens rest := by
  rcases gives_assignmentOrEvaluation.mp gives with
    ⟨value, target, arrow, semicolon, us, rfl, source, between, goal, ends⟩ |
    ⟨value, semicolon, rfl, inside, ends⟩
  · exact .assignment source.derives (marks_one between) goal.derives (marks_one ends)
  · exact .evaluation inside.derives (marks_one ends)

/-- An `end` that commits to a word behind it, or nothing. -/
theorem closing_sound {k : TokenKind} {tokens rest : List Token} {u : Unit}
    (gives : (closing k tokens).Gives u rest) : Optional [.kwEnd, k] tokens rest := by
  rcases gives_closing.mp gives with ⟨ended, word, rfl, kind, wordKind⟩ | ⟨rfl, _⟩
  · exact .inl (marks_two kind wordKind)
  · exact .inr rfl

/-! ## Statements with statements inside -/

/-- What the parser for the statements inside gives is derived. -/
def SoundStmts {n : Nat} (self : Below n Stmt) : Prop :=
  ∀ s us rest, Inside self s us rest → DerivesStmt s us rest

section Inside

variable {n : Nat} {self : Below n Stmt} (sound : SoundStmts self)

include sound

theorem SoundStmts.orIfs {orIfs : List (Expr × Stmt)} {us rest : List Token}
    (repeats : Repeats (OrIf (Inside self)) orIfs us rest) : DerivesOrIfs orIfs us rest := by
  induction repeats with
  | nil => exact .nil
  | cons head _ ih =>
      obtain ⟨word, next, vs, mid, rfl, wordKind, nextKind, condition, branch⟩ := head
      obtain ⟨opening, closing, ws, rfl, opens, inside, closes⟩ := condition
      exact .cons ⟨word, _, rfl, wordKind, marks_two nextKind opens⟩ inside.derives
        (marks_one closes) (sound _ _ _ branch) ih

theorem SoundStmts.otherwise {last : Option Stmt} {us rest : List Token}
    (reads : Otherwise (Inside self) last us rest) : DerivesElse last us rest := by
  rcases reads with ⟨rfl, _, rfl⟩ | ⟨body, word, vs, rfl, rfl, kind, branch⟩
  · exact .none
  · exact .some (marks_one kind) (sound _ _ _ branch)

theorem SoundStmts.conditional {word : Token} {tokens us rest : List Token}
    {h : tokens.length ≤ n} {s : Stmt} (begins : Optional [.kwBegin] us (word :: tokens))
    (kind : word.kind = .kwIf) (gives : (conditional self tokens h).Gives s rest) :
    DerivesStmt s us rest := by
  obtain ⟨inside, branch, branches, _, otherwise, ends⟩ := gives_conditional.mp gives
  obtain ⟨opening, closing, zs, rfl, opens, reads, closes⟩ := inside
  refine .conditional begins (marks_two kind opens) reads.derives (marks_one closes)
    (sound _ _ _ branch) (sound.orIfs branches) (sound.otherwise otherwise) ?_
  rcases ends with ⟨ended, rfl, endKind⟩ | ⟨rfl, _⟩
  · exact .inl (marks_one endKind)
  · exact .inr rfl

theorem SoundStmts.loop {word : Token} {tokens us rest : List Token} {h : tokens.length ≤ n}
    {s : Stmt} (begins : Optional [.kwBegin] us (word :: tokens)) (kind : word.kind = .kwFor)
    (gives : (loop self tokens h).Gives s rest) : DerivesStmt s us rest := by
  obtain ⟨opens, name, goesKind, startKind, lowerReads, boundKind, upperReads, closes, branch,
    ends⟩ := gives_loop.mp gives
  exact .loop begins (marks_two kind opens) ⟨rfl, name⟩ (marks_two goesKind startKind)
    lowerReads.derives (marks_one boundKind) upperReads.derives (marks_one closes)
    (sound _ _ _ branch) (closing_sound ends)

theorem SoundStmts.statements {ss : List Stmt} {us rest : List Token}
    (repeats : Repeats (InBlock (Inside self)) ss us rest) : DerivesStmts ss us rest := by
  induction repeats with
  | nil => exact .nil
  | cons head _ ih => exact .cons (sound _ _ _ head.2.2) ih

theorem SoundStmts.block {word : Token} {tokens rest : List Token} {h : tokens.length < n}
    {s : Stmt} (kind : word.kind = .kwBegin) (gives : (block self tokens h).Gives s rest) :
    DerivesStmt s (word :: tokens) rest := by
  obtain ⟨inside, endKind⟩ := gives_block.mp gives
  exact .block (marks_one kind) (sound.statements inside) (marks_one endKind)

/-- Behind `begin` stands a conditional, a loop or the body of a block. -/
theorem SoundStmts.begun {word : Token} {tokens rest : List Token} {h : tokens.length < n}
    {s : Stmt} (kind : word.kind = .kwBegin) (gives : (begun self tokens h).Gives s rest) :
    DerivesStmt s (word :: tokens) rest := by
  have begins : Optional [.kwBegin] (word :: tokens) tokens := .inl (marks_one kind)
  by_cases conditional : nextKind tokens = .kwIf
  · cases tokens with
    | nil => cases conditional
    | cons next us =>
        obtain ⟨_, inside⟩ := (gives_begun_if conditional).mp gives
        exact sound.conditional begins conditional inside
  · by_cases loop : nextKind tokens = .kwFor
    · cases tokens with
      | nil => cases loop
      | cons next us =>
          obtain ⟨_, inside⟩ := (gives_begun_for loop).mp gives
          exact sound.loop begins loop inside
    · exact sound.block kind ((gives_begun_block conditional loop).mp gives)

/-- The first token says which production derives the statement. -/
theorem SoundStmts.statement {tokens rest : List Token} {h : tokens.length ≤ n} {s : Stmt}
    (gives : (statementAround self tokens h).Gives s rest) : DerivesStmt s tokens rest := by
  by_cases starts : startsStatement (nextKind tokens)
  · cases tokens with
    | nil => cases starts
    | cons t us =>
        have unmarked : Optional [.kwBegin] (t :: us) (t :: us) := .inr rfl
        cases kind : t.kind
        case kwBegin => exact sound.begun kind ((gives_statement_begin kind).mp gives)
        case kwPrint => exact print_sound kind ((gives_statement_print kind).mp gives)
        case kwRead => exact read_sound kind ((gives_statement_read kind).mp gives)
        case kwReturn => exact result_sound kind ((gives_statement_return kind).mp gives)
        case kwIf =>
          exact sound.conditional unmarked kind ((gives_statement_if kind).mp gives)
        case kwFor => exact sound.loop unmarked kind ((gives_statement_for kind).mp gives)
        case kwInt | kwReal | kwBool =>
          have type : t.kind.isType := by
            rw [kind]
            rfl
          exact declaration_sound type ((gives_statement_type type).mp gives)
        all_goals
          rw [nextKind_cons, kind] at starts
          cases starts
  · exact assignmentOrEvaluation_sound ((gives_statement_expression starts).mp gives)

end Inside

end Grammar

open Grammar

/-- **A statement that is read is derived** from the tokens that were taken. -/
theorem statement_sound {tokens rest : List Token} {s : Stmt}
    (gives : (statement tokens).Gives s rest) : DerivesStmt s tokens rest := by
  rw [statement] at gives
  refine SoundStmts.statement ?_ gives
  rintro s us vs ⟨shorter, inside⟩
  exact statement_sound inside
termination_by tokens.length

namespace Grammar

/-! ## Declarations -/

theorem signature_sound {f : Function} {us vs rest : List Token} {colon : Token}
    (named : f.name.kind = .identifier)
    (inside : (params us).Gives f.params (colon :: f.returnType :: rest))
    (kind : colon.kind = .colon) (typed : f.returnType.kind.isType)
    (same : vs = f.name :: us) : DerivesSignature f vs rest := by
  obtain ⟨opening, closing, ws, rfl, opens, list, closes⟩ := gives_params.mp inside
  have derived : SeparatedOrNone DerivesParam f.params ws
      (closing :: colon :: f.returnType :: rest) := by
    rcases list with ⟨none, rfl⟩ | ⟨separated, _⟩
    · exact .inl ⟨none, rfl⟩
    · refine .inr (separated.mono ?_)
      rintro p us vs ⟨between, rfl, paramNamed, colonKind, paramTyped⟩
      exact .mk ⟨rfl, paramNamed⟩ (marks_one colonKind) ⟨rfl, paramTyped⟩
  exact .mk ⟨same, named⟩ (marks_one opens) derived (marks_two closes kind) ⟨rfl, typed⟩

/-- A function without `begin` may be closed or not. -/
theorem function_sound {word : Token} {us rest : List Token} {f : Function}
    (kind : word.kind = .kwFunction) (gives : (function false us).Gives f rest) :
    DerivesItem (.function f) (word :: us) rest := by
  obtain ⟨vs, ws, xs, colon, rfl, named, inside, colonKind, typed, body, closed⟩ :=
    gives_function.mp gives
  rw [if_neg Bool.false_ne_true] at closed
  exact .function (marks_one kind) (signature_sound named inside colonKind typed rfl)
    (statement_sound body) (closing_sound closed)

/-- A function with `begin` is closed in the way that its body asks for. -/
theorem function_begun_sound {begins word : Token} {us rest : List Token} {f : Function}
    (beginsKind : begins.kind = .kwBegin) (kind : word.kind = .kwFunction)
    (gives : (function true us).Gives f rest) :
    DerivesItem (.function f) (begins :: word :: us) rest := by
  obtain ⟨vs, ws, xs, colon, rfl, named, inside, colonKind, typed, body, closed⟩ :=
    gives_function.mp gives
  rw [if_pos rfl] at closed
  have opens : Marks [.kwBegin, .kwFunction] (begins :: word :: f.name :: vs) (f.name :: vs) :=
    marks_two beginsKind kind
  have signature := signature_sound named inside colonKind typed rfl
  rcases gives_closingBegun.mp closed with ⟨block, last, rfl, lastKind⟩ |
    ⟨notBlock, ended, last, rfl, endKind, lastKind⟩
  · exact .begunBlock opens signature (statement_sound body) block (marks_one lastKind)
  · exact .begun opens signature (statement_sound body) notBlock (marks_two endKind lastKind)

theorem mem_followsEnumeration {k : TokenKind} (ends : endsEnumeration k) :
    k ∈ followsEnumeration := by
  revert ends
  cases k <;> decide

theorem enumeration_sound {word : Token} {us rest : List Token} {e : Enumeration}
    (kind : word.kind = .kwEnum) (gives : (enumeration us).Gives e rest) :
    DerivesItem (.enumeration e) (word :: us) rest := by
  obtain ⟨_, ws, rfl, named, ⟨opening, closing, vs, rfl, opens, list, closes⟩, ended⟩ :=
    gives_enumeration.mp gives
  have values : SeparatedOrNone (Next (· = .identifier)) e.values vs (closing :: ws) := by
    rcases list with ⟨none, rfl⟩ | ⟨separated, _⟩
    · exact .inl ⟨none, rfl⟩
    · exact .inr separated
  refine .enumeration (marks_one kind) ⟨rfl, named⟩ (marks_one opens) values (marks_one closes) ?_
  rcases gives_enumerationEnd.mp ended with ⟨ends, rfl⟩ | ⟨semicolon, rfl, semicolonKind⟩
  · exact .inr ⟨rfl, mem_followsEnumeration ends⟩
  · exact .inl (marks_one semicolonKind)

/-- **An item that is read is derived** from the tokens that were taken. -/
theorem item_sound {us rest : List Token} {i : Item} (reads : ReadsItem i us rest) :
    DerivesItem i us rest := by
  obtain ⟨more, gives⟩ := reads
  cases us with
  | nil => exact absurd rfl more
  | cons t us =>
      by_cases function : t.kind = .kwFunction
      · obtain ⟨f, rfl, inside⟩ := (gives_item_function function).mp gives
        exact function_sound function inside
      · by_cases enum : t.kind = .kwEnum
        · obtain ⟨e, rfl, inside⟩ := (gives_item_enumeration enum).mp gives
          exact enumeration_sound enum inside
        · by_cases begun : t.kind = .kwBegin ∧ nextKind us = .kwFunction
          · obtain ⟨begins, kind⟩ := begun
            cases us with
            | nil => cases kind
            | cons word us =>
                obtain ⟨f, rfl, inside⟩ := (gives_item_begun begins kind).mp gives
                exact function_begun_sound begins kind inside
          · obtain ⟨s, rfl, inside⟩ := (gives_item_statement begun function enum).mp gives
            exact .statement (statement_sound inside)

end Grammar

/-! ## Programs -/

/-- Without an end marker only the end of the tokens is the end of the source. -/
theorem nextKind_eq_eof {tokens : List Token} (unended : Unended tokens) :
    nextKind tokens = .eof ↔ tokens = [] := by
  cases tokens with
  | nil => simp
  | cons t us => simpa using (unended_cons.mp unended).1

theorem unended_takeWhile (tokens : List Token) : Unended (tokens.takeWhile (·.kind ≠ .eof)) := by
  intro t inFront
  simpa using List.all_eq_true.mp List.all_takeWhile t inFront

theorem program_derived {tokens rest : List Token} {p : Program}
    (gives : (program tokens).Gives p rest) : Repeats DerivesItem p.items tokens rest :=
  (gives_program.mp gives).1.mono fun _ _ _ => item_sound

/-- **A program that is read takes all the tokens** when there is no end marker among them,
and is derived from them. -/
theorem program_sound {tokens rest : List Token} {p : Program} (unended : Unended tokens)
    (gives : (program tokens).Gives p rest) : DerivesProgram p tokens ∧ rest = [] := by
  have derived := program_derived gives
  obtain ⟨used, same, _⟩ := derived.takes fun _ _ _ => DerivesItem.takes
  rw [same, unended_append] at unended
  have none : rest = [] := (nextKind_eq_eof unended.2).mp (gives_program.mp gives).2
  subst none
  exact ⟨derived, rfl⟩

/-- **A program that a session answers with is derived by the grammar.**  The tokens in
front of the first end marker are derived as a program, and the tree has its shape. -/
theorem ask_program_derived {tokens : List Token} {nextId : NodeId} {root : Node} {s : Session}
    (answers : (Session.ofTokens tokens nextId).ask .program = (.ok root, s)) :
    ∃ p, DerivesProgram p (tokens.takeWhile (·.kind ≠ .eof)) ∧ root.unnumbered = p.shape := by
  obtain ⟨p, rest, gives, rfl, _⟩ := Session.ask_program_eq_ok.mp answers
  exact ⟨p, (program_sound (unended_takeWhile tokens) gives).1, p.unnumbered_number nextId⟩

/-- A function with `begin` in front, whose body is no block, and an enumeration that needs no
semicolon. -/
theorem ask_program_derived_begun_function :
    let tokens := [TokenKind.kwBegin, .kwFunction, .identifier, .leftParen, .rightParen, .colon,
      .kwInt, .kwReturn, .intLiteral, .kwEnd, .kwFunction, .kwEnum, .identifier, .leftBrace,
      .rightBrace, .eof].map TokenKind.token
    ∃ root s, (Session.ofTokens tokens 1).ask .program = (.ok root, s) ∧
      ∃ p, DerivesProgram p (tokens.takeWhile (·.kind ≠ .eof)) ∧ root.unnumbered = p.shape := by
  intro tokens
  have ok : ((Session.ofTokens tokens 1).ask .program).1.isOk := by decide +kernel
  obtain ⟨root, s, answers⟩ := Session.exists_of_isOk ok
  exact ⟨root, s, answers, ask_program_derived answers⟩

end BlockSyntax
