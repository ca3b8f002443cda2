import BlockSyntax.Proofs.DerivationSoundness

/-!
# Statements that end by themselves

The grammar lets a conditional, a loop and some `return`s end without a mark.  A statement is
delimited when it makes no use of that, nor does a statement inside it: a line ends with its
semicolon, a conditional and a block with `end`, a loop with `end for`.  The word `begin` in front
of a conditional or a loop may still be left out, and expressions may be spelled in any way.

A delimited statement is read whatever stands behind it (`Delimited.reads`): no construct around
it has anything to lose to it.
-/

set_option autoImplicit false

namespace BlockSyntax

open Grammar Reply

mutual

/-- The productions of statements, with all marks that end a statement. -/
inductive Delimited : Stmt → List Token → List Token → Prop where
  | declaration {type : Token} {dimensions names us vs ws xs rest : List Token}
      (typed : Next (·.isType) type us vs)
      (sizes : Repeats (Bracketed (Next (· = .intLiteral))) dimensions vs ws)
      (declared : Separated (Next (· = .identifier)) names ws xs)
      (ends : Marks [.semicolon] xs rest) : Delimited (.declaration type dimensions names) us rest
  | assignment {value target : Expr} {us vs ws xs rest : List Token}
      (source : DerivesExpr value us vs) (arrow : Marks [.assignArrow] vs ws)
      (goal : DerivesExpr target ws xs) (ends : Marks [.semicolon] xs rest) :
      Delimited (.assignment value target) us rest
  | print {value : Expr} {us vs ws rest : List Token} (opens : Marks [.kwPrint, .leftParen] us vs)
      (inside : DerivesExpr value vs ws) (ends : Marks [.rightParen, .semicolon] ws rest) :
      Delimited (.print value) us rest
  | read {target : Expr} {us vs ws rest : List Token} (opens : Marks [.kwRead, .leftParen] us vs)
      (inside : DerivesExpr target vs ws) (ends : Marks [.rightParen, .semicolon] ws rest) :
      Delimited (.read target) us rest
  | conditional {condition : Expr} {body : Stmt} {orIfs : List (Expr × Stmt)}
      {last : Option Stmt} {us us' vs ws xs ys zs zs' rest : List Token}
      (begins : Optional [.kwBegin] us us') (opens : Marks [.kwIf, .leftParen] us' vs)
      (inside : DerivesExpr condition vs ws) (closes : Marks [.rightParen] ws xs)
      (branch : Delimited body xs ys) (branches : DelimitedOrIfs orIfs ys zs)
      (otherwise : DelimitedElse last zs zs') (ends : Marks [.kwEnd] zs' rest) :
      Delimited (.conditional condition body orIfs last) us rest
  | loop {counter : Token} {lower upper : Expr} {body : Stmt}
      {us us' vs ws xs ys ys' zs zs' os rest : List Token}
      (begins : Optional [.kwBegin] us us') (opens : Marks [.kwFor, .leftParen] us' vs)
      (name : Next (· = .identifier) counter vs ws) (goes : Marks [.kwGoes, .kwFrom] ws xs)
      (start : DerivesExpr lower xs ys) (between : Marks [.kwTo] ys ys')
      (stop : DerivesExpr upper ys' zs) (closes : Marks [.rightParen] zs zs')
      (inside : Delimited body zs' os) (ends : Marks [.kwEnd, .kwFor] os rest) :
      Delimited (.loop counter lower upper body) us rest
  | result {value : Option Expr} {us vs ws rest : List Token} (word : Marks [.kwReturn] us vs)
      (inside : DerivesValue value vs ws) (ends : Marks [.semicolon] ws rest) :
      Delimited (.result value) us rest
  -- in front of `if` and `for` the word `begin` opens no block
  | block {body : List Stmt} {us vs ws rest : List Token} (opens : Marks [.kwBegin] us vs)
      (notIf : nextKind vs ≠ .kwIf) (notFor : nextKind vs ≠ .kwFor)
      (inside : DelimitedAll body vs ws) (closes : Marks [.kwEnd] ws rest) :
      Delimited (.block body) us rest
  | evaluation {value : Expr} {us vs rest : List Token} (inside : DerivesExpr value us vs)
      (ends : Marks [.semicolon] vs rest) : Delimited (.evaluation value) us rest

/-- Delimited statements one after the other. -/
inductive DelimitedAll : List Stmt → List Token → List Token → Prop where
  | nil {us : List Token} : DelimitedAll [] us us
  | cons {s : Stmt} {ss : List Stmt} {us vs rest : List Token} (head : Delimited s us vs)
      (tail : DelimitedAll ss vs rest) : DelimitedAll (s :: ss) us rest

/-- Further conditions with delimited bodies. -/
inductive DelimitedOrIfs : List (Expr × Stmt) → List Token → List Token → Prop where
  | nil {us : List Token} : DelimitedOrIfs [] us us
  | cons {condition : Expr} {body : Stmt} {orIfs : List (Expr × Stmt)}
      {us vs ws xs ys rest : List Token} (opens : Marks [.kwOr, .kwIf, .leftParen] us vs)
      (inside : DerivesExpr condition vs ws) (closes : Marks [.rightParen] ws xs)
      (branch : Delimited body xs ys) (tail : DelimitedOrIfs orIfs ys rest) :
      DelimitedOrIfs ((condition, body) :: orIfs) us rest

/-- A delimited body for when no condition holds, or nothing. -/
inductive DelimitedElse : Option Stmt → List Token → List Token → Prop where
  | none {us : List Token} : DelimitedElse none us us
  | some {body : Stmt} {us vs rest : List Token} (word : Marks [.kwElse] us vs)
      (branch : Delimited body vs rest) : DelimitedElse (some body) us rest

end

/-! ## Parts -/

theorem endsExpression_of_kind {t : Token} {rest : List Token} {k : TokenKind} (kind : t.kind = k)
    (ends : k.endsExpression := by rfl) : (nextKind (t :: rest)).endsExpression := by
  rwa [nextKind_cons, kind]

/-- An expression is read in front of a mark that ends it. -/
theorem DerivesExpr.reads {e : Expr} {us rest : List Token} {t : Token} {k : TokenKind}
    (derives : DerivesExpr e us (t :: rest)) (kind : t.kind = k)
    (ends : k.endsExpression := by rfl) : ReadsExpr e us (t :: rest) := by
  obtain ⟨used, rfl, spells⟩ := derives
  exact expression_complete spells (.of_endsExpression (endsExpression_of_kind kind ends))

theorem DerivesExpr.starts {e : Expr} {us rest : List Token} (derives : DerivesExpr e us rest) :
    (nextKind us).startsExpression := by
  obtain ⟨used, rfl, spells⟩ := derives
  obtain ⟨t, vs, rfl, starts⟩ := spells.starts
  exact starts

/-- An expression is read between parentheses. -/
theorem DerivesExpr.parenthesized {e : Expr} {opening : Token} {us vs rest : List Token}
    (opens : opening.kind = .leftParen) (inside : DerivesExpr e us vs)
    (closes : Marks [.rightParen] vs rest) : Parenthesized ReadsExpr e (opening :: us) rest := by
  obtain ⟨closing, rfl, kind⟩ := marks_one_iff.mp closes
  exact ⟨opening, closing, us, rfl, opens, inside.reads kind, kind⟩

theorem TokenKind.not_startsStatement {k : TokenKind} (starts : k.startsExpression) :
    ¬ startsStatement k := by
  revert starts
  cases k <;> decide

theorem TokenKind.not_endsResult {k : TokenKind} (starts : k.startsExpression) :
    ¬ endsResult k := by
  revert starts
  cases k <;> decide

/-- Every statement starts with a word that says what it is or with an expression. -/
theorem ReadsStmt.starts {s : Stmt} {us rest : List Token} (reads : ReadsStmt s us rest) :
    startsStatement (nextKind us) ∨ (nextKind us).startsExpression := by
  by_cases word : startsStatement (nextKind us)
  · exact .inl word
  · refine .inr ?_
    have source : ∃ value mid, ReadsExpr value us mid := by
      rcases gives_assignmentOrEvaluation.mp ((reads_expression word).mp reads) with
        ⟨value, _, arrow, _, vs, _, inside, _⟩ | ⟨value, semicolon, _, inside, _⟩
      · exact ⟨value, arrow :: vs, inside⟩
      · exact ⟨value, semicolon :: rest, inside⟩
    obtain ⟨value, mid, inside⟩ := source
    exact inside.derives.starts

/-- A statement that is read is read in a block. -/
theorem ReadsStmt.inBlock {s : Stmt} {us rest : List Token} (reads : ReadsStmt s us rest) :
    InBlock ReadsStmt s us rest := by
  have starts := reads.starts
  refine ⟨?_, ?_, reads⟩
  · intro kind
    rw [kind] at starts
    revert starts
    decide
  · intro kind
    rw [kind] at starts
    revert starts
    decide

/-- No further condition stands in front of a body for when none holds. -/
theorem DelimitedElse.next_ne {last : Option Stmt} {us rest : List Token}
    (otherwise : DelimitedElse last us rest) (stops : nextKind rest ≠ .kwOr) :
    nextKind us ≠ .kwOr := by
  cases otherwise with
  | none => exact stops
  | some word _ =>
      obtain ⟨t, rfl, kind⟩ := marks_one_iff.mp word
      simp [kind]

/-! ## Lines -/

theorem reads_declaration_delimited {type : Token} {dimensions names us vs ws xs rest : List Token}
    (typed : Next (·.isType) type us vs)
    (sizes : Repeats (Bracketed (Next (· = .intLiteral))) dimensions vs ws)
    (declared : Separated (Next (· = .identifier)) names ws xs)
    (ends : Marks [.semicolon] xs rest) :
    ReadsStmt (.declaration type dimensions names) us rest := by
  obtain ⟨rfl, type⟩ := typed
  obtain ⟨semicolon, rfl, kind⟩ := marks_one_iff.mp ends
  have start : nextKind ws ≠ .leftBracket := by
    obtain ⟨t, _, rfl, name⟩ := declared.head
    simp [name]
  exact (reads_type type).mpr
    (gives_declaration.mpr ⟨_, _, ws, semicolon, rfl, sizes, start, declared, kind⟩)

theorem reads_assignment_delimited {value target : Expr} {us vs ws xs rest : List Token}
    (source : DerivesExpr value us vs) (arrow : Marks [.assignArrow] vs ws)
    (goal : DerivesExpr target ws xs) (ends : Marks [.semicolon] xs rest) :
    ReadsStmt (.assignment value target) us rest := by
  obtain ⟨sign, rfl, signKind⟩ := marks_one_iff.mp arrow
  obtain ⟨semicolon, rfl, kind⟩ := marks_one_iff.mp ends
  refine (reads_expression (TokenKind.not_startsStatement source.starts)).mpr ?_
  exact gives_assignmentOrEvaluation.mpr (.inl ⟨value, target, sign, semicolon, ws, rfl,
    source.reads signKind, signKind, goal.reads kind, kind⟩)

theorem reads_evaluation_delimited {value : Expr} {us vs rest : List Token}
    (inside : DerivesExpr value us vs) (ends : Marks [.semicolon] vs rest) :
    ReadsStmt (.evaluation value) us rest := by
  obtain ⟨semicolon, rfl, kind⟩ := marks_one_iff.mp ends
  refine (reads_expression (TokenKind.not_startsStatement inside.starts)).mpr ?_
  exact gives_assignmentOrEvaluation.mpr
    (.inr ⟨value, semicolon, rfl, inside.reads kind, kind⟩)

theorem reads_print_delimited {value : Expr} {us vs ws rest : List Token}
    (opens : Marks [.kwPrint, .leftParen] us vs) (inside : DerivesExpr value vs ws)
    (ends : Marks [.rightParen, .semicolon] ws rest) : ReadsStmt (.print value) us rest := by
  obtain ⟨word, _, rfl, wordKind, opening, _, rfl, opens, rfl⟩ := opens
  obtain ⟨closing, _, rfl, closes, semicolon, _, rfl, kind, rfl⟩ := ends
  exact (reads_print wordKind).mpr (gives_print.mpr
    ⟨value, semicolon, rfl, inside.parenthesized opens (marks_one closes), kind⟩)

theorem reads_read_delimited {target : Expr} {us vs ws rest : List Token}
    (opens : Marks [.kwRead, .leftParen] us vs) (inside : DerivesExpr target vs ws)
    (ends : Marks [.rightParen, .semicolon] ws rest) : ReadsStmt (.read target) us rest := by
  obtain ⟨word, _, rfl, wordKind, opening, _, rfl, opens, rfl⟩ := opens
  obtain ⟨closing, _, rfl, closes, semicolon, _, rfl, kind, rfl⟩ := ends
  exact (reads_read wordKind).mpr (gives_read.mpr
    ⟨target, semicolon, rfl, inside.parenthesized opens (marks_one closes), kind⟩)

theorem reads_result_delimited {value : Option Expr} {us vs ws rest : List Token}
    (word : Marks [.kwReturn] us vs) (inside : DerivesValue value vs ws)
    (ends : Marks [.semicolon] ws rest) : ReadsStmt (.result value) us rest := by
  obtain ⟨word, rfl, wordKind⟩ := marks_one_iff.mp word
  obtain ⟨semicolon, rfl, kind⟩ := marks_one_iff.mp ends
  have reads : (resultValue vs).Gives value (semicolon :: rest) := by
    cases inside with
    | none =>
        have ends : endsResult (nextKind (semicolon :: rest)) := by
          rw [nextKind_cons, kind]
          rfl
        exact gives_resultValue.mpr (.inl ⟨rfl, ends, rfl⟩)
    | some inside =>
        exact gives_resultValue.mpr
          (.inr ⟨_, rfl, TokenKind.not_endsResult inside.starts, inside.reads kind⟩)
  exact (reads_return wordKind).mpr
    (gives_result.mpr ⟨value, _, rfl, reads, .inr ⟨semicolon, rfl, kind⟩⟩)

/-! ## Constructs -/

/-- A conditional is read from its parts, with `begin` in front or without. -/
theorem reads_conditional {condition : Expr} {body : Stmt} {orIfs : List (Expr × Stmt)}
    {last : Option Stmt} {us us' vs ws xs ys zs zs' rest : List Token}
    (begins : Optional [.kwBegin] us us') (opens : Marks [.kwIf, .leftParen] us' vs)
    (inside : DerivesExpr condition vs ws) (closes : Marks [.rightParen] ws xs)
    (branch : ReadsStmt body xs ys) (branches : Repeats (OrIf ReadsStmt) orIfs ys zs)
    (stops : nextKind zs ≠ .kwOr) (otherwise : Otherwise ReadsStmt last zs zs')
    (ends : IfNext .kwEnd zs' rest) :
    ReadsStmt (.conditional condition body orIfs last) us rest := by
  obtain ⟨word, _, rfl, wordKind, opening, _, rfl, opens, rfl⟩ := opens
  have reads : ReadsConditional ReadsStmt (.conditional condition body orIfs last)
      (opening :: _) rest :=
    .mk (inside.parenthesized opens closes) branch branches stops otherwise ends
  rcases begins with begins | rfl
  · obtain ⟨first, rfl, kind⟩ := marks_one_iff.mp begins
    exact (reads_begin_if kind wordKind).mpr reads
  · exact (reads_if wordKind).mpr reads

/-- A loop is read from its parts, with `begin` in front or without. -/
theorem reads_loop {counter : Token} {lower upper : Expr} {body : Stmt}
    {us us' vs ws xs ys ys' zs zs' os rest : List Token}
    (begins : Optional [.kwBegin] us us') (opens : Marks [.kwFor, .leftParen] us' vs)
    (name : Next (· = .identifier) counter vs ws) (goes : Marks [.kwGoes, .kwFrom] ws xs)
    (start : DerivesExpr lower xs ys) (between : Marks [.kwTo] ys ys')
    (stop : DerivesExpr upper ys' zs) (closes : Marks [.rightParen] zs zs')
    (inside : ReadsStmt body zs' os) (ends : (closing .kwFor os).Gives () rest) :
    ReadsStmt (.loop counter lower upper body) us rest := by
  obtain ⟨word, _, rfl, wordKind, opening, _, rfl, opens, rfl⟩ := opens
  obtain ⟨rfl, named⟩ := name
  obtain ⟨going, _, rfl, goesKind, starting, _, rfl, startKind, rfl⟩ := goes
  obtain ⟨bound, rfl, boundKind⟩ := marks_one_iff.mp between
  obtain ⟨close, rfl, closeKind⟩ := marks_one_iff.mp closes
  have reads : ReadsLoop ReadsStmt (.loop counter lower upper body)
      (opening :: counter :: going :: starting :: _) rest :=
    .mk opens named goesKind startKind (start.reads boundKind) boundKind (stop.reads closeKind)
      closeKind inside ends
  rcases begins with begins | rfl
  · obtain ⟨first, rfl, kind⟩ := marks_one_iff.mp begins
    exact (reads_begin_for kind wordKind).mpr reads
  · exact (reads_for wordKind).mpr reads

/-- A further condition is read from its parts. -/
theorem reads_orIf {condition : Expr} {body : Stmt} {us vs ws xs rest : List Token}
    (opens : Marks [.kwOr, .kwIf, .leftParen] us vs) (inside : DerivesExpr condition vs ws)
    (closes : Marks [.rightParen] ws xs) (branch : ReadsStmt body xs rest) :
    OrIf ReadsStmt (condition, body) us rest := by
  obtain ⟨word, _, rfl, wordKind, next, _, rfl, nextKind, opening, _, rfl, opens, rfl⟩ := opens
  exact ⟨word, next, _, xs, rfl, wordKind, nextKind, inside.parenthesized opens closes, branch⟩

mutual

/-- **A delimited statement is read**, whatever stands behind it. -/
theorem Delimited.reads {s : Stmt} {us rest : List Token} :
    Delimited s us rest → ReadsStmt s us rest
  | .declaration typed sizes declared ends => reads_declaration_delimited typed sizes declared ends
  | .assignment source arrow goal ends => reads_assignment_delimited source arrow goal ends
  | .print opens inside ends => reads_print_delimited opens inside ends
  | .read opens inside ends => reads_read_delimited opens inside ends
  | .result word inside ends => reads_result_delimited word inside ends
  | .evaluation inside ends => reads_evaluation_delimited inside ends
  | .conditional begins opens inside closes branch branches otherwise ends => by
      obtain ⟨ended, rfl, kind⟩ := marks_one_iff.mp ends
      have ended_ne {k : TokenKind} (other : TokenKind.kwEnd ≠ k) :
          nextKind (ended :: rest) ≠ k := by
        rwa [nextKind_cons, kind]
      have stops := otherwise.next_ne (ended_ne (by decide))
      exact reads_conditional begins opens inside closes branch.reads branches.reads stops
        (otherwise.reads (ended_ne (by decide))) (.inl ⟨ended, rfl, kind⟩)
  | .loop begins opens name goes start between stop closes inside ends => by
      obtain ⟨ended, _, rfl, endKind, word, _, rfl, wordKind, rfl⟩ := ends
      exact reads_loop begins opens name goes start between stop closes inside.reads
        (gives_closing.mpr (.inl ⟨ended, word, rfl, endKind, wordKind⟩))
  | .block opens notIf notFor inside closes => by
      obtain ⟨opening, rfl, kind⟩ := marks_one_iff.mp opens
      obtain ⟨ended, rfl, endKind⟩ := marks_one_iff.mp closes
      exact (reads_begin_block kind notIf notFor).mpr (.mk inside.reads endKind)

theorem DelimitedAll.reads {ss : List Stmt} {us rest : List Token} :
    DelimitedAll ss us rest → Repeats (InBlock ReadsStmt) ss us rest
  | .nil => .nil
  | .cons head tail => .cons head.reads.inBlock tail.reads

theorem DelimitedOrIfs.reads {orIfs : List (Expr × Stmt)} {us rest : List Token} :
    DelimitedOrIfs orIfs us rest → Repeats (OrIf ReadsStmt) orIfs us rest
  | .nil => .nil
  | .cons opens inside closes branch tail =>
      .cons (reads_orIf opens inside closes branch.reads) tail.reads

theorem DelimitedElse.reads {last : Option Stmt} {us rest : List Token}
    (stops : nextKind rest ≠ .kwElse) :
    DelimitedElse last us rest → Otherwise ReadsStmt last us rest
  | .none => .inl ⟨rfl, stops, rfl⟩
  | .some word branch => by
      obtain ⟨t, rfl, kind⟩ := marks_one_iff.mp word
      exact .inr ⟨_, t, _, rfl, rfl, kind, branch.reads⟩

end

end BlockSyntax
