import BlockSyntax.Proofs.Reply
import BlockSyntax.Proofs.Spelling
import BlockSyntax.Tree.Program

/-!
# The grammar of programs as derivations

The productions of the grammar, each as a rule that derives a syntax tree from the front
of a list of tokens and leaves the tokens behind it.  The premises of a rule follow each
other through the tokens: the list that one leaves is the list that the next one starts
from.

The grammar is ambiguous where marks may be left out: an `end` may belong to several
constructs around it, an `or` with its `if` to several conditionals.  The rules allow
every reading.  What may be left out depends on the token behind it in two places only: a
`return` needs no semicolon in front of `end` and at the end of the source, and an
enumeration none in front of a declaration and at the end of the source.
-/

set_option autoImplicit false

namespace BlockSyntax

/-! ## Marks -/

/-- Tokens of the given kinds are in front. -/
def Marks : List TokenKind → List Token → List Token → Prop
  | [], us, rest => us = rest
  | k :: ks, us, rest => ∃ t vs, us = t :: vs ∧ t.kind = k ∧ Marks ks vs rest

/-- Tokens of the given kinds are in front, or left out. -/
def Optional (ks : List TokenKind) (us rest : List Token) : Prop :=
  Marks ks us rest ∨ us = rest

theorem marks_one {k : TokenKind} {t : Token} {rest : List Token} (kind : t.kind = k) :
    Marks [k] (t :: rest) rest :=
  ⟨t, rest, rfl, kind, rfl⟩

theorem marks_one_iff {k : TokenKind} {us rest : List Token} :
    Marks [k] us rest ↔ ∃ t, us = t :: rest ∧ t.kind = k := by
  constructor
  · rintro ⟨t, _, rfl, kind, rfl⟩
    exact ⟨t, rfl, kind⟩
  · rintro ⟨t, rfl, kind⟩
    exact marks_one kind

theorem marks_two {k l : TokenKind} {t u : Token} {rest : List Token} (first : t.kind = k)
    (second : u.kind = l) : Marks [k, l] (t :: u :: rest) rest :=
  ⟨t, _, rfl, first, marks_one second⟩

/-! ## Statements -/

/-- An expression is spelled by the tokens in front. -/
def DerivesExpr (e : Expr) (us rest : List Token) : Prop :=
  ∃ used, us = used ++ rest ∧ Spells loosestLevel e used

/-- An expression, or nothing. -/
inductive DerivesValue : Option Expr → List Token → List Token → Prop where
  | none {us : List Token} : DerivesValue none us us
  | some {e : Expr} {us rest : List Token} (value : DerivesExpr e us rest) :
      DerivesValue (some e) us rest

mutual

/-- The productions of statements. -/
inductive DerivesStmt : Stmt → List Token → List Token → Prop where
  | declaration {type : Token} {dimensions names us vs ws xs rest : List Token}
      (typed : Next (·.isType) type us vs)
      (sizes : Repeats (Bracketed (Next (· = .intLiteral))) dimensions vs ws)
      (declared : Separated (Next (· = .identifier)) names ws xs)
      (ends : Marks [.semicolon] xs rest) :
      DerivesStmt (.declaration type dimensions names) us rest
  | assignment {value target : Expr} {us vs ws xs rest : List Token}
      (source : DerivesExpr value us vs) (arrow : Marks [.assignArrow] vs ws)
      (goal : DerivesExpr target ws xs) (ends : Marks [.semicolon] xs rest) :
      DerivesStmt (.assignment value target) us rest
  | print {value : Expr} {us vs ws rest : List Token}
      (opens : Marks [.kwPrint, .leftParen] us vs) (inside : DerivesExpr value vs ws)
      (ends : Marks [.rightParen, .semicolon] ws rest) : DerivesStmt (.print value) us rest
  | read {target : Expr} {us vs ws rest : List Token}
      (opens : Marks [.kwRead, .leftParen] us vs) (inside : DerivesExpr target vs ws)
      (ends : Marks [.rightParen, .semicolon] ws rest) : DerivesStmt (.read target) us rest
  | conditional {condition : Expr} {body : Stmt} {orIfs : List (Expr × Stmt)}
      {last : Option Stmt} {us us' vs ws xs ys zs zs' rest : List Token}
      (begins : Optional [.kwBegin] us us') (opens : Marks [.kwIf, .leftParen] us' vs)
      (inside : DerivesExpr condition vs ws) (closes : Marks [.rightParen] ws xs)
      (branch : DerivesStmt body xs ys) (branches : DerivesOrIfs orIfs ys zs)
      (otherwise : DerivesElse last zs zs') (ends : Optional [.kwEnd] zs' rest) :
      DerivesStmt (.conditional condition body orIfs last) us rest
  | loop {counter : Token} {lower upper : Expr} {body : Stmt}
      {us us' vs ws xs ys ys' zs zs' os rest : List Token}
      (begins : Optional [.kwBegin] us us') (opens : Marks [.kwFor, .leftParen] us' vs)
      (name : Next (· = .identifier) counter vs ws) (goes : Marks [.kwGoes, .kwFrom] ws xs)
      (start : DerivesExpr lower xs ys) (between : Marks [.kwTo] ys ys')
      (stop : DerivesExpr upper ys' zs) (closes : Marks [.rightParen] zs zs')
      (inside : DerivesStmt body zs' os) (ends : Optional [.kwEnd, .kwFor] os rest) :
      DerivesStmt (.loop counter lower upper body) us rest
  | result {value : Option Expr} {us vs ws rest : List Token}
      (word : Marks [.kwReturn] us vs) (inside : DerivesValue value vs ws)
      (ends : Marks [.semicolon] ws rest ∨
        ws = rest ∧ (nextKind rest = .kwEnd ∨ nextKind rest = .eof)) :
      DerivesStmt (.result value) us rest
  | block {body : List Stmt} {us vs ws rest : List Token} (opens : Marks [.kwBegin] us vs)
      (inside : DerivesStmts body vs ws) (closes : Marks [.kwEnd] ws rest) :
      DerivesStmt (.block body) us rest
  | evaluation {value : Expr} {us vs rest : List Token} (inside : DerivesExpr value us vs)
      (ends : Marks [.semicolon] vs rest) : DerivesStmt (.evaluation value) us rest

/-- Statements one after the other. -/
inductive DerivesStmts : List Stmt → List Token → List Token → Prop where
  | nil {us : List Token} : DerivesStmts [] us us
  | cons {s : Stmt} {ss : List Stmt} {us vs rest : List Token} (head : DerivesStmt s us vs)
      (tail : DerivesStmts ss vs rest) : DerivesStmts (s :: ss) us rest

/-- Further conditions with their bodies, one after the other. -/
inductive DerivesOrIfs : List (Expr × Stmt) → List Token → List Token → Prop where
  | nil {us : List Token} : DerivesOrIfs [] us us
  | cons {condition : Expr} {body : Stmt} {orIfs : List (Expr × Stmt)}
      {us vs ws xs ys rest : List Token} (opens : Marks [.kwOr, .kwIf, .leftParen] us vs)
      (inside : DerivesExpr condition vs ws) (closes : Marks [.rightParen] ws xs)
      (branch : DerivesStmt body xs ys) (tail : DerivesOrIfs orIfs ys rest) :
      DerivesOrIfs ((condition, body) :: orIfs) us rest

/-- A body for when no condition holds, or nothing. -/
inductive DerivesElse : Option Stmt → List Token → List Token → Prop where
  | none {us : List Token} : DerivesElse none us us
  | some {body : Stmt} {us vs rest : List Token} (word : Marks [.kwElse] us vs)
      (branch : DerivesStmt body vs rest) : DerivesElse (some body) us rest

end

/-! ## Declarations and programs -/

/-- A parameter. -/
inductive DerivesParam : Param → List Token → List Token → Prop where
  | mk {name type : Token} {us vs ws rest : List Token}
      (named : Next (· = .identifier) name us vs) (colon : Marks [.colon] vs ws)
      (typed : Next (·.isType) type ws rest) : DerivesParam ⟨name, type⟩ us rest

/-- Items with commas between them, or nothing. -/
def SeparatedOrNone {α : Type} (R : α → List Token → List Token → Prop) (as : List α)
    (us rest : List Token) : Prop :=
  (as = [] ∧ us = rest) ∨ Separated R as us rest

/-- The name, parameters and type of a function. -/
inductive DerivesSignature : Function → List Token → List Token → Prop where
  | mk {name type : Token} {params : List Param} {body : Stmt} {us vs ws xs ys rest : List Token}
      (named : Next (· = .identifier) name us vs) (opens : Marks [.leftParen] vs ws)
      (inside : SeparatedOrNone DerivesParam params ws xs)
      (closes : Marks [.rightParen, .colon] xs ys) (typed : Next (·.isType) type ys rest) :
      DerivesSignature ⟨name, params, type, body⟩ us rest

/-- The kinds of tokens in front of which an enumeration needs no semicolon. -/
def followsEnumeration : List TokenKind := [.eof, .kwFunction, .kwEnum, .kwInt, .kwReal, .kwBool]

/-- The productions of the items of a program. -/
inductive DerivesItem : Item → List Token → List Token → Prop where
  | function {f : Function} {us vs ws xs rest : List Token} (opens : Marks [.kwFunction] us vs)
      (signature : DerivesSignature f vs ws) (inside : DerivesStmt f.body ws xs)
      (ends : Optional [.kwEnd, .kwFunction] xs rest) : DerivesItem (.function f) us rest
  | begunBlock {f : Function} {us vs ws xs rest : List Token}
      (opens : Marks [.kwBegin, .kwFunction] us vs) (signature : DerivesSignature f vs ws)
      (inside : DerivesStmt f.body ws xs) (block : f.body.isBlock)
      (ends : Marks [.kwFunction] xs rest) : DerivesItem (.function f) us rest
  | begun {f : Function} {us vs ws xs rest : List Token}
      (opens : Marks [.kwBegin, .kwFunction] us vs) (signature : DerivesSignature f vs ws)
      (inside : DerivesStmt f.body ws xs) (notBlock : ¬ f.body.isBlock)
      (ends : Marks [.kwEnd, .kwFunction] xs rest) : DerivesItem (.function f) us rest
  | enumeration {name : Token} {values us vs ws xs ys zs rest : List Token}
      (word : Marks [.kwEnum] us vs) (named : Next (· = .identifier) name vs ws)
      (opens : Marks [.leftBrace] ws xs)
      (inside : SeparatedOrNone (Next (· = .identifier)) values xs ys)
      (closes : Marks [.rightBrace] ys zs)
      (ends : Marks [.semicolon] zs rest ∨ zs = rest ∧ nextKind rest ∈ followsEnumeration) :
      DerivesItem (.enumeration ⟨name, values⟩) us rest
  | statement {s : Stmt} {us rest : List Token} (inside : DerivesStmt s us rest) :
      DerivesItem (.statement s) us rest

/-- A program takes all the tokens. -/
def DerivesProgram (p : Program) (tokens : List Token) : Prop :=
  Repeats DerivesItem p.items tokens []

/-! ## What is taken

Every rule takes tokens from the front, and no end marker among them.
-/

/-- Tokens without an end marker stand in front of the rest. -/
def Takes (us rest : List Token) : Prop :=
  ∃ used, us = used ++ rest ∧ Unended used

theorem Takes.none {us : List Token} : Takes us us :=
  ⟨[], rfl, unended_nil⟩

theorem Takes.trans {us vs ws : List Token} (front : Takes us vs) (back : Takes vs ws) :
    Takes us ws := by
  obtain ⟨used, rfl, unended⟩ := front
  obtain ⟨used', rfl, unended'⟩ := back
  exact ⟨used ++ used', (List.append_assoc ..).symm, unended_append.mpr ⟨unended, unended'⟩⟩

theorem Takes.one {t : Token} {rest : List Token} (unended : t.kind ≠ .eof) :
    Takes (t :: rest) rest :=
  ⟨[t], rfl, by simpa using unended⟩

/-- Tokens of kinds among which the end marker is not. -/
theorem Marks.takes {ks : List TokenKind} {us rest : List Token} (marks : Marks ks us rest)
    (unended : .eof ∉ ks := by decide) : Takes us rest := by
  induction ks generalizing us with
  | nil => exact marks ▸ .none
  | cons k ks ih =>
      obtain ⟨t, vs, rfl, rfl, others⟩ := marks
      have ⟨first, behind⟩ := List.ne_and_not_mem_of_not_mem_cons unended
      exact (Takes.one first.symm).trans (ih others behind)

theorem Optional.takes {ks : List TokenKind} {us rest : List Token}
    (marks : Optional ks us rest) (unended : .eof ∉ ks := by decide) : Takes us rest := by
  rcases marks with present | rfl
  · exact present.takes unended
  · exact .none

theorem Next.takes {test : TokenKind → Prop} {t : Token} {us rest : List Token}
    (next : Next test t us rest) (unended : ¬ test .eof := by decide) : Takes us rest := by
  obtain ⟨rfl, passes⟩ := next
  refine .one fun ended => ?_
  rw [ended] at passes
  exact unended passes

section Lists

variable {α : Type} {R : α → List Token → List Token → Prop} {as : List α} {us rest : List Token}

theorem Repeats.takes (each : ∀ a us vs, R a us vs → Takes us vs)
    (repeats : Repeats R as us rest) : Takes us rest := by
  induction repeats with
  | nil => exact .none
  | cons head _ ih => exact (each _ _ _ head).trans ih

theorem Separated.takes (each : ∀ a us vs, R a us vs → Takes us vs)
    (separated : Separated R as us rest) : Takes us rest := by
  induction separated with
  | last head => exact each _ _ _ head
  | more head between _ ih =>
      refine (each _ _ _ head).trans (Takes.trans (.one ?_) ih)
      rw [between]
      decide

theorem SeparatedOrNone.takes (each : ∀ a us vs, R a us vs → Takes us vs)
    (list : SeparatedOrNone R as us rest) : Takes us rest := by
  rcases list with ⟨_, rfl⟩ | separated
  · exact .none
  · exact separated.takes each

end Lists

/-- A dimension in its brackets. -/
theorem takes_dimension {t : Token} {us rest : List Token}
    (bracketed : Bracketed (Next (· = .intLiteral)) t us rest) : Takes us rest := by
  obtain ⟨opening, closing, vs, rfl, opens, inside, closes⟩ := bracketed
  have front : Takes (opening :: vs) vs := .one (by simp [opens])
  exact front.trans (inside.takes.trans (.one (by simp [closes])))

theorem DerivesExpr.takes {e : Expr} {us rest : List Token} (derives : DerivesExpr e us rest) :
    Takes us rest := by
  obtain ⟨used, rfl, spells⟩ := derives
  exact ⟨used, rfl, spells.unended⟩

theorem DerivesValue.takes {value : Option Expr} {us rest : List Token}
    (derives : DerivesValue value us rest) : Takes us rest := by
  cases derives with
  | none => exact .none
  | some value => exact value.takes

mutual

theorem DerivesStmt.takes {s : Stmt} {us rest : List Token} :
    DerivesStmt s us rest → Takes us rest
  | .declaration typed sizes declared ends =>
      typed.takes.trans <| (sizes.takes fun _ _ _ => takes_dimension).trans <|
        (declared.takes fun _ _ _ next => next.takes).trans ends.takes
  | .assignment source arrow goal ends =>
      source.takes.trans <| arrow.takes.trans <| goal.takes.trans ends.takes
  | .print opens inside ends | .read opens inside ends =>
      opens.takes.trans <| inside.takes.trans ends.takes
  | .conditional begins opens inside closes branch branches otherwise ends =>
      begins.takes.trans <| opens.takes.trans <| inside.takes.trans <| closes.takes.trans <|
        branch.takes.trans <| branches.takes.trans <| otherwise.takes.trans ends.takes
  | .loop begins opens name goes start between stop closes inside ends =>
      begins.takes.trans <| opens.takes.trans <| name.takes.trans <| goes.takes.trans <|
        start.takes.trans <| between.takes.trans <| stop.takes.trans <| closes.takes.trans <|
        inside.takes.trans ends.takes
  | .result word inside (.inl ends) => word.takes.trans <| inside.takes.trans ends.takes
  | .result word inside (.inr ends) => word.takes.trans (ends.1 ▸ inside.takes)
  | .block opens inside closes => opens.takes.trans <| inside.takes.trans closes.takes
  | .evaluation inside ends => inside.takes.trans ends.takes

theorem DerivesStmts.takes {ss : List Stmt} {us rest : List Token} :
    DerivesStmts ss us rest → Takes us rest
  | .nil => .none
  | .cons head tail => head.takes.trans tail.takes

theorem DerivesOrIfs.takes {orIfs : List (Expr × Stmt)} {us rest : List Token} :
    DerivesOrIfs orIfs us rest → Takes us rest
  | .nil => .none
  | .cons opens inside closes branch tail =>
      opens.takes.trans <| inside.takes.trans <| closes.takes.trans <|
        branch.takes.trans tail.takes

theorem DerivesElse.takes {last : Option Stmt} {us rest : List Token} :
    DerivesElse last us rest → Takes us rest
  | .none => .none
  | .some word branch => word.takes.trans branch.takes

end

theorem DerivesParam.takes {p : Param} {us rest : List Token}
    (derives : DerivesParam p us rest) : Takes us rest := by
  cases derives with
  | mk named colon typed => exact named.takes.trans <| colon.takes.trans typed.takes

theorem DerivesSignature.takes {f : Function} {us rest : List Token}
    (derives : DerivesSignature f us rest) : Takes us rest := by
  cases derives with
  | mk named opens inside closes typed =>
      have list := inside.takes fun _ _ _ => DerivesParam.takes
      exact named.takes.trans <| opens.takes.trans <| list.trans <| closes.takes.trans typed.takes

theorem DerivesItem.takes {i : Item} {us rest : List Token} (derives : DerivesItem i us rest) :
    Takes us rest := by
  cases derives with
  | function opens signature inside ends =>
      exact opens.takes.trans <| signature.takes.trans <| inside.takes.trans ends.takes
  | begunBlock opens signature inside _ ends | begun opens signature inside _ ends =>
      exact opens.takes.trans <| signature.takes.trans <| inside.takes.trans ends.takes
  | enumeration word named opens inside closes ends =>
      have list := inside.takes fun _ _ _ next => next.takes
      have closed := word.takes.trans <| named.takes.trans <| opens.takes.trans <|
        list.trans closes.takes
      rcases ends with present | ⟨rfl, _⟩
      · exact closed.trans present.takes
      · exact closed
  | statement inside => exact inside.takes

/-- The tokens of a program are all in front of the end of the source. -/
theorem DerivesProgram.unended {p : Program} {tokens : List Token}
    (derives : DerivesProgram p tokens) : Unended tokens := by
  obtain ⟨used, rfl, unended⟩ := derives.takes fun _ _ _ => DerivesItem.takes
  rwa [List.append_nil]

end BlockSyntax
