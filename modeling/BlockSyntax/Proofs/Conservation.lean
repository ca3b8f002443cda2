import BlockSyntax.Proofs.DerivationSoundness
import BlockSyntax.Proofs.Terminals

/-!
# No token is lost, and trees are small

Names, literals, types and operators become terminals of the tree, and so does an `or`
between operands; the `or` of a further condition does not, and neither do other words and
marks (`kept`).  What the grammar derives from a list of tokens has exactly those tokens
of the list in its terminals, in the order of the source.

A tree has at most two nodes for every token, besides the one of the program.  Both facts
are carried through the productions together, by a relation between trees and the tokens
they were derived from (`Carries`).  It keeps account of the nodes that may still be made
without going over the bound, so that a list or a construct is paid for by the marks
around its parts.
-/

set_option autoImplicit false

namespace BlockSyntax

/-! ## The tokens that become terminals -/

/-- The kinds of tokens that become terminals wherever they stand. -/
def TokenKind.isTerminal : TokenKind → Bool
  | .identifier | .intLiteral | .realLiteral | .boolLiteral
  | .kwInt | .kwReal | .kwBool
  | .plus | .minus | .star | .slash | .percent
  | .equal | .notEqual | .less | .lessEqual | .greater | .greaterEqual
  | .kwAnd | .kwNot => true
  | _ => false

/-- The tokens that become terminals: those of the kinds that always do, and every `or`
that is not the word of a further condition. -/
def kept : List Token → List Token
  | [] => []
  | t :: rest =>
    if t.kind.isTerminal ∨ t.kind = .kwOr ∧ nextKind rest ≠ .kwIf then t :: kept rest
    else kept rest

/-- The kinds of words and marks that never become terminals. -/
def TokenKind.isMark (k : TokenKind) : Bool := !k.isTerminal && k ≠ .kwOr

theorem kept_terminal {t : Token} {rest : List Token} (kind : t.kind.isTerminal) :
    kept (t :: rest) = t :: kept rest := by
  rw [kept, if_pos (.inl kind)]

theorem kept_mark {t : Token} {rest : List Token} (kind : t.kind.isMark) :
    kept (t :: rest) = kept rest := by
  have ⟨notTerminal, notOr⟩ : t.kind.isTerminal = false ∧ t.kind ≠ .kwOr := by
    simpa [TokenKind.isMark] using kind
  rw [kept, if_neg]
  simp [notTerminal, notOr]

theorem kept_or {t : Token} {rest : List Token} (kind : t.kind = .kwOr)
    (behind : nextKind rest ≠ .kwIf) : kept (t :: rest) = t :: kept rest := by
  rw [kept, if_pos (.inr ⟨kind, behind⟩)]

theorem kept_orIf {t u : Token} {rest : List Token} (kind : t.kind = .kwOr)
    (behind : u.kind = .kwIf) : kept (t :: u :: rest) = kept rest := by
  have condition : u.kind.isMark := by
    rw [behind]
    rfl
  rw [kept, if_neg, kept_mark condition]
  simp [kind, behind, TokenKind.isTerminal]

/-! ## Trees and the tokens they were derived from -/

/-- The kept tokens in front of the rest are those of the trees, and the trees have at
most two nodes for every token, with some to spare. -/
structure Carries (ns : List Node) (spare : Nat) (us rest : List Token) : Prop where
  /-- No token is lost, duplicated or moved. -/
  kept : kept us = Node.tokensAll ns ++ kept rest
  /-- The trees are small. -/
  size : Node.countAll ns + spare + 2 * rest.length ≤ 2 * us.length

variable {ns ms : List Node} {a b : Nat} {us mid rest : List Token}

theorem Carries.none : Carries [] 0 us us where
  kept := rfl
  size := by simp [Node.countAll]

theorem Carries.trans (front : Carries ns a us mid) (back : Carries ms b mid rest) :
    Carries (ns ++ ms) (a + b) us rest where
  kept := by
    rw [front.kept, back.kept, Node.tokensAll_append, List.append_assoc]
  size := by
    have := front.size
    have := back.size
    rw [Node.countAll_append]
    omega

/-- Marks in front of trees. -/
theorem Carries.before (marks : Carries [] a us mid) (trees : Carries ns b mid rest) :
    Carries ns (a + b) us rest :=
  marks.trans trees

/-- Marks behind trees. -/
theorem Carries.behind (trees : Carries ns a us mid) (marks : Carries [] b mid rest) :
    Carries ns (a + b) us rest := by
  simpa using trees.trans marks

theorem Carries.enough (trees : Carries ns a us rest) (le : b ≤ a) : Carries ns b us rest where
  kept := trees.kept
  size := by
    have := trees.size
    omega

theorem Carries.construct {f : Construct} (parts : Carries ns a us rest)
    (le : b + 1 ≤ a := by decide) : Carries [Shape.construct f ns] b us rest where
  kept := by
    rw [parts.kept, Shape.construct, Node.tokensAll_singleton, Node.tokens_construct]
  size := by
    have := parts.size
    simp only [Shape.construct, Node.countAll, Node.count]
    omega

theorem Carries.list (label : String) (items : Carries ns a us rest)
    (le : b + 1 ≤ a := by decide) : Carries [Shape.list label ns] b us rest where
  kept := by
    rw [items.kept, Shape.list, Node.tokensAll_singleton, Node.tokens_list]
  size := by
    have := items.size
    simp only [Shape.list, Node.countAll, Node.count]
    omega

theorem Carries.listUnlessEmpty (label : String) (items : Carries ns a us rest)
    (le : ns ≠ [] → b + 1 ≤ a) (le' : b ≤ a) :
    Carries (Shape.listUnlessEmpty label ns) b us rest := by
  cases ns with
  | nil => exact items.enough le'
  | cons n ns => exact items.list label (le (List.cons_ne_nil n ns))

/-! ## Tokens -/

theorem carries_kept {t : Token} (label : String) (same : kept (t :: rest) = t :: kept rest) :
    Carries [Shape.terminal label t] 1 (t :: rest) rest where
  kept := by
    rw [same, Shape.terminal, Node.tokensAll_singleton, Node.tokens_terminal,
      List.singleton_append]
  size := by
    simp only [Shape.terminal, Node.countAll, Node.count, List.length_cons]
    omega

theorem carries_mark {t : Token} (kind : t.kind.isMark) : Carries [] 2 (t :: rest) rest where
  kept := kept_mark kind
  size := by
    simp only [Node.countAll, List.length_cons]
    omega

theorem Marks.carries {ks : List TokenKind} (marks : Marks ks us rest)
    (areMarks : ks.all TokenKind.isMark := by rfl) : Carries [] (2 * ks.length) us rest := by
  induction ks generalizing us with
  | nil => exact marks ▸ .none
  | cons k ks ih =>
      obtain ⟨t, vs, rfl, rfl, others⟩ := marks
      rw [List.all_cons, Bool.and_eq_true] at areMarks
      refine ((carries_mark areMarks.1).before (ih others areMarks.2)).enough ?_
      rw [List.length_cons]
      omega

theorem Optional.carries {ks : List TokenKind} (marks : Optional ks us rest)
    (areMarks : ks.all TokenKind.isMark := by rfl) : Carries [] 0 us rest := by
  rcases marks with present | rfl
  · exact (present.carries areMarks).enough (Nat.zero_le _)
  · exact .none

theorem Next.carries {test : TokenKind → Prop} {t : Token} (next : Next test t us rest)
    (label : String) (terminal : ∀ k, test k → k.isTerminal) :
    Carries [Shape.terminal label t] 1 us rest := by
  obtain ⟨rfl, passes⟩ := next
  exact carries_kept label (kept_terminal (terminal _ passes))

theorem isTerminal_of_isType (k : TokenKind) (type : k.isType) : k.isTerminal := by
  revert type
  cases k <;> decide

theorem isTerminal_of_isLiteral {k : TokenKind} (literal : k.isLiteral) : k.isTerminal := by
  revert literal
  cases k <;> decide

theorem isTerminal_of_isUnary {k : TokenKind} (unary : k.isUnary) : k.isTerminal := by
  revert unary
  cases k <;> decide

theorem isTerminal_of_isBinary {k : TokenKind} (binary : k.isBinary) :
    k.isTerminal ∨ k = .kwOr := by
  revert binary
  cases k <;> decide

theorem isTerminal_identifier (k : TokenKind) (name : k = .identifier) : k.isTerminal := by
  rw [name]
  rfl

/-! ## Expressions -/

/-- An operator between operands becomes a terminal: behind an `or` stands an expression
and not an `if`. -/
theorem carries_operator {operator : Token} {right : Expr} {level below : Nat}
    (kind : operator.kind.level = below + 1) (rightward : Spells level right us) :
    Carries [Shape.terminal "Operator" operator] 1 (operator :: (us ++ rest)) (us ++ rest) := by
  have binary : operator.kind.isBinary := by simp [TokenKind.isBinary, kind]
  rcases isTerminal_of_isBinary binary with terminal | isOr
  · exact carries_kept "Operator" (kept_terminal terminal)
  · obtain ⟨t, vs, rfl, starts⟩ := rightward.starts
    refine carries_kept "Operator" (kept_or isOr ?_)
    rw [List.cons_append, nextKind_cons]
    intro same
    rw [same] at starts
    cases starts

theorem carries_name {name : Token} (label : String) (kind : name.kind = .identifier) :
    Carries [Shape.terminal label name] 1 (name :: rest) rest :=
  carries_kept label (kept_terminal (isTerminal_identifier _ kind))

theorem carries_mark_of_kind {t : Token} {k : TokenKind} (kind : t.kind = k) (rest : List Token)
    (mark : k.isMark := by rfl) : Carries [] 2 (t :: rest) rest :=
  carries_mark (kind ▸ mark)

mutual

/-- The tokens of an expression are those of its spelling, without brackets and commas. -/
theorem Spells.carries {level : Nat} {e : Expr} {us : List Token} :
    Spells level e us → ∀ rest, Carries [e.shape] 0 (us ++ rest) rest
  | .primary inside, rest => inside.carries rest
  | .unary kind inside, rest => by
      have terminal := isTerminal_of_isUnary kind
      have parts := (carries_kept "Operator" (kept_terminal terminal)).trans (inside.carries rest)
      rw [Expr.shape]
      exact parts.construct
  | .binary kind _ leftward rightward, rest => by
      have behind := (carries_operator kind rightward).trans (rightward.carries rest)
      have parts := (leftward.carries _).trans behind
      rw [Expr.shape, List.append_assoc, List.cons_append]
      exact parts.construct

theorem SpellsPrimary.carries {e : Expr} {us : List Token} :
    SpellsPrimary e us → ∀ rest, Carries [e.shape] 0 (us ++ rest) rest
  | .literal kind, rest => by
      rw [Expr.shape]
      exact (carries_kept "Value" (kept_terminal (isTerminal_of_isLiteral kind))).construct
  | @SpellsPrimary.reference _ indices _ kind inside, rest => by
      have filled : Expr.shapes indices ≠ [] → 0 + 1 ≤ indices.length := by
        cases indices <;> simp [Expr.shapes]
      have list := (inside.carries rest).listUnlessEmpty "Indices" filled (Nat.zero_le _)
      have parts := (carries_name "VarName" kind).trans list
      rw [Expr.shape]
      exact parts.construct
  | .call kind opens inside closes, rest => by
      have closed := (inside.carries _).behind (carries_mark_of_kind closes rest)
      have opened := (carries_mark_of_kind opens _).before closed
      have list := opened.listUnlessEmpty "Arguments" (fun _ => by decide) (Nat.zero_le _)
      have parts := (carries_name "FunctionName" kind).trans list
      rw [Expr.shape, List.cons_append, List.cons_append, List.append_assoc]
      exact parts.construct
  | .parenthesized opens inside closes, rest => by
      have closed := (inside.carries _).behind (carries_mark_of_kind closes rest)
      have whole := (carries_mark_of_kind opens _).before closed
      rw [List.cons_append, List.append_assoc]
      exact whole.enough (Nat.zero_le _)

/-- Every index has its brackets to spare. -/
theorem SpellsIndices.carries {es : List Expr} {us : List Token} :
    SpellsIndices es us → ∀ rest, Carries (Expr.shapes es) es.length (us ++ rest) rest
  | .nil, rest => .none
  | @SpellsIndices.cons _ _ _ _ _ vs opens head closes tail, rest => by
      have closed := (head.carries _).behind (carries_mark_of_kind closes (vs ++ rest))
      have whole := ((carries_mark_of_kind opens _).before closed).trans (tail.carries rest)
      rw [Expr.shapes, List.cons_append, List.append_assoc, List.cons_append]
      refine whole.enough ?_
      rw [List.length_cons]
      omega

theorem SpellsArguments.carries {es : List Expr} {us : List Token} :
    SpellsArguments es us → ∀ rest, Carries (Expr.shapes es) 0 (us ++ rest) rest
  | .nil, rest => .none
  | .last head, rest => by
      rw [Expr.shapes, Expr.shapes]
      exact head.carries rest
  | .more head between tail, rest => by
      have behind := (carries_mark_of_kind between _).before (tail.carries rest)
      have whole := (head.carries _).trans behind
      rw [Expr.shapes, List.append_assoc, List.cons_append]
      exact whole.enough (Nat.zero_le _)

end

theorem DerivesExpr.carries {e : Expr} (derives : DerivesExpr e us rest) :
    Carries [e.shape] 0 us rest := by
  obtain ⟨used, rfl, spells⟩ := derives
  exact spells.carries rest

/-! ## Lists -/

section Lists

variable {α : Type} {R : α → List Token → List Token → Prop} {node : α → Node} {as : List α}

theorem Repeats.carries (repeats : Repeats R as us rest)
    (each : ∀ a us vs, R a us vs → Carries [node a] 0 us vs) : Carries (as.map node) 0 us rest := by
  induction repeats with
  | nil => exact .none
  | cons head _ ih => exact (each _ _ _ head).trans ih

theorem Separated.carries (separated : Separated R as us rest)
    (each : ∀ a us vs, R a us vs → Carries [node a] 0 us vs) : Carries (as.map node) 0 us rest := by
  induction separated with
  | last head => exact each _ _ _ head
  | more head between _ ih =>
      have behind := (carries_mark_of_kind between _).before ih
      exact ((each _ _ _ head).trans behind).enough (Nat.zero_le _)

theorem SeparatedOrNone.carries (list : SeparatedOrNone R as us rest)
    (each : ∀ a us vs, R a us vs → Carries [node a] 0 us vs) : Carries (as.map node) 0 us rest := by
  rcases list with ⟨rfl, rfl⟩ | separated
  · exact .none
  · exact separated.carries each

end Lists

/-- A construct over the one terminal that a name makes. -/
theorem carries_leaf {t : Token} (form : Construct) (label : String)
    (next : Next (· = .identifier) t us rest) : Carries [Shape.leaf form label t] 0 us rest :=
  (next.carries label isTerminal_identifier).construct

theorem carries_dimension {t : Token}
    (bracketed : Bracketed (Next (· = .intLiteral)) t us rest) :
    Carries [Shape.leaf .literal "Value" t] 0 us rest := by
  obtain ⟨opening, closing, vs, rfl, opens, inside, closes⟩ := bracketed
  have size : Carries [Shape.leaf .literal "Value" t] 0 vs (closing :: rest) := by
    refine (inside.carries "Value" ?_).construct
    intro k number
    rw [number]
    rfl
  have closed := size.behind (carries_mark_of_kind closes rest)
  exact ((carries_mark_of_kind opens vs).before closed).enough (Nat.zero_le _)

/-! ## Statements -/

/-- The two lists of a declaration are paid for by its type and its semicolon. -/
theorem carries_declaration {type : Token} {dimensions names vs ws xs : List Token}
    (typed : Next (·.isType) type us vs)
    (sizes : Repeats (Bracketed (Next (· = .intLiteral))) dimensions vs ws)
    (declared : Separated (Next (· = .identifier)) names ws xs)
    (ends : Marks [.semicolon] xs rest) :
    Carries [(Stmt.declaration type dimensions names).shape] 0 us rest := by
  have front := typed.carries "Type" isTerminal_of_isType
  have sizesCarried := sizes.carries fun _ _ _ => carries_dimension
  have namesCarried := declared.carries fun _ _ _ => carries_leaf .declarationItem "VarName"
  have whole := ((front.trans sizesCarried).trans namesCarried).behind ends.carries
  have kept := whole.kept
  have size := whole.size
  simp only [Node.tokensAll_append, Node.tokensAll_singleton, Node.countAll_append] at kept size
  constructor
  · simp [kept, Stmt.shape, Shape.construct, Shape.list, Node.tokensAll]
  · simp only [Stmt.shape, Shape.construct, Shape.list, Shape.terminal, Node.countAll, Node.count,
      List.length_singleton] at size ⊢
    omega

/-- The `or` of a further condition is a mark like the words behind it. -/
theorem carries_orIfWords (marks : Marks [.kwOr, .kwIf, .leftParen] us rest) :
    Carries [] 2 us rest := by
  obtain ⟨word, _, rfl, isOr, next, _, rfl, isIf, opens⟩ := marks
  obtain ⟨opening, vs, rfl, kind, rfl⟩ := opens
  constructor
  · rw [kept_orIf isOr isIf]
    exact (carries_mark_of_kind kind vs).kept
  · simp only [Node.countAll, List.length_cons]
    omega

theorem DerivesValue.carries {value : Option Expr} (derives : DerivesValue value us rest) :
    Carries (value.toList.map Expr.shape) 0 us rest := by
  cases derives with
  | none => exact .none
  | some value => exact value.carries

theorem Stmt.shape_result (value : Option Expr) :
    (Stmt.result value).shape = Shape.construct .result (value.toList.map Expr.shape) := by
  cases value <;> rw [Stmt.shape] <;> rfl

mutual

/-- **The tokens of a statement are those it was derived from**, without words and marks. -/
theorem DerivesStmt.carries {s : Stmt} {us rest : List Token} :
    DerivesStmt s us rest → Carries [s.shape] 0 us rest
  | .declaration typed sizes declared ends => carries_declaration typed sizes declared ends
  | .assignment source arrow goal ends => by
      have front := source.carries.behind arrow.carries
      have parts := front.trans (goal.carries.behind ends.carries)
      rw [Stmt.shape]
      exact parts.construct
  | .print opens inside ends => by
      have parts := (opens.carries.before inside.carries).behind ends.carries
      rw [Stmt.shape]
      exact parts.construct
  | .read opens inside ends => by
      have parts := (opens.carries.before inside.carries).behind ends.carries
      rw [Stmt.shape]
      exact parts.construct
  | .conditional begins opens inside closes branch branches otherwise ends => by
      have word := begins.carries.before opens.carries
      have condition := (word.before inside.carries).behind closes.carries
      have others := (branches.carries.trans otherwise.carries).behind ends.carries
      have parts := condition.trans (branch.carries.trans others)
      rw [Stmt.shape]
      exact parts.construct
  | .loop begins opens name goes start between stop closes inside ends => by
      have word := begins.carries.before opens.carries
      have counter := name.carries "VarName" isTerminal_identifier
      have head := (word.before counter).behind goes.carries
      have lower := start.carries.behind between.carries
      have upper := stop.carries.behind closes.carries
      have body := inside.carries.behind ends.carries
      have parts := head.trans (lower.trans (upper.trans body))
      rw [Stmt.shape]
      exact parts.construct
  | .result word inside ends => by
      have parts := word.carries.before inside.carries
      rw [Stmt.shape_result]
      rcases ends with semicolon | ⟨rfl, _⟩
      · exact (parts.behind semicolon.carries).construct
      · exact parts.construct
  | .block opens inside closes => by
      have parts := (opens.carries.before inside.carries).behind closes.carries
      rw [Stmt.shape]
      exact parts.construct
  | .evaluation inside ends => by
      have parts := inside.carries.behind ends.carries
      rw [Stmt.shape]
      exact parts.construct

theorem DerivesStmts.carries {ss : List Stmt} {us rest : List Token} :
    DerivesStmts ss us rest → Carries (Stmt.shapes ss) 0 us rest
  | .nil => .none
  | .cons head tail => by
      rw [Stmt.shapes]
      exact head.carries.trans tail.carries

theorem DerivesOrIfs.carries {orIfs : List (Expr × Stmt)} {us rest : List Token} :
    DerivesOrIfs orIfs us rest → Carries (Stmt.orIfShapes orIfs) 0 us rest
  | .nil => .none
  | .cons opens inside closes branch tail => by
      have words := carries_orIfWords opens
      have condition := (words.before inside.carries).behind closes.carries
      have one := (condition.trans branch.carries).construct (f := .orIf) (b := 0)
      rw [Stmt.orIfShapes]
      exact one.trans tail.carries

theorem DerivesElse.carries {last : Option Stmt} {us rest : List Token} :
    DerivesElse last us rest → Carries (Stmt.optionShape last) 0 us rest
  | .none => .none
  | .some word branch => by
      rw [Stmt.optionShape]
      exact (word.carries.before branch.carries).enough (Nat.zero_le _)

end

/-! ## Declarations and programs -/

theorem DerivesParam.carries {p : Param} (derives : DerivesParam p us rest) :
    Carries [p.shape] 0 us rest := by
  cases derives with
  | mk named colon typed =>
      have name := (named.carries "ParamName" isTerminal_identifier).behind colon.carries
      exact (name.trans (typed.carries "ParamType" isTerminal_of_isType)).construct

/-- The signature of a function makes all its parts but the body, and the marks in it pay for
the function. -/
theorem DerivesSignature.carries {f : Function} (derives : DerivesSignature f us rest) :
    Carries [Shape.terminal "FunctionName" f.name, Shape.list "Params" (f.params.map Param.shape),
      Shape.terminal "ReturnType" f.returnType] 1 us rest := by
  cases derives with
  | mk named opens inside closes typed =>
      have name := named.carries "FunctionName" isTerminal_identifier
      have params := inside.carries fun _ _ _ => DerivesParam.carries
      have list := ((opens.carries.before params).behind closes.carries).list "Params" (b := 1)
      have type := typed.carries "ReturnType" isTerminal_of_isType
      exact (name.trans (list.trans type)).enough (by decide)

/-- A function is its signature and its body, whatever words open and close it. -/
theorem carries_function {f : Function} {vs ws xs : List Token} (opens : Carries [] a us vs)
    (signature : DerivesSignature f vs ws) (inside : DerivesStmt f.body ws xs)
    (ends : Carries [] b xs rest) : Carries [f.shape] 0 us rest := by
  have parts := ((opens.before signature.carries).trans inside.carries).behind ends
  exact parts.construct (by omega)

theorem DerivesItem.carries {i : Item} (derives : DerivesItem i us rest) :
    Carries [i.shape] 0 us rest := by
  cases derives with
  | function opens signature inside ends =>
      exact carries_function opens.carries signature inside ends.carries
  | begunBlock opens signature inside _ ends | begun opens signature inside _ ends =>
      exact carries_function opens.carries signature inside ends.carries
  | enumeration word named opens inside closes ends =>
      have name := word.carries.before (named.carries "EnumName" isTerminal_identifier)
      have values := inside.carries fun _ _ _ => carries_leaf .enumValue "ValueName"
      have list := ((opens.carries.before values).behind closes.carries).list "Values" (b := 1)
      have parts := name.trans list
      rcases ends with semicolon | ⟨rfl, _⟩
      · exact (parts.behind semicolon.carries).construct
      · exact parts.construct
  | statement inside => exact inside.carries

/-- **The kept tokens of a program are those of its items**, in the order of the source. -/
theorem DerivesProgram.carries {p : Program} {tokens : List Token}
    (derives : DerivesProgram p tokens) : Carries (p.items.map Item.shape) 0 tokens [] :=
  Repeats.carries derives fun _ _ _ => DerivesItem.carries

/-- The items of a program that is read, in the order of the source: they hold the kept
tokens, and there are at most two nodes in them for every token. -/
theorem Program.numbered_items {p : Program} {tokens : List Token}
    (derives : DerivesProgram p tokens) (nextId : NodeId) :
    ∃ items last, NumberingAll nextId (p.items.map Item.shape) items last ∧
      items.Perm (p.number nextId).1.children ∧ Node.tokensAll items = kept tokens ∧
      Node.countAll items ≤ 2 * tokens.length := by
  obtain ⟨items, parts, last, numbering, perm, same⟩ := p.numbering nextId
  have carries := derives.carries
  have size := carries.size
  refine ⟨items, last, numbering, ?_, ?_, ?_⟩
  · rw [same]
    exact perm.symm
  · rw [carries.kept, ← numbering.unnumbered, Node.tokensAll_unnumbered]
    exact (List.append_nil _).symm
  · rw [← numbering.unnumbered, Node.countAll_unnumbered, List.length_nil] at size
    omega

/-- **No token is lost, duplicated or reordered.**  In the order of the source, the items of
the program that a session answers with have exactly the kept tokens of the source in their
terminals, each item in its preorder.  As long as the counter has two identifiers for every
token, this is the order of the identifiers, which are all different: listing the terminals
of the whole tree by their identifiers gives the kept tokens, and the items one after the
other.  A counter of its own starts at one and has room for any list with fewer than
`2 ^ 63 - 1` tokens. -/
theorem ask_program_terminals {tokens : List Token} {nextId : NodeId} {root : Node} {s : Session}
    (answers : (Session.ofTokens tokens nextId).ask .program = (.ok root, s)) :
    ∃ items : List Node, items.Perm root.children ∧
      (items.flatMap Node.terminals).map Prod.snd = kept (tokens.takeWhile (·.kind ≠ .eof)) ∧
      (nextId.toNat + 2 * tokens.length < UInt64.size →
        root.terminalsById.map Prod.snd = kept (tokens.takeWhile (·.kind ≠ .eof)) ∧
          root.terminalsById = items.flatMap Node.terminals ∧
          (root.terminals.map Prod.fst).Nodup) := by
  obtain ⟨p, rest, gives, tree, _⟩ := Session.ask_program_eq_ok.mp answers
  have numbered : (p.number nextId).1 = root := tree
  subst numbered
  have derives := (program_sound (unended_takeWhile tokens) gives).1
  obtain ⟨items, last, numbering, perm, conserved, size⟩ := p.numbered_items derives nextId
  have listed := Node.map_snd_flatMap_terminals items
  rw [conserved] at listed
  refine ⟨items, perm, listed, ?_⟩
  intro room
  have shorter := (List.takeWhile_sublist (l := tokens) (·.kind ≠ .eof)).length_le
  have ascends := (numbering.ascends (by omega)).2
  have found : (p.number nextId).1.terminals.Perm (items.flatMap Node.terminals) := by
    rw [Node.terminals_of_children rfl]
    exact perm.symm.flatMap_right _
  have sorted : (p.number nextId).1.terminalsById = items.flatMap Node.terminals :=
    mergeSort_of_ascends ascends found
  refine ⟨?_, sorted, (found.map Prod.fst).nodup_iff.mpr ascends.nodup⟩
  rw [sorted]
  exact listed

/-- A statement in front of a function, which the tree shows the other way round, with an `or`
between operands and one of a further condition. -/
theorem ask_program_terminals_regrouped :
    let tokens := [TokenKind.kwIf, .leftParen, .identifier, .kwOr, .boolLiteral, .rightParen,
      .kwBegin, .kwEnd, .kwOr, .kwIf, .leftParen, .boolLiteral, .rightParen, .kwReturn, .semicolon,
      .kwEnd, .kwFunction, .identifier, .leftParen, .rightParen, .colon, .kwInt, .kwReturn,
      .intLiteral, .eof].map TokenKind.token
    ∃ root s, (Session.ofTokens tokens 1).ask .program = (.ok root, s) ∧
      root.terminalsById.map Prod.snd = [TokenKind.identifier, .kwOr, .boolLiteral, .boolLiteral,
        .identifier, .kwInt, .intLiteral].map TokenKind.token := by
  intro tokens
  have ok : ((Session.ofTokens tokens 1).ask .program).1.isOk := by decide +kernel
  obtain ⟨root, s, answers⟩ := Session.exists_of_isOk ok
  obtain ⟨items, _, _, byId⟩ := ask_program_terminals answers
  exact ⟨root, s, answers, (byId (by decide)).1.trans (by decide)⟩

end BlockSyntax
