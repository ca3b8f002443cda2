import BlockSyntax.Proofs.ParserRoutines

/-!
# The routines for statements and programs

The routines of a parser for statements, declarations and whole programs follow the replies
of the grammar, and make the trees numbered from the counter at which they start
(`statement_follows`, `program_follows`).  So a parser that is asked for something does one
of two things: it makes the tree of what it has read and records nothing, or it makes
nothing and records the error where the reply of the grammar failed (`request_follows`).
-/

set_option autoImplicit false

namespace BlockSyntax

open Reply

variable {m n : Nat} {p : Parser}

namespace Grammar

/-! ## Statements without statements inside -/

/-- An expression in parentheses. -/
theorem parenthesized_follows (before inside : Part) :
    Follows p (Parse.parenthesized before inside) (parenthesized before inside p.rest)
      (Numbers Expr.number p) := by
  refine .expect_bind rfl fun q _ h₁ opened => ?_
  refine .bind (expression_follows q) fun q₁ e node h₂ numbered => ?_
  refine .expect_bind rfl fun q₂ _ h₃ closed => .pure ?_
  rw [closed]
  exact numbered.congr opened

/-- A dimension in brackets. -/
theorem dimension_follows (here : nextKind p.rest = .leftBracket) :
    Follows p Parse.dimension (dimension p.rest) fun size made id =>
      ∃ node, made = some node ∧ Numbered.leaf .literal "Value" size p.nextId = (node, id) := by
  refine .accept_of_next (by decide) here fun q _ h₁ opened => ?_
  rw [node_bind]
  refine .terminal_bind rfl fun q₁ size h₂ named => ?_
  refine .drawn rfl ?_
  have drawn : (q₁.take [] 1).nextId = q.nextId + 1 + 1 := congrArg (· + 1) named
  refine .expect_bind rfl fun q₂ _ h₃ closed => .pure ⟨_, rfl, ?_⟩
  simp [Numbered.leaf, closed, drawn, named, opened]

theorem dimension_stops (elsewhere : decide (nextKind p.rest = .leftBracket) = false) :
    Parse.dimension.run p = (some none, p) :=
  run_bind_some (run_accept_of_stops (of_decide_eq_false elsewhere))

/-- A name that is an item of a list. -/
theorem nameItem_follows (role : NameRole) (form : Construct) (label : String) :
    Follows p (Parse.nameItem role form label) (takeName role p.rest).node
      (Numbers (Numbered.leaf form label) p) := by
  rw [node_eq_bind]
  refine .terminal_bind rfl fun q name h named => .construct ?_
  simp [Numbers, Numbered.leaf, named]

/-- A variable declaration behind its type. -/
theorem declaration_follows {us : List Token} (left : p.rest = us) (type : Token) :
    Follows p (Parse.declaration type) ((declaration type us).after 1)
      (Numbers Stmt.number p) := by
  refine .draw_bind left rfl ?_
  rintro q rfl typed
  refine .bind (.collect (fun _ => dimension_stops) fun q' _ here =>
    dimension_follows (of_decide_eq_true here)) fun q₁ dimensions sizes h₁ sized => ?_
  refine .bind (.separated fun q' _ => nameItem_follows _ _ _) fun q₂ names nodes h₂ named => ?_
  refine .expect_bind rfl fun q₃ _ h₃ ended => ?_
  refine .draw_ok rfl fun q₄ h₄ listed => ?_
  refine .draw_ok rfl fun q₅ h₅ listed' => .construct ?_
  rw [typed] at sized
  simp [Numbers, Stmt.number, sized, named, ended, listed, listed']

/-- A `print` statement behind its first word. -/
theorem print_follows : Follows p Parse.print (print p.rest) (Numbers Stmt.number p) := by
  refine .bind (parenthesized_follows _ _) fun q value node h₁ numbered => ?_
  refine .expect_bind rfl fun q₁ _ h₂ ended => .construct ?_
  rw [Numbers] at numbered
  simp [Numbers, Stmt.number, numbered, ended]

/-- A `read` statement behind its first word. -/
theorem read_follows : Follows p Parse.read (read p.rest) (Numbers Stmt.number p) := by
  refine .bind (parenthesized_follows _ _) fun q target node h₁ numbered => ?_
  refine .expect_bind rfl fun q₁ _ h₂ ended => .construct ?_
  rw [Numbers] at numbered
  simp [Numbers, Stmt.number, numbered, ended]

/-- The value of a `return` statement. -/
theorem resultValue_follows :
    Follows p Parse.resultValue (resultValue p.rest) fun value nodes id =>
      (Stmt.result value).number p.nextId = (.construct id .result nodes, id + 1) := by
  refine .kindAt ?_
  unfold resultValue
  split
  · refine .pure ?_
    simp [Stmt.number]
  · refine .widen (.map ((expression_follows p).made fun node => [node]) ?_)
    rintro e _ id ⟨node, numbered, rfl⟩
    rw [Numbers] at numbered
    simp [Stmt.number, numbered]

/-- A `return` statement behind its first word. -/
theorem result_follows : Follows p Parse.result (result p.rest) (Numbers Stmt.number p) := by
  refine .bind resultValue_follows fun q value nodes h₁ numbered => .kindAt ?_
  split
  · exact .construct numbered
  · refine .expect_bind rfl fun q₁ _ h₂ ended => .construct ?_
    rw [ended]
    exact numbered

/-- An assignment, or an expression as a statement. -/
theorem assignmentOrEvaluation_follows {us : List Token} (left : p.rest = us) :
    Follows p Parse.assignmentOrEvaluation (assignmentOrEvaluation us)
      (Numbers Stmt.number p) := by
  subst left
  refine .bind (expression_follows p) fun q value node h₁ numbered => ?_
  rw [Numbers] at numbered
  refine .accept_bind (by decide) (fun q₁ _ h₂ arrow => ?_) ?_
  · refine .bind (expression_follows q₁) fun q₂ target node' h₃ numbered' => ?_
    refine .expect_bind rfl fun q₃ _ h₄ ended => .construct ?_
    rw [Numbers, arrow] at numbered'
    simp [Numbers, Stmt.number, numbered, numbered', ended]
  · refine .expect_bind rfl fun q₁ _ h₂ ended => .construct ?_
    simp [Numbers, Stmt.number, numbered, ended]

/-! ## Statements with statements inside -/

/-- Numbers a further condition with its body. -/
def numberOrIf (orIf : Expr × Stmt) : Numbered Node := do
  let condition ← orIf.1.number
  let body ← orIf.2.number
  Numbered.construct .orIf [condition, body]

theorem numberOrIfs_eq_mapM (orIfs : List (Expr × Stmt)) :
    Stmt.numberOrIfs orIfs = orIfs.mapM numberOrIf := by
  induction orIfs with
  | nil => rw [Stmt.numberOrIfs, List.mapM_nil]
  | cons orIf orIfs ih =>
      rw [Stmt.numberOrIfs, List.mapM_cons, ih]
      rfl

theorem numberAll_eq_mapM (body : List Stmt) : Stmt.numberAll body = body.mapM Stmt.number := by
  induction body with
  | nil => rw [Stmt.numberAll, List.mapM_nil]
  | cons s body ih => rw [Stmt.numberAll, List.mapM_cons, ih]

theorem orIf_stops {inner : Parse Node} (elsewhere : decide (nextKind p.rest = .kwOr) = false) :
    (Parse.orIf inner).run p = (some none, p) :=
  run_bind_some (run_accept_of_stops (of_decide_eq_false elsewhere))

theorem blockItem_stops {inner : Parse Node}
    (elsewhere : decide (nextKind p.rest ≠ .kwEnd ∧ nextKind p.rest ≠ .eof) = false) :
    (Parse.blockItem inner).run p = (some none, p) := by
  have ends := of_decide_eq_false elsewhere
  rw [← Parser.kind_peek] at ends
  refine (run_bind_some rfl).trans ?_
  rw [if_neg ends]
  rfl

/-- The words that may close a construct. -/
theorem closing_follows {k : TokenKind} (mark : k ≠ .eof) :
    Follows p (Parse.closing k) (closing k p.rest) fun _ _ id => id = p.nextId := by
  refine .bind (.skip (by decide)) fun q _ ended h₁ same => ?_
  obtain ⟨rfl, counter⟩ := same
  cases ended with
  | true =>
      rw [if_pos rfl, if_pos rfl]
      refine .widen (.map ((Follows.expectIf (decide_eq_false mark.symm)).made fun _ => ()) ?_)
      rintro _ _ id ⟨_, ⟨_, same⟩, _⟩
      rw [same, counter]
  | false => exact .pure counter

section Statements

variable {self : Below n Stmt} {inner : Parse Node}
  (inside : ∀ q (h : q.rest.length < n), Follows q inner (self q.rest h) (Numbers Stmt.number q))
include inside

/-- A further condition with its body. -/
theorem orIf_follows (h : p.rest.length ≤ n) (here : nextKind p.rest = .kwOr) :
    Follows p (Parse.orIf inner) (orIf self p.rest h) fun orIf made id =>
      ∃ node, made = some node ∧ numberOrIf orIf p.nextId = (node, id) := by
  refine .accept_of_next (by decide) here fun q _ h₁ first => ?_
  refine .expect_bind rfl fun q₁ _ h₂ second => ?_
  refine .bind (parenthesized_follows _ _) fun q₂ condition node h₃ numbered => ?_
  refine .bind (inside q₂ _) fun q₃ body node' h₄ numbered' => ?_
  refine .draw_ok rfl fun q₄ h₅ drawn => .pure ⟨_, rfl, ?_⟩
  rw [Numbers, second, first] at numbered
  rw [Numbers] at numbered'
  simp [numberOrIf, numbered, numbered', drawn]

/-- The body for when no condition holds. -/
theorem otherwise_follows (h : p.rest.length ≤ n) :
    Follows p (Parse.otherwise inner) (otherwise self p.rest h) (Numbers Stmt.numberOption p) := by
  refine .accept_bind (by decide) (fun q _ h₁ taken => ?_) (.pure ?_)
  · refine .bind (inside q _) fun q₁ body node h₂ numbered => .pure ?_
    rw [Numbers, taken] at numbered
    simp [Numbers, Stmt.numberOption, numbered]
  · simp [Numbers, Stmt.numberOption]

/-- A conditional behind its `if`. -/
theorem conditional_follows (h : p.rest.length ≤ n) :
    Follows p (Parse.conditional inner) (conditional self p.rest h) (Numbers Stmt.number p) := by
  refine .bind (parenthesized_follows _ _) fun q condition node h₁ numbered => ?_
  refine .bind (inside q _) fun q₁ body node₁ h₂ numbered₁ => ?_
  refine .bind (.collect (fun _ => orIf_stops) fun q' h' here =>
    orIf_follows inside (by omega) (of_decide_eq_true here)) fun q₂ orIfs nodes h₃ numbered₂ => ?_
  refine .bind (otherwise_follows inside _) fun q₃ last nodes' h₄ numbered₃ => ?_
  refine .bind (.skip (by decide)) fun q₄ _ _ h₅ same => .construct ?_
  rw [Numbers] at numbered numbered₁ numbered₃
  simp [Numbers, Stmt.number, numberOrIfs_eq_mapM, numbered, numbered₁, numbered₂, numbered₃,
    same.2]

/-- A loop behind its `for`. -/
theorem counting_follows (h : p.rest.length ≤ n) :
    Follows p (Parse.counting inner) (loop self p.rest h) (Numbers Stmt.number p) := by
  refine .expect_bind rfl fun q _ h₁ opened => ?_
  refine .terminal_bind rfl fun q₁ counter h₂ named => ?_
  refine .expect_bind rfl fun q₂ _ h₃ goes => ?_
  refine .expect_bind rfl fun q₃ _ h₄ begins => ?_
  refine .bind (expression_follows q₃) fun q₄ lower node h₅ numbered => ?_
  refine .expect_bind rfl fun q₅ _ h₆ reaches => ?_
  refine .bind (expression_follows q₅) fun q₆ upper node₁ h₇ numbered₁ => ?_
  refine .expect_bind rfl fun q₇ _ h₈ closed => ?_
  refine .bind (inside q₇ _) fun q₈ body node₂ h₉ numbered₂ => ?_
  refine .bind (closing_follows (by decide)) fun q₉ _ _ h₁₀ ended => .construct ?_
  rw [Numbers, begins, goes, named, opened] at numbered
  rw [Numbers, reaches] at numbered₁
  rw [Numbers, closed] at numbered₂
  simp [Numbers, Stmt.number, numbered, numbered₁, numbered₂, ended, opened]

/-- A block behind its `begin`. -/
theorem block_follows (h : p.rest.length < n) :
    Follows p (Parse.block inner) (block self p.rest h) (Numbers Stmt.number p) := by
  have goes : ∀ q (h' : q.rest.length < p.rest.length + 1),
      decide (nextKind q.rest ≠ .kwEnd ∧ nextKind q.rest ≠ .eof) = true →
      Follows q (Parse.blockItem inner) (self q.rest (by omega)) fun s made id =>
        ∃ node, made = some node ∧ s.number q.nextId = (node, id) := by
    intro q h' here
    refine .kindAt ?_
    rw [if_pos (of_decide_eq_true here)]
    refine ((inside q (by omega)).made some).mono ?_
    rintro s _ id ⟨node, numbered, rfl⟩
    exact ⟨node, rfl, numbered⟩
  refine .bind (.collect (fun _ => blockItem_stops) goes) fun q body nodes h₁ numbered => ?_
  refine .expect_bind rfl fun q₁ _ h₂ ended => .construct ?_
  simp [Numbers, Stmt.number, numberAll_eq_mapM, numbered, ended]

/-- What a `begin` opens. -/
theorem begun_follows {t : Token} {us : List Token} (left : p.rest = t :: us) (h : us.length < n)
    (here : t.kind = .kwBegin) :
    Follows p (Parse.statementAround inner) (begun self us h) (Numbers Stmt.number p) := by
  refine .kindAt ?_
  rw [left, nextKind_cons, here]
  refine .kindAt_one left ?_
  unfold begun
  cases behind : nextKind us <;> simp only
  case kwIf =>
    refine .advance_numbers left ?_
    rintro q rfl
    refine .advance_of_next (by decide) behind fun q₁ _ _ h₁ taken => ?_
    exact .widen ((conditional_follows inside _).mono fun _ _ _ => .congr taken)
  case kwFor =>
    refine .advance_numbers left ?_
    rintro q rfl
    refine .advance_of_next (by decide) behind fun q₁ _ _ h₁ taken => ?_
    exact .widen ((counting_follows inside _).mono fun _ _ _ => .congr taken)
  all_goals
    refine .advance_numbers left ?_
    rintro q rfl
    exact block_follows inside h

/-- A statement. -/
theorem statementAround_follows {us : List Token} (left : p.rest = us) (h : us.length ≤ n) :
    Follows p (Parse.statementAround inner) (statementAround self us h)
      (Numbers Stmt.number p) := by
  cases us with
  | nil =>
      refine .kindAt ?_
      rw [left]
      exact assignmentOrEvaluation_follows left
  | cons t us =>
      cases kind : t.kind <;> simp only [statementAround, kind]
      case kwBegin => exact begun_follows inside left h kind
      all_goals
        refine .kindAt ?_
        rw [left, nextKind_cons, kind]
      case kwInt | kwReal | kwBool =>
        refine .advance_numbers left fun q rest => ?_
        exact .widen (declaration_follows rest.symm t)
      case kwPrint =>
        refine .advance_numbers left ?_
        rintro q rfl
        exact .widen print_follows
      case kwRead =>
        refine .advance_numbers left ?_
        rintro q rfl
        exact .widen read_follows
      case kwReturn =>
        refine .advance_numbers left ?_
        rintro q rfl
        exact result_follows
      case kwIf =>
        refine .advance_numbers left ?_
        rintro q rfl
        exact .widen (conditional_follows inside _)
      case kwFor =>
        refine .advance_numbers left ?_
        rintro q rfl
        exact .widen (counting_follows inside _)
      all_goals exact assignmentOrEvaluation_follows left

end Statements

end Grammar

open Grammar

/-- **Asked for a statement, a parser does what the reply of the grammar says.** -/
theorem statement_follows (p : Parser) :
    Follows p Parse.statement (statement p.rest) (Numbers Stmt.number p) := by
  rw [statement_eq]
  refine .recursive fun self same => ?_
  refine statementAround_follows (fun q shorter => ?_) rfl (Nat.le_refl _)
  exact (statement_follows q).congr (same () q shorter)
termination_by p.rest.length

namespace Grammar

/-! ## Functions -/

/-- A parameter. -/
theorem param_follows : Follows p Parse.param (param p.rest) (Numbers Param.number p) := by
  refine .terminal_bind rfl fun q name h₁ named => ?_
  refine .expect_bind rfl fun q₁ _ h₂ colon => ?_
  refine .terminal_bind rfl fun q₂ type h₃ typed => .construct ?_
  simp [Numbers, Param.number, typed, colon, named]

/-- The parameters of a function in their parentheses. -/
theorem params_follows :
    Follows p Parse.params (params p.rest)
      (Numbers (fun ps => do Numbered.list "Params" (← ps.mapM Param.number)) p) := by
  refine .expect_bind rfl fun q _ h₁ opened => ?_
  by_cases empty : nextKind q.rest = .rightParen
  · rw [separatedUpTo, if_pos empty, ok_bind, after_zero]
    refine .accept_of_next (by decide) empty fun q₁ _ h₂ closed => ?_
    exact ⟨[], _, rfl, rfl, by simp [Numbers, closed, opened]⟩
  · rw [separatedUpTo, if_neg empty]
    refine .accept_of_not_next empty ?_
    refine .bind (.widen (.separated fun q' _ => param_follows)) fun q₁ ps nodes h₂ numbered => ?_
    refine .expect_bind rfl fun q₂ _ h₃ closed => ?_
    refine ⟨[], _, rfl, rfl, ?_⟩
    rw [opened] at numbered
    simp [Numbers, numbered, closed]

/-- The node of a block, and of no other statement, has the form of a block. -/
theorem kind_number_eq_block (s : Stmt) (id : NodeId) :
    (s.number id).1.kind = .construct .block ↔ s.isBlock = true := by
  cases s with
  | result value => cases value <;> simp [Stmt.number, Stmt.isBlock, Node.kind]
  | _ => simp [Stmt.number, Stmt.isBlock, Node.kind]

/-- The words behind the body of a function that opened with `begin`. -/
theorem closingBegun_follows {body : Stmt} {node : Node} {id id' : NodeId}
    (numbered : body.number id = (node, id')) :
    Follows p (Parse.closingBegun node) (closingBegun body p.rest) fun _ _ id => id = p.nextId := by
  have form := kind_number_eq_block body id
  rw [numbered] at form
  unfold Parse.closingBegun closingBegun
  by_cases block : body.isBlock
  · rw [if_neg (not_not.mpr (form.mpr block)), if_pos block]
    refine .map ((Follows.expectIf rfl).made fun _ => ()) ?_
    rintro _ _ id ⟨_, ⟨_, same⟩, _⟩
    exact same
  · rw [if_pos (mt form.mp block), if_neg block]
    refine .expect_bind rfl fun q _ h₁ ended => ?_
    refine .expect_bind rfl fun q₁ _ h₂ word => .pure ?_
    rw [word, ended]

/-- A function behind its word. -/
theorem function_follows (opened : Bool) :
    Follows p (Parse.function opened) (function opened p.rest) (Numbers Function.number p) := by
  refine .terminal_bind rfl fun q name h₁ named => ?_
  refine .bind params_follows fun q₁ ps node h₂ numbered => ?_
  refine .expect_bind rfl fun q₂ _ h₃ colon => ?_
  refine .terminal_bind rfl fun q₃ type h₄ typed => ?_
  refine .bind (statement_follows q₃) fun q₄ body node' h₅ numbered' => ?_
  have complete : ∀ q₅ (h₆ : q₅.rest.length < p.rest.length), q₅.nextId = q₄.nextId →
      Follows q₅ (Parse.construct .function
          [.terminal p.nextId (ascii "FunctionName") name, node,
            .terminal q₂.nextId (ascii "ReturnType") type, node'])
        (.ok ⟨name, ps, type, body⟩ q₅.rest 1 h₆) (Numbers Function.number p) := by
    intro q₅ h₆ ended
    refine .construct ?_
    rw [Numbers, named] at numbered
    rw [Numbers, typed, colon] at numbered'
    simp at numbered
    simp [Numbers, Function.number, numbered, numbered', ended, colon]
  cases opened with
  | true =>
      exact .bind (.widen (h := length_le_succ _) (closingBegun_follows numbered'))
        fun q₅ _ _ h₆ ended => complete q₅ _ ended
  | false =>
      exact .bind (closing_follows (by decide)) fun q₅ _ _ h₆ ended => complete q₅ _ ended

/-! ## Enumerations -/

/-- The end of an enumeration. -/
theorem enumerationEnd_follows :
    Follows p Parse.enumerationEnd (enumerationEnd p.rest) fun _ _ id => id = p.nextId := by
  refine .kindAt ?_
  unfold enumerationEnd
  split
  · exact .pure rfl
  · refine .widen (.map ((Follows.expectIf rfl).made fun _ => ()) ?_)
    rintro _ _ id ⟨_, ⟨_, same⟩, _⟩
    exact same

/-- An enumeration behind its word. -/
theorem enumeration_follows :
    Follows p Parse.enumeration (enumeration p.rest) (Numbers Enumeration.number p) := by
  refine .terminal_bind rfl fun q name h₁ named => ?_
  refine .expect_bind rfl fun q₁ _ h₂ opened => ?_
  refine .bind (separatedUpTo_follows fun q' _ => nameItem_follows _ _ _)
    fun q₂ values nodes h₃ numbered => ?_
  refine .expect_bind rfl fun q₃ _ h₄ closed => ?_
  refine .bind enumerationEnd_follows fun q₄ _ _ h₅ ended => ?_
  refine .draw_ok rfl fun q₅ h₆ listed => .construct ?_
  rw [Numbers, opened, named] at numbered
  simp [Numbers, Enumeration.number, numbered, closed, ended, listed]

/-! ## Items -/

/-- Numbers an item and puts it behind those of its sort. -/
def numberItem (items : Groups) : Item → Numbered Groups
  | .function f => do
    return { items with functions := items.functions ++ [← f.number] }
  | .enumeration e => do
    return { items with enumerations := items.enumerations ++ [← e.number] }
  | .statement s => do
    return { items with statements := items.statements ++ [← s.number] }

/-- Items that are put behind others one after the other. -/
theorem foldlM_numberItem (items : List Item) (before : Groups) (id : NodeId) :
    items.foldlM numberItem before id =
      (⟨before.functions ++ (Item.numberAll items id).1.functions,
        before.enumerations ++ (Item.numberAll items id).1.enumerations,
        before.statements ++ (Item.numberAll items id).1.statements⟩,
        (Item.numberAll items id).2) := by
  induction items generalizing before id with
  | nil => simp [Item.numberAll]
  | cons item items ih =>
      rw [List.foldlM_cons, Numbered.bind_apply, ih]
      cases item <;> simp [numberItem, Item.numberAll]

/-- An item whose node is put behind those of its sort. -/
theorem put_follows {V : Type} {routine : Parse Node} {r : Reply V n} {walk : V → Numbered Node}
    {sort : V → Item} {items : Groups} {put : Node → Groups} {start : NodeId}
    (numbers : ∀ v id, numberItem items (sort v) id = (put (walk v id).1, (walk v id).2))
    (counter : p.nextId = start) (follows : Follows p routine r (Numbers walk p)) :
    Follows p (do return some (put (← routine))) (r.map sort) fun item next id =>
      ∃ items', next = some items' ∧ numberItem items item start = (items', id) := by
  refine .map (follows.made fun node => some (put node)) ?_
  rintro v _ id ⟨node, numbered, rfl⟩
  refine ⟨put node, rfl, ?_⟩
  rw [Numbers, counter] at numbered
  rw [numbers, numbered]

/-- An item, where the source does not end. -/
theorem item_follows {items : Groups} (here : nextKind p.rest ≠ .eof) :
    Follows p (Parse.item items) (item p.rest) fun item next id =>
      ∃ items', next = some items' ∧ numberItem items item p.nextId = (items', id) := by
  have function : ∀ (q : Parser) opened, q.nextId = p.nextId → Follows q
      (do return some { items with functions := items.functions ++ [← Parse.function opened] })
      ((function opened q.rest).map .function) fun item next id =>
        ∃ items', next = some items' ∧ numberItem items item p.nextId = (items', id) :=
    fun q opened counter => put_follows (fun _ _ => rfl) counter (function_follows opened)
  have statement : Follows p
      (do return some { items with statements := items.statements ++ [← Parse.statement] })
      ((statement p.rest).map .statement) fun item next id =>
        ∃ items', next = some items' ∧ numberItem items item p.nextId = (items', id) :=
    put_follows (fun _ _ => rfl) rfl (statement_follows p)
  refine .kindAt ?_
  cases left : p.rest with
  | nil =>
      rw [left] at here
      exact absurd rfl here
  | cons t us =>
      rw [left] at here statement
      refine .kindAt_one left ?_
      rw [nextKind_cons]
      cases kind : t.kind <;> simp only [item, kind]
      case eof => exact absurd kind here
      case kwBegin =>
        cases behind : nextKind us <;> simp only
        case kwFunction =>
          refine .widen (.advance_bind left ?_)
          rintro q rfl taken
          refine .advance_of_next (by decide) behind fun q₁ _ _ h₁ taken' => ?_
          exact .widen (function q₁ true (taken'.trans taken))
        all_goals exact statement
      case kwFunction =>
        refine .widen (.advance_bind left ?_)
        rintro q rfl taken
        exact function q false taken
      case kwEnum =>
        refine .widen (.advance_bind left ?_)
        rintro q rfl taken
        exact put_follows (fun _ _ => rfl) taken enumeration_follows
      all_goals exact statement

end Grammar

open Grammar

/-- **Asked for a program, a parser does what the reply of the grammar says.** -/
theorem program_follows (p : Parser) :
    Follows p Parse.program (program p.rest) (Numbers Program.number p) := by
  have stops : ∀ (q : Parser) (items : Groups), decide (nextKind q.rest ≠ .eof) = false →
      (Parse.item items).run q = (some none, q) := by
    intro q items ends
    have ends : nextKind q.rest = .eof := not_not.mp (of_decide_eq_false ends)
    rw [← Parser.kind_peek] at ends
    refine (run_bind_some rfl).trans ((run_bind_some rfl).trans ?_)
    rw [ends]
    rfl
  refine .bind (.loop stops fun q items h here => item_follows (of_decide_eq_true here))
    fun q items groups h₁ numbered => .construct ?_
  rw [foldlM_numberItem] at numbered
  obtain ⟨rfl, counter⟩ := Prod.mk.inj numbered
  simp [Numbers, Program.number, counter]

/-- **Whatever a parser is asked for, it does what the reply of the grammar says.** -/
theorem request_follows (p : Parser) (goal : Goal) :
    Follows p goal.routine (goal.parse p.rest) fun walk root id => walk p.nextId = (root, id) := by
  cases goal with
  | program => exact (program_follows p).map fun _ _ _ same => same
  | statement =>
      exact .widen (h := length_le_succ _) ((statement_follows p).map fun _ _ _ same => same)
  | expression =>
      exact .widen (h := length_le_succ _) ((expression_follows p).map fun _ _ _ same => same)

end BlockSyntax
