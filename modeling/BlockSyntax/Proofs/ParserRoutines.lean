import BlockSyntax.Proofs.GrammarLocality
import BlockSyntax.Proofs.ParserSteps

/-!
# The routines of a parser and the grammar

Every routine of a parser follows the reply of the grammar to the tokens that are left, and
what it makes is the numbered tree of the value of the reply, numbered from the counter at
which the routine started (`Numbers`).

The routines for expressions and statements are looked at with a routine for what stands
inside that is assumed to follow already.  The inner one only runs behind a token, so the
recursion closes by induction on the number of tokens left (`expression_follows`,
`statement_follows`).
-/

set_option autoImplicit false

namespace BlockSyntax

open Reply

variable {α V : Type} {m n : Nat} {p : Parser}

/-! ## Walks from a counter -/

namespace Numbered

variable {β : Type}

@[simp] theorem bind_apply (walk : Numbered α) (next : α → Numbered β) (id : NodeId) :
    (walk >>= next) id = next (walk id).1 (walk id).2 := rfl

@[simp] theorem pure_apply (a : α) (id : NodeId) : (pure a : Numbered α) id = (a, id) := rfl

@[simp] theorem map_apply (f : α → β) (walk : Numbered α) (id : NodeId) :
    (f <$> walk) id = (f (walk id).1, (walk id).2) := rfl

@[simp] theorem terminal_apply (label : String) (t : Token) (id : NodeId) :
    terminal label t id = (.terminal id (ascii label) t, id + 1) := rfl

@[simp] theorem list_apply (label : String) (items : List Node) (id : NodeId) :
    list label items id = (.list id (ascii label) items, id + 1) := rfl

@[simp] theorem construct_apply (form : Construct) (parts : List Node) (id : NodeId) :
    construct form parts id = (.construct id form parts, id + 1) := rfl

end Numbered

/-- What is made is the value, numbered from the counter of the state. -/
def Numbers (walk : V → Numbered α) (p : Parser) (v : V) (a : α) (id : NodeId) : Prop :=
  walk v p.nextId = (a, id)

theorem Numbers.congr {walk : V → Numbered α} {q : Parser} {v : V} {a : α} {id : NodeId}
    (counter : q.nextId = p.nextId) (numbers : Numbers walk q v a id) : Numbers walk p v a id := by
  rwa [Numbers, counter] at numbers

/-- A routine behind a token that is taken numbers from the same counter. -/
theorem Follows.advance_numbers {W : Type} {next : Token → Parse α} {walk : W → Numbered α}
    {r : Reply W n} {t : Token} {us : List Token} (left : p.rest = t :: us)
    (follows : ∀ q, us = q.rest → Follows q (next t) r (Numbers walk q)) :
    Follows p (Parse.advance >>= next) r (Numbers walk p) :=
  .advance_bind left fun q rest counter => (follows q rest).mono fun _ _ _ => .congr counter

theorem Expr.numberAll_eq_mapM (es : List Expr) : Expr.numberAll es = es.mapM Expr.number := by
  induction es with
  | nil => rw [Expr.numberAll, List.mapM_nil]
  | cons e es ih => rw [Expr.numberAll, List.mapM_cons, ih]

/-- A list is numbered as many nodes as it has elements. -/
theorem length_of_mapM {walk : V → Numbered Node} {vs : List V} {nodes : List Node}
    {id id' : NodeId} (walked : vs.mapM walk id = (nodes, id')) : nodes.length = vs.length := by
  induction vs generalizing id nodes with
  | nil =>
      rw [List.mapM_nil] at walked
      cases walked
      rfl
  | cons v vs ih =>
      rw [List.mapM_cons] at walked
      cases walked
      exact congrArg (· + 1) (ih rfl)

/-- A list that is a node only when it has elements. -/
theorem Follows.listUnlessEmpty_ok {β W : Type} {label : String} {walk : V → Numbered Node}
    {vs : List V} {nodes : List Node} {id id' : NodeId} {next : List Node → Parse β} {w : W}
    {h : p.rest.length < n} {makes : W → β → NodeId → Prop}
    (walked : vs.mapM walk id = (nodes, id'))
    (follows : ∀ q (h : q.rest.length < n),
      q.nextId = (Numbered.listUnlessEmpty label nodes p.nextId).2 →
      Follows q (next (Numbered.listUnlessEmpty label nodes p.nextId).1)
        (.ok w q.rest 1 h) makes) :
    Follows p (Parse.listUnlessEmpty label nodes >>= next)
      (.ok w p.rest (Grammar.listNodes vs + 1) h) makes := by
  have same := length_of_mapM walked
  cases nodes with
  | nil =>
      obtain rfl := List.length_eq_zero_iff.mp same.symm
      exact (follows p h rfl).congr rfl
  | cons node nodes =>
      cases vs with
      | nil => cases same
      | cons v vs => exact .draw_ok rfl follows

namespace Grammar

/-! ## Expressions -/

theorem index_stops {inner : Parse Node}
    (elsewhere : decide (nextKind p.rest = .leftBracket) = false) :
    (Parse.index inner).run p = (some none, p) :=
  run_bind_some (run_accept_of_stops (of_decide_eq_false elsewhere))

/-- Items separated by commas in front of a closing mark. -/
theorem separatedUpTo_follows {item : Parse Node} {items : Below (p.rest.length + 1) V}
    {walk : V → Numbered Node} {close : TokenKind}
    (each : ∀ q h, Follows q item (items q.rest h) (Numbers walk q)) :
    Follows p (Parse.separatedUpTo close item) (separatedUpTo close p.rest items)
      (Numbers (List.mapM walk) p) := by
  refine .kindAt ?_
  unfold separatedUpTo
  split
  · exact .pure rfl
  · exact .widen (.separated each)

section Expressions

variable {self : Below n Expr} {inner : Parse Node}
  (inside : ∀ q (h : q.rest.length < n), q.rest.length < m →
    Follows q inner (self q.rest h) (Numbers Expr.number q))
include inside

/-- An index in brackets. -/
theorem index_follows (h : p.rest.length ≤ n) (bound : p.rest.length ≤ m)
    (here : nextKind p.rest = .leftBracket) :
    Follows p (Parse.index inner) (index self p.rest h) fun e made id =>
      ∃ node, made = some node ∧ e.number p.nextId = (node, id) := by
  refine .accept_of_next (by decide) here fun q _ h₁ opened => ?_
  refine .bind (inside q _ (by omega)) fun q₁ e node h₂ numbered => ?_
  refine .expect_bind rfl fun q₂ _ h₃ closed => ?_
  refine .pure ⟨node, rfl, ?_⟩
  rw [closed, ← opened]
  exact numbered

/-- What follows a name. -/
theorem reference_follows {us : List Token} (left : p.rest = us) (name : Token)
    (h : us.length < n) (bound : us.length ≤ m) :
    Follows p (Parse.reference inner name) ((reference self name us h).after 1)
      (Numbers Expr.number p) := by
  refine .kindAt ?_
  rw [left]
  unfold reference
  by_cases call : nextKind us = .leftParen
  · rw [if_pos call, if_pos call]
    refine .draw_bind left rfl ?_
    rintro q rfl named
    refine .advance_of_next (by decide) call fun q₁ _ _ h₁ opened => ?_
    refine .bind (separatedUpTo_follows fun q' h' => inside q' _ (by omega))
      fun q₂ arguments nodes h₂ numbered => ?_
    refine .expect_bind rfl fun q₃ _ h₃ closed => ?_
    refine .listUnlessEmpty_ok numbered fun q₄ h₄ listed => .construct ?_
    rw [Numbers, opened, named] at numbered
    simp [Numbers, Expr.number, Expr.numberAll_eq_mapM, numbered, listed, closed]
  · rw [if_neg call, if_neg call]
    refine .draw_bind left rfl ?_
    rintro q rfl named
    refine .bind (.collect (fun _ => index_stops) fun q' h' here =>
      index_follows inside _ (by omega) (of_decide_eq_true here))
      fun q₁ indices nodes h₂ numbered => ?_
    refine .listUnlessEmpty_ok numbered fun q₂ h₄ listed => .construct ?_
    rw [named] at numbered
    simp [Numbers, Expr.number, Expr.numberAll_eq_mapM, numbered, listed]

/-- A literal, a name with what follows it, or an expression in parentheses. -/
theorem primary_follows {us : List Token} (left : p.rest = us) (h : us.length ≤ n)
    (bound : us.length ≤ m) :
    Follows p (Parse.primary inner) (primary self us h) (Numbers Expr.number p) := by
  refine .kindAt ?_
  rw [left]
  cases us with
  | nil => exact .error left
  | cons t us =>
      rw [nextKind_cons]
      cases kind : t.kind <;> simp only [primary, kind]
      case intLiteral | realLiteral | boolLiteral =>
        refine .advance_numbers left ?_
        rintro q rfl
        refine .draw_ok rfl fun q₁ h₁ drawn => .construct ?_
        simp [Numbers, Expr.number, Numbered.leaf, drawn]
      case identifier =>
        refine .advance_numbers left fun q rest => ?_
        exact reference_follows inside rest.symm t h (Nat.le_of_succ_le bound)
      case leftParen =>
        refine .advance_numbers left ?_
        rintro q rfl
        refine .bind (inside q h bound) fun q₁ e node h₁ numbered => ?_
        refine .expect_bind rfl fun q₂ _ h₂ closed => .pure ?_
        rw [closed]
        exact numbered
      all_goals exact .error left

end Expressions

/-- A prefix operator and what it applies to, or a primary. -/
theorem unary_eq (self : Below n Expr) (us : List Token) (h : us.length ≤ n) :
    unary self us h =
      if TokenKind.isUnary (nextKind us) then
        (takeIf TokenKind.isUnary .expression us).node.bind fun operator rest h₁ =>
        (unary self rest (Nat.le_of_lt (length_lt_of_le h h₁))).bind fun e rest h₂ =>
        .ok (.unary operator e) rest 1 (length_lt_two h₁ h₂)
      else primary self us h := by
  rw [unary, whileNext]
  split
  · simp only [unary, bind_assoc, ok_bind, after_zero]
    rfl
  · rw [ok_bind, after_zero]
    exact bind_ok _

/-- An operator with the operand behind it, numbered behind an operand. -/
def numberOperation (left : Node) (operation : Token × Expr) : Numbered Node := do
  let operator ← Numbered.terminal "Operator" operation.1
  let right ← operation.2.number
  Numbered.construct .binary [left, operator, right]

theorem number_joinLeft (first : Expr) (others : List (Token × Expr)) (id : NodeId) :
    (joinLeft first others).number id =
      others.foldlM numberOperation (first.number id).1 (first.number id).2 := by
  induction others generalizing first id with
  | nil => rfl
  | cons operation others ih =>
      rw [List.foldlM_cons]
      show (joinLeft (.binary first operation.1 operation.2) others).number id = _
      rw [ih, Expr.number]
      rfl

/-- An operator of a level with the operand behind it. -/
theorem operation_follows {level : Nat} {left : Node} {inner : Parse Node}
    {reply : (us : List Token) → us.length ≤ n → Reply Expr us.length}
    (operand : ∀ q h, q.rest.length < p.rest.length →
      Follows q inner (reply q.rest h) (Numbers Expr.number q))
    (h : p.rest.length ≤ n) (here : decide ((nextKind p.rest).level = level + 1) = true) :
    Follows p (Parse.operation (level + 1) inner left) (operation (level + 1) reply p.rest h)
      fun v next id => ∃ node, next = some node ∧ numberOperation left v p.nextId = (node, id) := by
  have mark : decide (TokenKind.eof.level = level + 1) = false :=
    decide_eq_false (Nat.succ_ne_zero level).symm
  rw [operation, node_bind]
  refine .acceptIf_of_next mark here fun q operator h₁ taken => ?_
  refine .drawn rfl ?_
  have less : (q.take [] 1).rest.length < p.rest.length := h₁
  have named : (q.take [] 1).nextId = p.nextId + 1 := congrArg (· + 1) taken
  refine .bind (operand _ (by omega) less) fun q₁ right node h₂ numbered => ?_
  refine .draw_ok rfl fun q₂ h₃ drawn => .pure ⟨_, rfl, ?_⟩
  rw [Numbers, named] at numbered
  simp [numberOperation, numbered, taken, drawn]

theorem operation_stops {level : Nat} {left : Node} {inner : Parse Node}
    (elsewhere : decide ((nextKind p.rest).level = level) = false) :
    (Parse.operation level inner left).run p = (some none, p) :=
  run_bind_some (run_acceptIf_of_stops elsewhere)

section Levels

variable {self : Below n Expr} {levels : Nat → Parse Node}
  (loose : ∀ q (h : q.rest.length < n), q.rest.length < m →
    Follows q (levels loosestLevel) (self q.rest h) (Numbers Expr.number q))
  (tight : ∀ q (h : q.rest.length ≤ n), q.rest.length < m →
    Follows q (levels 0) (unary self q.rest h) (Numbers Expr.number q))
include loose tight

/-- Prefix operators and a primary. -/
theorem unary_follows (h : p.rest.length ≤ n) (bound : p.rest.length ≤ m) :
    Follows p (Parse.unary levels) (unary self p.rest h) (Numbers Expr.number p) := by
  rw [unary_eq]
  by_cases invited : TokenKind.isUnary (nextKind p.rest)
  · rw [if_pos invited, node_bind]
    refine .acceptIf_of_next rfl invited fun q operator h₁ taken => ?_
    refine .drawn rfl ?_
    have less : (q.take [] 1).rest.length < p.rest.length := h₁
    have named : (q.take [] 1).nextId = p.nextId + 1 := congrArg (· + 1) taken
    refine .bind (tight _ (by omega) (by omega)) fun q₁ e node h₂ numbered => .construct ?_
    rw [Numbers, named] at numbered
    simp [Numbers, Expr.number, numbered, taken]
  · rw [if_neg invited]
    refine .acceptIf_of_not_next (Bool.eq_false_iff.mpr invited) ?_
    exact primary_follows loose rfl h bound

/-- Operands with operators of a level between them. -/
theorem binary_follows (level : Nat) (h : p.rest.length ≤ n) (bound : p.rest.length ≤ m) :
    Follows p (Parse.binary levels level) (binary self level p.rest h) (Numbers Expr.number p) := by
  induction level generalizing p with
  | zero => exact unary_follows loose tight h bound
  | succ level ih =>
      refine .bind (ih h bound) fun q first left h₁ numbered => ?_
      have goes : ∀ q' (node : Node) (h' : q'.rest.length < q.rest.length + 1),
          decide ((nextKind q'.rest).level = level + 1) = true →
          Follows q' (Parse.operation (level + 1) (Parse.binary levels level) node)
            (operation (level + 1) (binary self level) q'.rest (by omega)) fun v next id =>
              ∃ joined, next = some joined ∧ numberOperation node v q'.nextId = (joined, id) :=
        fun q' node h' here => operation_follows (fun q'' h'' _ => ih h'' (by omega)) _ here
      refine .finish (.loop (fun _ _ => operation_stops) goes) fun others joined id folded => ?_
      rw [Numbers, number_joinLeft, numbered]
      exact folded

end Levels

end Grammar

open Grammar

/-- **Operands of every level**, also where more tokens are allowed inside than are left. -/
theorem operand_follows (n : Nat) (p : Parser) (level : Nat) (h : p.rest.length ≤ n) :
    Follows p (Parse.operand level) (binary (innerExpr n) level p.rest h)
      (Numbers Expr.number p) := by
  refine .recursive fun levels same => ?_
  refine binary_follows (fun q _ shorter => ?_) (fun q bounded shorter => ?_) level h
    (Nat.le_refl _)
  · have follows := operand_follows q.rest.length q loosestLevel (Nat.le_refl _)
    rw [← expression_eq] at follows
    exact follows.congr (same _ _ shorter)
  · exact (operand_follows n q 0 bounded).congr (same _ _ shorter)
termination_by p.rest.length

/-- **Asked for an expression, a parser does what the reply of the grammar says.** -/
theorem expression_follows (p : Parser) :
    Follows p Parse.expression (expression p.rest) (Numbers Expr.number p) := by
  rw [expression_eq]
  exact operand_follows _ p loosestLevel (Nat.le_refl _)

end BlockSyntax
