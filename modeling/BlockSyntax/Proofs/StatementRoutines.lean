import BlockSyntax.Grammar.Statement
import BlockSyntax.Proofs.Reply

/-!
# The routines of the statement grammar

What every routine that reads a statement gives, as an equivalence over the parts it
reads.  Expressions are given by the relation `ReadsExpr`, and the statements inside a
statement by `Inside self`.
-/

set_option autoImplicit false

namespace BlockSyntax

open Reply

/-- The expression is read from the front of the tokens. -/
def ReadsExpr (e : Expr) (us rest : List Token) : Prop := (expression us).Gives e rest

namespace Grammar

variable {n : Nat} {self : Below n Stmt}

/-! ## Statements without statements inside -/

theorem gives_parenthesized {before inside : Part} {tokens rest : List Token} {e : Expr} :
    (parenthesized before inside tokens).Gives e rest ↔
      Parenthesized ReadsExpr e tokens rest := by
  unfold parenthesized
  refine (gives_enclosed (fun _ _ _ => gives_takeAfter) (fun _ _ _ => gives_takeAfter) ?_).trans
    exists_eq_left
  exact fun _ _ _ _ _ _ => Iff.rfl

theorem gives_dimension {tokens rest : List Token} {t : Token} :
    (dimension tokens).Gives t rest ↔ Bracketed (Next (· = .intLiteral)) t tokens rest := by
  unfold dimension
  refine (gives_enclosed (fun _ _ _ => gives_take) (fun _ _ _ => gives_takeAfter) ?_).trans
    exists_eq_left
  intro us _ t closing rest _
  rw [gives_node, gives_node, gives_takeIf, decide_eq_true_eq, Next]

theorem invited_dimension {tokens rest : List Token} {t : Token} :
    decide (nextKind tokens = .leftBracket) = true ∧ (dimension tokens).Gives t rest ↔
      Bracketed (Next (· = .intLiteral)) t tokens rest := by
  rw [gives_dimension, and_iff_right_of_imp]
  rintro ⟨opening, _, _, rfl, opens, _⟩
  exact decide_eq_true opens

theorem gives_declaration {type : Token} {tokens rest : List Token} {s : Stmt} :
    (declaration type tokens).Gives s rest ↔
      ∃ dimensions names mid semicolon, s = .declaration type dimensions names ∧
        Repeats (Bracketed (Next (· = .intLiteral))) dimensions tokens mid ∧
        nextKind mid ≠ .leftBracket ∧
        Separated (Next (· = .identifier)) names mid (semicolon :: rest) ∧
        semicolon.kind = .semicolon := by
  unfold declaration
  constructor
  · simp only [gives_bind, gives_takeAfter, gives_ok,
      gives_whileNext (p := (· = .leftBracket)) (R := Bracketed (Next (· = .intLiteral)))
        fun _ _ _ _ => invited_dimension,
      gives_separated (R := Next (· = .identifier)) fun _ _ _ _ => gives_takeName_node]
    rintro ⟨dimensions, mid, _, ⟨repeats, stops⟩, names, us, _, ⟨separated, _⟩, semicolon, vs, _,
      ⟨rfl, kind⟩, rfl, rfl⟩
    exact ⟨_, _, _, _, rfl, repeats, by simpa using stops, separated, kind⟩
  · rintro ⟨dimensions, names, mid, semicolon, rfl, repeats, stops, separated, kind⟩
    refine Gives.bind (a := dimensions) (u := mid) ?_ fun _ =>
      Gives.bind (a := names) (u := semicolon :: rest) ?_ fun _ =>
      (gives_takeAfter.mpr ⟨rfl, kind⟩).bind fun _ => ⟨rfl, rfl⟩
    · rw [gives_whileNext (p := (· = .leftBracket)) fun _ _ _ _ => invited_dimension]
      exact ⟨repeats, by simpa using stops⟩
    · rw [gives_separated fun _ _ _ _ => gives_takeName_node]
      exact ⟨separated, by simp [kind]⟩

theorem gives_print {tokens rest : List Token} {s : Stmt} :
    (print tokens).Gives s rest ↔ ∃ value semicolon, s = .print value ∧
      Parenthesized ReadsExpr value tokens (semicolon :: rest) ∧ semicolon.kind = .semicolon := by
  unfold print
  constructor
  · simp only [gives_bind, gives_parenthesized, gives_takeAfter, gives_ok]
    rintro ⟨value, mid, _, inside, semicolon, us, _, ⟨rfl, kind⟩, rfl, rfl⟩
    exact ⟨_, _, rfl, inside, kind⟩
  · rintro ⟨value, semicolon, rfl, inside, kind⟩
    refine (gives_parenthesized.mpr inside).bind fun _ => ?_
    exact (gives_takeAfter.mpr ⟨rfl, kind⟩).bind fun _ => ⟨rfl, rfl⟩

theorem gives_read {tokens rest : List Token} {s : Stmt} :
    (read tokens).Gives s rest ↔ ∃ target semicolon, s = .read target ∧
      Parenthesized ReadsExpr target tokens (semicolon :: rest) ∧ semicolon.kind = .semicolon := by
  unfold read
  constructor
  · simp only [gives_bind, gives_parenthesized, gives_takeAfter, gives_ok]
    rintro ⟨target, mid, _, inside, semicolon, us, _, ⟨rfl, kind⟩, rfl, rfl⟩
    exact ⟨_, _, rfl, inside, kind⟩
  · rintro ⟨target, semicolon, rfl, inside, kind⟩
    refine (gives_parenthesized.mpr inside).bind fun _ => ?_
    exact (gives_takeAfter.mpr ⟨rfl, kind⟩).bind fun _ => ⟨rfl, rfl⟩

theorem gives_resultValue {tokens rest : List Token} {value : Option Expr} :
    (resultValue tokens).Gives value rest ↔
      (value = none ∧ endsResult (nextKind tokens) ∧ tokens = rest) ∨
        ∃ e, value = some e ∧ ¬ endsResult (nextKind tokens) ∧ ReadsExpr e tokens rest := by
  unfold resultValue
  split
  case isTrue ends => simp [ends, eq_comm]
  case isFalse more => simp [more, ReadsExpr, eq_comm]

theorem gives_result {tokens rest : List Token} {s : Stmt} :
    (result tokens).Gives s rest ↔ ∃ value mid, s = .result value ∧
      (resultValue tokens).Gives value mid ∧
      ((nextKind mid = .kwEnd ∨ nextKind mid = .eof) ∧ mid = rest ∨
        ∃ semicolon, mid = semicolon :: rest ∧ semicolon.kind = .semicolon) := by
  unfold result
  constructor
  · rw [gives_bind]
    rintro ⟨value, mid, _, gives, behind⟩
    split at behind
    case isTrue ends =>
      obtain ⟨rfl, rfl⟩ := behind
      exact ⟨_, _, rfl, gives, .inl ⟨ends, rfl⟩⟩
    case isFalse =>
      simp only [gives_bind, gives_takeAfter, gives_ok] at behind
      obtain ⟨semicolon, us, _, ⟨rfl, kind⟩, rfl, rfl⟩ := behind
      exact ⟨_, _, rfl, gives, .inr ⟨_, rfl, kind⟩⟩
  · rintro ⟨value, mid, rfl, gives, ⟨ends, rfl⟩ | ⟨semicolon, rfl, kind⟩⟩
    · refine gives.bind fun _ => ?_
      rw [if_pos ends]
      exact ⟨rfl, rfl⟩
    · refine gives.bind fun _ => ?_
      rw [if_neg (by simp [kind])]
      exact (gives_takeAfter.mpr ⟨rfl, kind⟩).bind fun _ => ⟨rfl, rfl⟩

theorem gives_assignmentOrEvaluation {tokens rest : List Token} {s : Stmt} :
    (assignmentOrEvaluation tokens).Gives s rest ↔
      (∃ value target arrow semicolon us, s = .assignment value target ∧
        ReadsExpr value tokens (arrow :: us) ∧ arrow.kind = .assignArrow ∧
        ReadsExpr target us (semicolon :: rest) ∧ semicolon.kind = .semicolon) ∨
      ∃ value semicolon, s = .evaluation value ∧ ReadsExpr value tokens (semicolon :: rest) ∧
        semicolon.kind = .semicolon := by
  unfold assignmentOrEvaluation
  constructor
  · rw [gives_bind]
    rintro ⟨value, mid, _, gives, behind⟩
    split at behind
    case isTrue =>
      simp only [gives_bind, gives_take, gives_takeAfter, gives_ok] at behind
      obtain ⟨arrow, us, _, ⟨rfl, arrowKind⟩, target, vs, _, targetGives, semicolon, ws, _,
        ⟨rfl, kind⟩, rfl, rfl⟩ := behind
      exact .inl ⟨_, _, _, _, _, rfl, gives, arrowKind, targetGives, kind⟩
    case isFalse =>
      simp only [gives_bind, gives_takeAfter, gives_ok] at behind
      obtain ⟨semicolon, us, _, ⟨rfl, kind⟩, rfl, rfl⟩ := behind
      exact .inr ⟨_, _, rfl, gives, kind⟩
  · rintro (⟨value, target, arrow, semicolon, us, rfl, gives, arrowKind, targetGives, kind⟩ |
      ⟨value, semicolon, rfl, gives, kind⟩)
    · refine Gives.bind gives fun _ => ?_
      rw [nextKind_cons, if_pos arrowKind]
      refine (gives_take.mpr ⟨rfl, arrowKind⟩).bind fun _ => Gives.bind targetGives fun _ => ?_
      exact (gives_takeAfter.mpr ⟨rfl, kind⟩).bind fun _ => ⟨rfl, rfl⟩
    · refine Gives.bind gives fun _ => ?_
      rw [if_neg (by simp [kind])]
      exact (gives_takeAfter.mpr ⟨rfl, kind⟩).bind fun _ => ⟨rfl, rfl⟩

/-! ## Statements with statements inside -/

/-- A further condition with its body. -/
def OrIf (R : Stmt → List Token → List Token → Prop) (branch : Expr × Stmt)
    (us rest : List Token) : Prop :=
  ∃ word next vs mid, us = word :: next :: vs ∧ word.kind = .kwOr ∧ next.kind = .kwIf ∧
    Parenthesized ReadsExpr branch.1 vs mid ∧ R branch.2 mid rest

/-- The body for when no condition holds, which is there when its word is. -/
def Otherwise (R : Stmt → List Token → List Token → Prop) (last : Option Stmt)
    (us rest : List Token) : Prop :=
  (last = none ∧ nextKind us ≠ .kwElse ∧ us = rest) ∨
    ∃ body word vs, last = some body ∧ us = word :: vs ∧ word.kind = .kwElse ∧ R body vs rest

/-- A token of a kind, which is taken when it is there. -/
def IfNext (k : TokenKind) (us rest : List Token) : Prop :=
  (∃ t, us = t :: rest ∧ t.kind = k) ∨ (us = rest ∧ nextKind us ≠ k)

theorem gives_orIf {tokens : List Token} {h : tokens.length ≤ n} {branch : Expr × Stmt}
    {rest : List Token} :
    (orIf self tokens h).Gives branch rest ↔ OrIf (Inside self) branch tokens rest := by
  unfold orIf
  constructor
  · simp only [gives_bind, gives_take, gives_takeAfter, gives_parenthesized, gives_ok]
    rintro ⟨word, us, _, ⟨rfl, wordKind⟩, next, vs, _, ⟨rfl, nextKind⟩, condition, mid, _, inside,
      body, last, _, gives, rfl, rfl⟩
    exact ⟨_, _, _, _, rfl, wordKind, nextKind, inside, _, gives⟩
  · rintro ⟨word, next, vs, mid, rfl, wordKind, nextKind, inside, _, gives⟩
    refine (gives_take.mpr ⟨rfl, wordKind⟩).bind fun _ => ?_
    refine (gives_takeAfter.mpr ⟨rfl, nextKind⟩).bind fun _ => ?_
    refine (gives_parenthesized.mpr inside).bind fun _ => ?_
    exact gives.bind fun _ => ⟨rfl, rfl⟩

theorem invited_orIf {tokens : List Token} {h : tokens.length ≤ n} {branch : Expr × Stmt}
    {rest : List Token} :
    decide (nextKind tokens = .kwOr) = true ∧ (orIf self tokens h).Gives branch rest ↔
      OrIf (Inside self) branch tokens rest := by
  rw [gives_orIf, and_iff_right_of_imp]
  rintro ⟨word, _, _, _, rfl, kind, _⟩
  exact decide_eq_true kind

theorem gives_otherwise {tokens : List Token} {h : tokens.length ≤ n} {last : Option Stmt}
    {rest : List Token} :
    (otherwise self tokens h).Gives last rest ↔ Otherwise (Inside self) last tokens rest := by
  unfold otherwise
  split
  case isTrue present =>
    constructor
    · simp only [gives_bind, gives_take, gives_ok]
      rintro ⟨word, us, _, ⟨rfl, kind⟩, body, mid, _, gives, rfl, rfl⟩
      exact .inr ⟨_, _, _, rfl, rfl, kind, _, gives⟩
    · rintro (⟨_, absent, _⟩ | ⟨body, word, vs, rfl, rfl, kind, _, gives⟩)
      · exact absurd present absent
      · refine (gives_take.mpr ⟨rfl, kind⟩).bind fun _ => ?_
        exact gives.bind fun _ => ⟨rfl, rfl⟩
  case isFalse absent =>
    rw [gives_ok]
    constructor
    · rintro ⟨rfl, rfl⟩
      exact .inl ⟨rfl, absent, rfl⟩
    · rintro (⟨rfl, _, rfl⟩ | ⟨_, word, _, _, rfl, kind, _⟩)
      · exact ⟨rfl, rfl⟩
      · exact absurd kind absent

/-- What stands behind `if`: a conditional goes on as long as its words come, and takes the
`end` behind it. -/
inductive ReadsConditional (R : Stmt → List Token → List Token → Prop) :
    Stmt → List Token → List Token → Prop where
  | mk {condition : Expr} {body : Stmt} {orIfs : List (Expr × Stmt)} {last : Option Stmt}
      {us vs ws xs ys rest : List Token} (inside : Parenthesized ReadsExpr condition us vs)
      (branch : R body vs ws) (branches : Repeats (OrIf R) orIfs ws xs)
      (stops : nextKind xs ≠ .kwOr) (otherwise : Otherwise R last xs ys)
      (ends : IfNext .kwEnd ys rest) :
      ReadsConditional R (.conditional condition body orIfs last) us rest

theorem gives_conditional {tokens : List Token} {h : tokens.length ≤ n} {s : Stmt}
    {rest : List Token} :
    (conditional self tokens h).Gives s rest ↔ ReadsConditional (Inside self) s tokens rest := by
  have ended : TokenKind.kwEnd ≠ .eof := by decide
  unfold conditional
  constructor
  · intro gives
    obtain ⟨condition, us, _, inside, gives⟩ := gives_bind.mp gives
    obtain ⟨body, vs, _, branch, gives⟩ := gives_bind.mp gives
    obtain ⟨orIfs, ws, _, branches, gives⟩ := gives_bind.mp gives
    obtain ⟨last, xs, _, otherwise, gives⟩ := gives_bind.mp gives
    obtain ⟨_, ys, _, skipped, gives⟩ := gives_bind.mp gives
    obtain ⟨rfl, rfl⟩ := gives_ok.mp gives
    rw [gives_whileNext (p := (· = .kwOr)) fun _ _ _ _ => invited_orIf] at branches
    refine .mk (gives_parenthesized.mp inside) ⟨_, branch⟩ branches.1
      (by simpa using branches.2) (gives_otherwise.mp otherwise) ?_
    rcases (gives_skip ended).mp skipped with ⟨_, taken⟩ | ⟨_, same, absent⟩
    · exact .inl taken
    · exact .inr ⟨same, absent⟩
  · rintro ⟨inside, ⟨_, branch⟩, branches, stops, otherwise, ends⟩
    refine (gives_parenthesized.mpr inside).bind fun _ => branch.bind fun _ => ?_
    refine Gives.bind ((gives_whileNext fun _ _ _ _ => invited_orIf).mpr
      ⟨branches, by simpa using stops⟩) fun _ => ?_
    refine (gives_otherwise.mpr otherwise).bind fun _ => ?_
    rcases ends with taken | ⟨same, absent⟩
    · exact ((gives_skip ended).mpr (.inl ⟨rfl, taken⟩)).bind fun _ => ⟨rfl, rfl⟩
    · exact ((gives_skip ended).mpr (.inr ⟨rfl, same, absent⟩)).bind fun _ => ⟨rfl, rfl⟩

/-- An `end` commits to the word behind it. -/
theorem gives_closing {k : TokenKind} {tokens rest : List Token} {u : Unit} :
    (closing k tokens).Gives u rest ↔
      (∃ ended word, tokens = ended :: word :: rest ∧ ended.kind = .kwEnd ∧ word.kind = k) ∨
        (tokens = rest ∧ nextKind tokens ≠ .kwEnd) := by
  have ended : TokenKind.kwEnd ≠ .eof := by decide
  unfold closing
  constructor
  · simp only [gives_bind, gives_skip ended]
    rintro ⟨skipped, mid, _, ⟨rfl, t, rfl, kind⟩ | ⟨rfl, rfl, absent⟩, behind⟩
    · rw [if_pos rfl, gives_widen, gives_map] at behind
      obtain ⟨word, _, taken⟩ := behind
      obtain ⟨rfl, wordKind⟩ := gives_takeAfter.mp taken
      exact .inl ⟨_, _, rfl, kind, wordKind⟩
    · exact .inr ⟨behind.2, absent⟩
  · rintro (⟨t, word, rfl, kind, wordKind⟩ | ⟨rfl, absent⟩)
    · refine ((gives_skip ended).mpr (.inl ⟨rfl, t, rfl, kind⟩)).bind fun _ => ?_
      rw [if_pos rfl, gives_widen, gives_map]
      exact ⟨word, rfl, gives_takeAfter.mpr ⟨rfl, wordKind⟩⟩
    · exact ((gives_skip ended).mpr (.inr ⟨rfl, rfl, absent⟩)).bind fun _ => ⟨rfl, rfl⟩

/-- What stands behind `for`. -/
inductive ReadsLoop (R : Stmt → List Token → List Token → Prop) :
    Stmt → List Token → List Token → Prop where
  | mk {counter opening goes start bound close : Token} {lower upper : Expr} {body : Stmt}
      {us vs ws xs rest : List Token} (opens : opening.kind = .leftParen)
      (name : counter.kind = .identifier) (goesKind : goes.kind = .kwGoes)
      (startKind : start.kind = .kwFrom) (lowerReads : ReadsExpr lower us (bound :: vs))
      (boundKind : bound.kind = .kwTo) (upperReads : ReadsExpr upper vs (close :: ws))
      (closes : close.kind = .rightParen) (branch : R body ws xs)
      (ends : (closing .kwFor xs).Gives () rest) :
      ReadsLoop R (.loop counter lower upper body) (opening :: counter :: goes :: start :: us) rest

theorem gives_loop {tokens : List Token} {h : tokens.length ≤ n} {s : Stmt} {rest : List Token} :
    (loop self tokens h).Gives s rest ↔ ReadsLoop (Inside self) s tokens rest := by
  unfold loop
  constructor
  · intro gives
    obtain ⟨opening, _, _, taken, gives⟩ := gives_bind.mp gives
    obtain ⟨rfl, opens⟩ := gives_takeAfter.mp taken
    obtain ⟨counter, _, _, taken, gives⟩ := gives_bind.mp gives
    obtain ⟨rfl, name⟩ := gives_takeName.mp taken
    obtain ⟨goes, _, _, taken, gives⟩ := gives_bind.mp gives
    obtain ⟨rfl, goesKind⟩ := gives_take.mp taken
    obtain ⟨start, us, _, taken, gives⟩ := gives_bind.mp gives
    obtain ⟨rfl, startKind⟩ := gives_take.mp taken
    obtain ⟨lower, _, _, lowerReads, gives⟩ := gives_bind.mp gives
    obtain ⟨bound, vs, _, taken, gives⟩ := gives_bind.mp gives
    obtain ⟨rfl, boundKind⟩ := gives_take.mp taken
    obtain ⟨upper, _, _, upperReads, gives⟩ := gives_bind.mp gives
    obtain ⟨close, ws, _, taken, gives⟩ := gives_bind.mp gives
    obtain ⟨rfl, closes⟩ := gives_takeAfter.mp taken
    obtain ⟨body, xs, _, branch, gives⟩ := gives_bind.mp gives
    obtain ⟨_, _, _, ends, gives⟩ := gives_bind.mp gives
    obtain ⟨rfl, rfl⟩ := gives_ok.mp gives
    exact .mk opens name goesKind startKind lowerReads boundKind upperReads closes ⟨_, branch⟩ ends
  · rintro ⟨opens, name, goesKind, startKind, lowerReads, boundKind, upperReads, closes,
      ⟨_, branch⟩, ends⟩
    refine (gives_takeAfter.mpr ⟨rfl, opens⟩).bind fun _ => ?_
    refine (gives_takeName.mpr ⟨rfl, name⟩).bind fun _ => ?_
    refine (gives_take.mpr ⟨rfl, goesKind⟩).bind fun _ => ?_
    refine (gives_take.mpr ⟨rfl, startKind⟩).bind fun _ => ?_
    refine Gives.bind lowerReads fun _ => ?_
    refine (gives_take.mpr ⟨rfl, boundKind⟩).bind fun _ => ?_
    refine Gives.bind upperReads fun _ => ?_
    refine (gives_takeAfter.mpr ⟨rfl, closes⟩).bind fun _ => ?_
    exact branch.bind fun _ => ends.bind fun _ => ⟨rfl, rfl⟩

/-- A statement in a block, which neither `end` nor the end of the source precedes. -/
def InBlock (R : Stmt → List Token → List Token → Prop) (s : Stmt) (us rest : List Token) : Prop :=
  nextKind us ≠ .kwEnd ∧ nextKind us ≠ .eof ∧ R s us rest

/-- What stands behind the `begin` of a block. -/
inductive ReadsBlock (R : Stmt → List Token → List Token → Prop) :
    Stmt → List Token → List Token → Prop where
  | mk {body : List Stmt} {ended : Token} {us rest : List Token}
      (inside : Repeats (InBlock R) body us (ended :: rest)) (endKind : ended.kind = .kwEnd) :
      ReadsBlock R (.block body) us rest

theorem gives_block {tokens : List Token} {h : tokens.length < n} {s : Stmt} {rest : List Token} :
    (block self tokens h).Gives s rest ↔ ReadsBlock (Inside self) s tokens rest := by
  have reads : ∀ (us : List Token) (shorter : us.length < tokens.length + 1) (s : Stmt)
      (vs : List Token), decide (nextKind us ≠ .kwEnd ∧ nextKind us ≠ .eof) = true ∧
        (self us (by omega)).Gives s vs ↔ InBlock (Inside self) s us vs := by
    intro us shorter s vs
    rw [decide_eq_true_eq, inside_iff, and_assoc]
    rfl
  unfold block
  constructor
  · intro gives
    obtain ⟨body, _, _, inside, gives⟩ := gives_bind.mp gives
    obtain ⟨ended, _, _, taken, gives⟩ := gives_bind.mp gives
    obtain ⟨rfl, endKind⟩ := gives_take.mp taken
    obtain ⟨rfl, rfl⟩ := gives_ok.mp gives
    rw [gives_whileNext (p := fun k => k ≠ .kwEnd ∧ k ≠ .eof) reads] at inside
    exact .mk inside.1 endKind
  · rintro ⟨inside, endKind⟩
    refine Gives.bind ?_ fun _ => (gives_take.mpr ⟨rfl, endKind⟩).bind fun _ => ⟨rfl, rfl⟩
    rw [gives_whileNext (p := fun k => k ≠ .kwEnd ∧ k ≠ .eof) reads]
    exact ⟨inside, by simp [endKind]⟩

theorem gives_begun_if {t : Token} {tokens : List Token} {h : (t :: tokens).length < n} {s : Stmt}
    {rest : List Token} (kind : t.kind = .kwIf) :
    (begun self (t :: tokens) h).Gives s rest ↔
      ∃ bound, (conditional self tokens bound).Gives s rest := by
  unfold begun
  simp only [nextKind_cons, kind]
  constructor
  · simp only [gives_bind, gives_take, gives_widen]
    rintro ⟨_, _, _, ⟨same, _⟩, gives⟩
    cases same
    exact ⟨_, gives⟩
  · rintro ⟨_, gives⟩
    refine (gives_take.mpr ⟨rfl, kind⟩).bind fun _ => ?_
    exact gives_widen.mpr gives

theorem gives_begun_for {t : Token} {tokens : List Token} {h : (t :: tokens).length < n} {s : Stmt}
    {rest : List Token} (kind : t.kind = .kwFor) :
    (begun self (t :: tokens) h).Gives s rest ↔
      ∃ bound, (loop self tokens bound).Gives s rest := by
  unfold begun
  simp only [nextKind_cons, kind]
  constructor
  · simp only [gives_bind, gives_take, gives_widen]
    rintro ⟨_, _, _, ⟨same, _⟩, gives⟩
    cases same
    exact ⟨_, gives⟩
  · rintro ⟨_, gives⟩
    refine (gives_take.mpr ⟨rfl, kind⟩).bind fun _ => ?_
    exact gives_widen.mpr gives

theorem gives_begun_block {tokens : List Token} {h : tokens.length < n} {s : Stmt}
    {rest : List Token} (notIf : nextKind tokens ≠ .kwIf) (notFor : nextKind tokens ≠ .kwFor) :
    (begun self tokens h).Gives s rest ↔ (block self tokens h).Gives s rest := by
  unfold begun
  split
  case h_1 kind => exact absurd kind notIf
  case h_2 kind => exact absurd kind notFor
  case h_3 => exact Iff.rfl

/-! ## The first token of a statement -/

section FirstToken

variable {t : Token} {us rest : List Token} {h : (t :: us).length ≤ n} {s : Stmt}

theorem gives_statement_begin (kind : t.kind = .kwBegin) :
    (statementAround self (t :: us) h).Gives s rest ↔ (begun self us h).Gives s rest := by
  simp only [statementAround, kind]

theorem gives_statement_type (kind : t.kind.isType) :
    (statementAround self (t :: us) h).Gives s rest ↔ (declaration t us).Gives s rest := by
  rw [statementAround]
  split
  case h_2 | h_3 | h_4 => rw [gives_widen, gives_after]
  all_goals simp_all [TokenKind.isType]

theorem gives_statement_print (kind : t.kind = .kwPrint) :
    (statementAround self (t :: us) h).Gives s rest ↔ (print us).Gives s rest := by
  simp only [statementAround, kind, gives_widen]

theorem gives_statement_read (kind : t.kind = .kwRead) :
    (statementAround self (t :: us) h).Gives s rest ↔ (read us).Gives s rest := by
  simp only [statementAround, kind, gives_widen]

theorem gives_statement_return (kind : t.kind = .kwReturn) :
    (statementAround self (t :: us) h).Gives s rest ↔ (result us).Gives s rest := by
  simp only [statementAround, kind]

theorem gives_statement_if (kind : t.kind = .kwIf) :
    (statementAround self (t :: us) h).Gives s rest ↔
      (conditional self us (Nat.le_of_lt h)).Gives s rest := by
  simp only [statementAround, kind, gives_widen]

theorem gives_statement_for (kind : t.kind = .kwFor) :
    (statementAround self (t :: us) h).Gives s rest ↔
      (loop self us (Nat.le_of_lt h)).Gives s rest := by
  simp only [statementAround, kind, gives_widen]

end FirstToken

/-- The reserved words that say what a statement is. -/
def startsStatement : TokenKind → Bool
  | .kwBegin | .kwInt | .kwReal | .kwBool | .kwPrint | .kwRead | .kwReturn | .kwIf | .kwFor => true
  | _ => false

/-- Without such a word a statement starts with an expression. -/
theorem gives_statement_expression {tokens : List Token} {h : tokens.length ≤ n} {s : Stmt}
    {rest : List Token} (other : ¬ startsStatement (nextKind tokens)) :
    (statementAround self tokens h).Gives s rest ↔
      (assignmentOrEvaluation tokens).Gives s rest := by
  cases tokens with
  | nil => rw [statementAround]
  | cons t us =>
      rw [statementAround]
      rw [nextKind_cons] at other
      split
      case h_10 => exact Iff.rfl
      all_goals simp_all [startsStatement]

end Grammar

end BlockSyntax
