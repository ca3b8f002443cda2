import BlockSyntax.Proofs.Delimited
import BlockSyntax.Proofs.ExpressionRendering

/-!
# Canonical renderings are read back

A statement in its canonical layout is delimited (`Stmt.delimited_layout`), and so it is read back
whatever stands behind it.  What the construct around it still needs is that the statement starts
with a token that the construct does not take for its own, and the tokens that a canonical
statement starts with are none of them (`TokenKind.startsCanonical`).

From the items of a program the whole program follows, and from the program the tree that
a session answers with.
-/

set_option autoImplicit false

namespace BlockSyntax

open Layout Grammar Reply

/-! ## Expressions -/

theorem Expr.derives_layout {e : Expr} {us rest : List Token} (wellFormed : e.WellFormed)
    (laidOut : LaidOut e.layout us rest) : DerivesExpr e us rest := by
  obtain ⟨used, rfl, spells⟩ := e.spells_layout wellFormed laidOut
  exact ⟨used, rfl, spells.mono e.level_le_loosestLevel⟩

/-! ## Lists -/

/-- Items are read back with commas between them when each of them is. -/
theorem separated_of_laidOut {α : Type} {layout : α → Layout}
    {R : α → List Token → List Token → Prop} {as : List α} {us rest : List Token}
    (each : ∀ a ∈ as, ∀ us rest, LaidOut (layout a) us rest → R a us rest) (filled : as ≠ [])
    (laidOut : LaidOut (commas (as.map layout)) us rest) : Separated R as us rest := by
  induction as generalizing us with
  | nil => exact absurd rfl filled
  | cons a as ih =>
      cases as with
      | nil => exact .last (each a List.mem_cons_self us rest laidOut)
      | cons b bs =>
          obtain ⟨mid, front, behind⟩ := laidOut_append.mp laidOut
          obtain ⟨comma, vs, rfl, between, back⟩ := laidOut_mark.mp behind
          have tail := ih (fun c inside => each c (List.mem_cons_of_mem a inside))
            (List.cons_ne_nil b bs) back
          exact .more (each a List.mem_cons_self us _ front) between tail

theorem next_of_laidOut {test : TokenKind → Prop} {t : Token} {us rest : List Token}
    (passes : test t.kind) (laidOut : LaidOut [.token t] us rest) : Next test t us rest := by
  obtain ⟨vs, rfl, behind⟩ := laidOut_token.mp laidOut
  obtain rfl := laidOut_nil.mp behind
  exact ⟨rfl, passes⟩

theorem names_of_laidOut {ts us rest : List Token} (named : ∀ t ∈ ts, t.kind = .identifier)
    (filled : ts ≠ []) (laidOut : LaidOut (names ts) us rest) :
    Separated (Next (· = .identifier)) ts us rest :=
  separated_of_laidOut (fun t inside _ _ => next_of_laidOut (named t inside)) filled laidOut

/-- Items one after the other are read back when each of them is. -/
theorem repeats_of_laidOut {α : Type} {layout : α → Layout} {R : α → List Token → List Token → Prop}
    {as : List α} {us rest : List Token}
    (each : ∀ a ∈ as, ∀ us rest, LaidOut (layout a) us rest → R a us rest)
    (laidOut : LaidOut (as.flatMap layout) us rest) : Repeats R as us rest := by
  induction as generalizing us with
  | nil =>
      obtain rfl := laidOut_nil.mp laidOut
      exact .nil
  | cons a as ih =>
      rw [List.forall_mem_cons] at each
      rw [List.flatMap_cons, laidOut_append] at laidOut
      obtain ⟨mid, front, behind⟩ := laidOut
      exact .cons (each.1 us mid front) (ih each.2 behind)

theorem dimensions_of_laidOut {ts us rest : List Token} (sizes : ∀ t ∈ ts, t.kind = .intLiteral)
    (laidOut : LaidOut (ts.flatMap fun t => bracketed [.token t]) us rest) :
    Repeats (Bracketed (Next (· = .intLiteral))) ts us rest := by
  refine repeats_of_laidOut ?_ laidOut
  intro t inside us rest dimensionOut
  obtain ⟨opening, vs, closing, rfl, opens, sizeOut, closes⟩ := laidOut_enclosed.mp dimensionOut
  exact ⟨opening, closing, vs, rfl, opens, next_of_laidOut (sizes t inside) sizeOut, closes⟩

/-! ## First tokens -/

/-- The kinds of tokens that a statement starts with in its canonical layout. -/
def TokenKind.startsCanonical : TokenKind → Bool
  | .kwBegin | .kwInt | .kwReal | .kwBool | .kwPrint | .kwRead | .kwReturn => true
  | k => k.startsExpression

theorem TokenKind.startsCanonical_of_startsExpression {k : TokenKind}
    (starts : k.startsExpression) : k.startsCanonical := by
  revert starts
  cases k <;> decide

theorem TokenKind.startsCanonical_of_isType {k : TokenKind} (type : k.isType) :
    k.startsCanonical := by
  revert type
  cases k <;> decide

/-- The tokens by which a construct goes on or ends start no canonical statement. -/
theorem TokenKind.ne_of_startsCanonical {k other : TokenKind} (starts : k.startsCanonical)
    (fails : other.startsCanonical = false := by rfl) : k ≠ other := by
  rintro rfl
  exact absurd starts (by simp [fails])

/-- What starts with `begin function` is no statement. -/
theorem ReadsStmt.not_begin_function {s : Stmt} {t : Token} {us rest : List Token}
    (reads : ReadsStmt s (t :: us) rest) : ¬ (t.kind = .kwBegin ∧ nextKind us = .kwFunction) := by
  rintro ⟨begins, word⟩
  obtain ⟨inside, endKind⟩ :=
    (reads_begin_block begins (by simp [word]) (by simp [word])).mp reads
  cases inside with
  | nil => simp [endKind] at word
  | cons head _ =>
      have starts := head.2.2.starts
      rw [word] at starts
      simp [startsStatement, TokenKind.startsExpression, TokenKind.startsPrimary,
        TokenKind.isLiteral, TokenKind.isUnary] at starts

/-- A layout that opens with a mark starts with a token of its kind. -/
theorem nextKind_of_laidOut {k : TokenKind} {ps : Layout} {us rest : List Token}
    (laidOut : LaidOut (.mark k :: ps) us rest) : nextKind us = k := by
  obtain ⟨t, vs, rfl, kind, _⟩ := laidOut_mark.mp laidOut
  exact kind

theorem Stmt.starts_layout {s : Stmt} {us rest : List Token} (wellFormed : s.WellFormed)
    (laidOut : LaidOut s.layout us rest) : (nextKind us).startsCanonical := by
  cases s with
  | declaration type dimensions names =>
      simp only [Stmt.WellFormed] at wellFormed
      simp only [Stmt.layout, List.cons_append] at laidOut
      obtain ⟨vs, rfl, _⟩ := laidOut_token.mp laidOut
      exact TokenKind.startsCanonical_of_isType wellFormed.1
  | assignment value target =>
      simp only [Stmt.WellFormed] at wellFormed
      simp only [Stmt.layout, List.append_assoc] at laidOut
      obtain ⟨mid, front, _⟩ := laidOut_append.mp laidOut
      exact TokenKind.startsCanonical_of_startsExpression
        (Expr.derives_layout wellFormed.1 front).starts
  | evaluation value =>
      simp only [Stmt.WellFormed] at wellFormed
      rw [Stmt.layout] at laidOut
      obtain ⟨mid, front, _⟩ := laidOut_append.mp laidOut
      exact TokenKind.startsCanonical_of_startsExpression
        (Expr.derives_layout wellFormed front).starts
  | result value =>
      cases value with
      | none | some _ =>
          rw [Stmt.layout] at laidOut
          rw [nextKind_of_laidOut laidOut]
          rfl
  | print _ | read _ | conditional _ _ _ _ | loop _ _ _ _ | block _ =>
      rw [Stmt.layout] at laidOut
      rw [nextKind_of_laidOut laidOut]
      rfl

/-! ## Statements without statements inside -/

theorem delimited_declaration_layout {type : Token} {dimensions names us rest : List Token}
    (wellFormed : (Stmt.declaration type dimensions names).WellFormed)
    (laidOut : LaidOut (Stmt.declaration type dimensions names).layout us rest) :
    Delimited (.declaration type dimensions names) us rest := by
  simp only [Stmt.WellFormed] at wellFormed
  obtain ⟨typed, sizes, named, filled⟩ := wellFormed
  simp only [Stmt.layout, List.cons_append, laidOut_token, laidOut_append, laidOut_mark,
    laidOut_nil] at laidOut
  obtain ⟨_, rfl, _, ⟨mid, front, behind⟩, semicolon, after, rfl, kind, rfl⟩ := laidOut
  exact .declaration ⟨rfl, typed⟩ (dimensions_of_laidOut sizes front)
    (names_of_laidOut named filled behind) (marks_one kind)

theorem delimited_assignment_layout {value target : Expr} {us rest : List Token}
    (wellFormed : (Stmt.assignment value target).WellFormed)
    (laidOut : LaidOut (Stmt.assignment value target).layout us rest) :
    Delimited (.assignment value target) us rest := by
  simp only [Stmt.WellFormed] at wellFormed
  simp only [Stmt.layout, laidOut_append, laidOut_mark, laidOut_nil] at laidOut
  obtain ⟨_, ⟨_, front, arrow, vs, rfl, arrowKind, back⟩, semicolon, after, rfl, kind, rfl⟩ :=
    laidOut
  exact .assignment (Expr.derives_layout wellFormed.1 front) (marks_one arrowKind)
    (Expr.derives_layout wellFormed.2 back) (marks_one kind)

theorem delimited_evaluation_layout {value : Expr} {us rest : List Token}
    (wellFormed : (Stmt.evaluation value).WellFormed)
    (laidOut : LaidOut (Stmt.evaluation value).layout us rest) :
    Delimited (.evaluation value) us rest := by
  simp only [Stmt.WellFormed] at wellFormed
  simp only [Stmt.layout, laidOut_append, laidOut_mark, laidOut_nil] at laidOut
  obtain ⟨_, front, semicolon, after, rfl, kind, rfl⟩ := laidOut
  exact .evaluation (Expr.derives_layout wellFormed front) (marks_one kind)

theorem delimited_print_layout {value : Expr} {us rest : List Token}
    (wellFormed : (Stmt.print value).WellFormed)
    (laidOut : LaidOut (Stmt.print value).layout us rest) : Delimited (.print value) us rest := by
  simp only [Stmt.WellFormed] at wellFormed
  simp only [Stmt.layout, laidOut_append, laidOut_mark, laidOut_nil, laidOut_enclosed] at laidOut
  obtain ⟨_, ⟨word, _, rfl, wordKind, opening, vs, closing, rfl, opens, front, closes⟩, semicolon,
    after, rfl, kind, rfl⟩ := laidOut
  exact .print (marks_two wordKind opens) (Expr.derives_layout wellFormed front)
    (marks_two closes kind)

theorem delimited_read_layout {target : Expr} {us rest : List Token}
    (wellFormed : (Stmt.read target).WellFormed)
    (laidOut : LaidOut (Stmt.read target).layout us rest) : Delimited (.read target) us rest := by
  simp only [Stmt.WellFormed] at wellFormed
  simp only [Stmt.layout, laidOut_append, laidOut_mark, laidOut_nil, laidOut_enclosed] at laidOut
  obtain ⟨_, ⟨word, _, rfl, wordKind, opening, vs, closing, rfl, opens, front, closes⟩, semicolon,
    after, rfl, kind, rfl⟩ := laidOut
  exact .read (marks_two wordKind opens) (Expr.derives_layout wellFormed front)
    (marks_two closes kind)

theorem delimited_result_layout {value : Option Expr} {us rest : List Token}
    (wellFormed : (Stmt.result value).WellFormed)
    (laidOut : LaidOut (Stmt.result value).layout us rest) : Delimited (.result value) us rest := by
  cases value with
  | none =>
      simp only [Stmt.layout, laidOut_mark, laidOut_nil] at laidOut
      obtain ⟨word, _, rfl, wordKind, semicolon, after, rfl, kind, rfl⟩ := laidOut
      exact .result (marks_one wordKind) .none (marks_one kind)
  | some value =>
      simp only [Stmt.WellFormed] at wellFormed
      simp only [Stmt.layout, laidOut_append, laidOut_mark, laidOut_nil] at laidOut
      obtain ⟨_, ⟨word, vs, rfl, wordKind, front⟩, semicolon, after, rfl, kind, rfl⟩ := laidOut
      exact .result (marks_one wordKind) (.some (Expr.derives_layout wellFormed front))
        (marks_one kind)

/-! ## Statements with statements inside -/

/-- In front of statements stands the first token of the first one. -/
theorem Stmt.starts_layoutAll {ss : List Stmt} {us rest : List Token}
    (wellFormed : Stmt.AllWellFormed ss) (laidOut : LaidOut (Stmt.layoutAll ss) us rest) :
    us = rest ∨ (nextKind us).startsCanonical := by
  cases ss with
  | nil => exact .inl (laidOut_nil.mp laidOut)
  | cons s ss =>
      rw [Stmt.AllWellFormed] at wellFormed
      rw [Stmt.layoutAll] at laidOut
      obtain ⟨mid, front, _⟩ := laidOut_append.mp laidOut
      exact .inr (Stmt.starts_layout wellFormed.1 front)

mutual

/-- **A statement in its layout is delimited.** -/
theorem Stmt.delimited_layout : ∀ (s : Stmt), s.WellFormed → ∀ {us rest : List Token},
    LaidOut s.layout us rest → Delimited s us rest
  | .declaration _ _ _, wellFormed, _, _, laidOut => delimited_declaration_layout wellFormed laidOut
  | .assignment _ _, wellFormed, _, _, laidOut => delimited_assignment_layout wellFormed laidOut
  | .print _, wellFormed, _, _, laidOut => delimited_print_layout wellFormed laidOut
  | .read _, wellFormed, _, _, laidOut => delimited_read_layout wellFormed laidOut
  | .result _, wellFormed, _, _, laidOut => delimited_result_layout wellFormed laidOut
  | .evaluation _, wellFormed, _, _, laidOut => delimited_evaluation_layout wellFormed laidOut
  | .conditional condition body orIfs otherwise, wellFormed, us, rest, laidOut => by
      rw [Stmt.WellFormed] at wellFormed
      obtain ⟨conditionFormed, bodyFormed, orIfsFormed, otherwiseFormed⟩ := wellFormed
      simp only [Stmt.layout, laidOut_append, laidOut_mark, laidOut_nil, laidOut_enclosed]
        at laidOut
      obtain ⟨_, ⟨_, ⟨_, ⟨_, ⟨begins, _, rfl, beginsKind, word, _, rfl, kind, opening, _, closing,
        rfl, opens, inside, closes⟩, branch⟩, branches⟩, last⟩, ended, after, rfl, endKind, rfl⟩ :=
        laidOut
      exact .conditional (.inl (marks_one beginsKind)) (marks_two kind opens)
        (Expr.derives_layout conditionFormed inside) (marks_one closes)
        (body.delimited_layout bodyFormed branch)
        (Stmt.delimited_layoutOrIfs orIfs orIfsFormed branches)
        (Stmt.delimited_layoutElse otherwise otherwiseFormed last) (marks_one endKind)
  | .loop counter lower upper body, wellFormed, us, rest, laidOut => by
      rw [Stmt.WellFormed] at wellFormed
      obtain ⟨name, lowerFormed, upperFormed, bodyFormed⟩ := wellFormed
      simp only [Stmt.layout, laidOut_append, laidOut_mark, laidOut_nil, laidOut_enclosed,
        laidOut_token] at laidOut
      obtain ⟨_, ⟨_, ⟨begins, _, rfl, beginsKind, word, _, rfl, kind, inside⟩, branch⟩, ended, _,
        rfl, endKind, last, after, rfl, lastKind, rfl⟩ := laidOut
      obtain ⟨opening, _, close, rfl, opens, bounds, closes⟩ := inside
      obtain ⟨_, ⟨_, rfl, goes, _, rfl, goesKind, start, us, rfl, startKind, front⟩, bound, vs, rfl,
        boundKind, back⟩ := bounds
      exact .loop (.inl (marks_one beginsKind)) (marks_two kind opens) ⟨rfl, name⟩
        (marks_two goesKind startKind) (Expr.derives_layout lowerFormed front)
        (marks_one boundKind) (Expr.derives_layout upperFormed back) (marks_one closes)
        (body.delimited_layout bodyFormed branch) (marks_two endKind lastKind)
  | .block body, wellFormed, us, rest, laidOut => by
      rw [Stmt.WellFormed] at wellFormed
      simp only [Stmt.layout, laidOut_append, laidOut_mark, laidOut_nil] at laidOut
      obtain ⟨_, ⟨begins, vs, rfl, kind, inside⟩, ended, after, rfl, endKind, rfl⟩ := laidOut
      have first : nextKind vs = .kwEnd ∨ (nextKind vs).startsCanonical := by
        rcases Stmt.starts_layoutAll wellFormed inside with rfl | starts
        · exact .inl endKind
        · exact .inr starts
      have notIf : nextKind vs ≠ .kwIf := by
        rcases first with ends | starts
        · simp [ends]
        · exact TokenKind.ne_of_startsCanonical starts
      have notFor : nextKind vs ≠ .kwFor := by
        rcases first with ends | starts
        · simp [ends]
        · exact TokenKind.ne_of_startsCanonical starts
      exact .block (marks_one kind) notIf notFor (Stmt.delimited_layoutAll body wellFormed inside)
        (marks_one endKind)

theorem Stmt.delimited_layoutAll : ∀ (ss : List Stmt), Stmt.AllWellFormed ss →
    ∀ {us rest : List Token}, LaidOut (Stmt.layoutAll ss) us rest → DelimitedAll ss us rest
  | [], _, us, rest, laidOut => by
      rw [Stmt.layoutAll] at laidOut
      obtain rfl := laidOut_nil.mp laidOut
      exact .nil
  | s :: ss, wellFormed, us, rest, laidOut => by
      rw [Stmt.AllWellFormed] at wellFormed
      rw [Stmt.layoutAll] at laidOut
      obtain ⟨mid, front, behind⟩ := laidOut_append.mp laidOut
      exact .cons (s.delimited_layout wellFormed.1 front)
        (Stmt.delimited_layoutAll ss wellFormed.2 behind)

theorem Stmt.delimited_layoutOrIfs : ∀ (orIfs : List (Expr × Stmt)), Stmt.WellFormedOrIfs orIfs →
    ∀ {us rest : List Token}, LaidOut (Stmt.layoutOrIfs orIfs) us rest →
      DelimitedOrIfs orIfs us rest
  | [], _, us, rest, laidOut => by
      rw [Stmt.layoutOrIfs] at laidOut
      obtain rfl := laidOut_nil.mp laidOut
      exact .nil
  | (condition, body) :: orIfs, wellFormed, us, rest, laidOut => by
      rw [Stmt.WellFormedOrIfs] at wellFormed
      obtain ⟨conditionFormed, bodyFormed, orIfsFormed⟩ := wellFormed
      simp only [Stmt.layoutOrIfs, laidOut_append, laidOut_mark, laidOut_enclosed] at laidOut
      obtain ⟨_, ⟨_, ⟨word, _, rfl, wordKind, next, _, rfl, nextKind, opening, _, closing, rfl,
        opens, inside, closes⟩, branch⟩, behind⟩ := laidOut
      exact .cons ⟨word, _, rfl, wordKind, marks_two nextKind opens⟩
        (Expr.derives_layout conditionFormed inside) (marks_one closes)
        (body.delimited_layout bodyFormed branch)
        (Stmt.delimited_layoutOrIfs orIfs orIfsFormed behind)

theorem Stmt.delimited_layoutElse : ∀ (last : Option Stmt), Stmt.WellFormedElse last →
    ∀ {us rest : List Token}, LaidOut (Stmt.layoutElse last) us rest → DelimitedElse last us rest
  | none, _, us, rest, laidOut => by
      rw [Stmt.layoutElse] at laidOut
      obtain rfl := laidOut_nil.mp laidOut
      exact .none
  | some body, wellFormed, us, rest, laidOut => by
      rw [Stmt.WellFormedElse] at wellFormed
      rw [Stmt.layoutElse, laidOut_mark] at laidOut
      obtain ⟨word, vs, rfl, kind, behind⟩ := laidOut
      exact .some (marks_one kind) (body.delimited_layout wellFormed behind)

end

/-- **A statement in its layout is read back**, whatever stands behind it. -/
theorem Stmt.reads_layout {s : Stmt} {us rest : List Token} (wellFormed : s.WellFormed)
    (laidOut : LaidOut s.layout us rest) : ReadsStmt s us rest :=
  (s.delimited_layout wellFormed laidOut).reads

/-! ## Declarations -/

theorem params_of_laidOut {ps : List Param} {us rest : List Token}
    (wellFormed : ∀ p ∈ ps, p.WellFormed) (filled : ps ≠ [])
    (laidOut : LaidOut (commas (ps.map Param.layout)) us rest) :
    Separated NextParam ps us rest := by
  refine separated_of_laidOut ?_ filled laidOut
  intro p inside us rest paramOut
  obtain ⟨named, typed⟩ := wellFormed p inside
  simp only [Param.layout, laidOut_token, laidOut_mark, laidOut_nil] at paramOut
  obtain ⟨_, rfl, colon, _, rfl, kind, _, rfl, rfl⟩ := paramOut
  exact ⟨colon, rfl, named, kind, typed⟩

theorem reads_params_layout {ps : List Param} {us rest : List Token}
    (wellFormed : ∀ p ∈ ps, p.WellFormed)
    (laidOut : LaidOut (parenthesized (commas (ps.map Param.layout))) us rest) :
    (params us).Gives ps rest := by
  obtain ⟨opening, vs, closing, rfl, opens, inside, closes⟩ := laidOut_enclosed.mp laidOut
  refine gives_params.mpr ⟨opening, closing, vs, rfl, opens, ?_, closes⟩
  by_cases filled : ps = []
  · subst filled
    exact .inl ⟨rfl, laidOut_nil.mp inside⟩
  · have separated := params_of_laidOut wellFormed filled inside
    have start : nextKind vs ≠ .rightParen := by
      obtain ⟨p, _, colon, rfl, named, _⟩ := separated.head
      simp [named]
    exact .inr ⟨separated, start⟩

/-- A function is closed in the way that its body asks for. -/
theorem closingBegun_of_laidOut {body : Stmt} {us rest : List Token}
    (laidOut : LaidOut body.closingLayout us rest) : (closingBegun body us).Gives () rest := by
  rw [gives_closingBegun]
  by_cases block : body.isBlock
  · rw [Stmt.closingLayout, if_pos block] at laidOut
    simp only [laidOut_mark, laidOut_nil] at laidOut
    obtain ⟨word, _, rfl, kind, rfl⟩ := laidOut
    exact .inl ⟨block, word, rfl, kind⟩
  · rw [Stmt.closingLayout, if_neg block] at laidOut
    simp only [laidOut_mark, laidOut_nil] at laidOut
    obtain ⟨ended, _, rfl, endKind, word, _, rfl, kind, rfl⟩ := laidOut
    exact .inr ⟨block, ended, word, rfl, endKind, kind⟩

theorem Function.reads_layout {f : Function} {us rest : List Token} (wellFormed : f.WellFormed)
    (laidOut : LaidOut f.layout us rest) : ReadsItem (.function f) us rest := by
  obtain ⟨named, paramsFormed, typed, bodyFormed⟩ := wellFormed
  simp only [Function.layout, laidOut_append, laidOut_mark, laidOut_token] at laidOut
  obtain ⟨ws, ⟨_, ⟨begins, _, rfl, beginsKind, word, _, rfl, kind, us, rfl, front⟩, colon, _, rfl,
    colonKind, vs, rfl, inside⟩, ends⟩ := laidOut
  have params := reads_params_layout paramsFormed front
  have body := Stmt.reads_layout bodyFormed inside
  have gives : (function true (f.name :: us)).Gives f rest :=
    gives_function.mpr
      ⟨us, vs, ws, colon, rfl, named, params, colonKind, typed, body, closingBegun_of_laidOut ends⟩
  exact ⟨by simp [beginsKind], (gives_item_begun beginsKind kind).mpr ⟨f, rfl, gives⟩⟩

theorem Enumeration.reads_layout {e : Enumeration} {us rest : List Token}
    (wellFormed : e.WellFormed) (laidOut : LaidOut e.layout us rest) :
    ReadsItem (.enumeration e) us rest := by
  obtain ⟨named, valuesFormed⟩ := wellFormed
  simp only [Enumeration.layout, laidOut_append, laidOut_mark, laidOut_token, laidOut_nil,
    laidOut_enclosed] at laidOut
  obtain ⟨_, ⟨word, _, rfl, kind, _, rfl, opening, vs, closing, rfl, opens, inside, closes⟩,
    semicolon, _, rfl, semicolonKind, rfl⟩ := laidOut
  refine ⟨by simp [kind], (gives_item_enumeration kind).mpr ⟨e, rfl, ?_⟩⟩
  refine gives_enumeration.mpr ⟨_, _, rfl, named, ⟨opening, closing, vs, rfl, opens, ?_, closes⟩,
    gives_enumerationEnd.mpr (.inr ⟨semicolon, rfl, semicolonKind⟩)⟩
  by_cases filled : e.values = []
  · rw [filled] at inside
    exact .inl ⟨filled, laidOut_nil.mp inside⟩
  · have separated := names_of_laidOut valuesFormed filled inside
    have start : nextKind vs ≠ .rightBrace := by
      obtain ⟨t, _, rfl, name⟩ := separated.head
      simp [name]
    exact .inr ⟨separated, start⟩

/-! ## Items and programs -/

theorem Stmt.reads_item_layout {s : Stmt} {us rest : List Token} (wellFormed : s.WellFormed)
    (laidOut : LaidOut s.layout us rest) : ReadsItem (.statement s) us rest := by
  have starts := Stmt.starts_layout wellFormed laidOut
  have reads := Stmt.reads_layout wellFormed laidOut
  refine ⟨TokenKind.ne_of_startsCanonical starts, ?_⟩
  cases us with
  | nil => cases starts
  | cons t vs =>
      refine (gives_item_statement reads.not_begin_function ?_ ?_).mpr ⟨s, rfl, reads⟩
      · exact TokenKind.ne_of_startsCanonical starts
      · exact TokenKind.ne_of_startsCanonical starts

theorem Item.reads_layout {i : Item} {us rest : List Token} (wellFormed : i.WellFormed)
    (laidOut : LaidOut i.layout us rest) : ReadsItem i us rest := by
  cases i with
  | function f => exact Function.reads_layout wellFormed laidOut
  | enumeration e => exact Enumeration.reads_layout wellFormed laidOut
  | statement s => exact Stmt.reads_item_layout wellFormed laidOut

/-- **A program in its layout is read back**, with its items in their groups. -/
theorem Program.reads_layout {p : Program} {us : List Token} (wellFormed : p.WellFormed)
    (laidOut : LaidOut p.layout us []) : (program us).Gives ⟨p.grouped⟩ [] := by
  refine gives_program.mpr ⟨repeats_of_laidOut ?_ laidOut, rfl⟩
  intro i inside us rest
  exact Item.reads_layout (wellFormed i (mem_grouped.mp inside))

/-- **Parsing undoes the canonical rendering of a program.**  Whatever renders a
well-formed program, in front of an end marker, a session answers with a tree that has the
shape of the program. -/
theorem ask_program_renders {p : Program} {tokens after : List Token} {marker : Token}
    {nextId : NodeId} (wellFormed : p.WellFormed) (renders : Renders p.layout tokens)
    (ends : marker.kind = .eof) :
    ∃ root s, (Session.ofTokens (tokens ++ marker :: after) nextId).ask .program = (.ok root, s) ∧
      root.unnumbered = p.shape := by
  have laidOut : LaidOut p.layout tokens [] := ⟨tokens, (List.append_nil tokens).symm, renders⟩
  have gives := p.reads_layout wellFormed laidOut
  have unended : Unended tokens := DerivesProgram.unended (program_derived gives)
  refine ⟨_, _, Session.ask_program_eq_ok.mpr ⟨⟨p.grouped⟩, [], ?_, rfl, rfl⟩, ?_⟩
  · rw [Session.rest_ofTokens unended ends]
    exact gives
  · rw [Program.unnumbered_number, p.shape_grouped]

/-- A conditional that returns and has all its branches, and a function around a loop. -/
theorem ask_program_renders_nested :
    let name := TokenKind.identifier.token
    let sum := Expr.binary (.reference name []) TokenKind.plus.token
      (.binary (.call name []) TokenKind.kwOr.token (.literal TokenKind.boolLiteral.token))
    let conditional := Stmt.conditional sum (.result none)
      [(sum, .block [.print sum])] (some (.conditional sum (.block []) [] none))
    let function : Function := ⟨name, [⟨name, TokenKind.kwInt.token⟩], TokenKind.kwReal.token,
      .block [.loop name sum sum conditional]⟩
    let p : Program := ⟨[.statement conditional, .function function]⟩
    p.WellFormed ∧ ∃ root s,
      (Session.ofTokens (p.layout.map Piece.render ++ [TokenKind.eof.token]) 1).ask .program =
        (.ok root, s) ∧ root.unnumbered = p.shape := by
  intro name sum conditional function p
  have wellFormed : p.WellFormed := by
    simp [p, function, conditional, sum, name, Program.WellFormed, Item.WellFormed,
      Function.WellFormed, Param.WellFormed, Stmt.WellFormed, Stmt.AllWellFormed,
      Stmt.WellFormedOrIfs, Stmt.WellFormedElse, Expr.WellFormed, Expr.AllWellFormed,
      TokenKind.token, TokenKind.isType, TokenKind.isLiteral, TokenKind.isBinary, TokenKind.level]
  exact ⟨wellFormed, ask_program_renders wellFormed (renders_map_render p.layout) rfl⟩

end BlockSyntax
