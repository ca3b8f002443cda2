import BlockSyntax.Proofs.RoundTrip

/-!
# To which conditional an arm belongs

Headers of conditionals and loops may stand in front of each other, and behind the statement in
the middle come arms, each a further condition or an `else` with its body.  An arm belongs to the
innermost conditional that has no `else` yet, and a loop in between is no obstacle (`attach`).

The grammar says so by the order in which it reads.  The innermost conditional is read first and
takes arms as long as it can, up to its `else`; what it leaves is fed to the construct around it
(`feed`).  One frame after the other this comes to the same as attaching one arm after the other
to all frames (`feed_append`, `feed_of_attachAll`).
-/

set_option autoImplicit false

namespace BlockSyntax

open Grammar Reply

/-! ## Headers, arms and frames -/

/-- What stands in front of a body. -/
inductive Header where
  /-- A condition. -/
  | condition (condition : Expr)
  /-- The counter of a loop with its bounds. -/
  | bounds (counter : Token) (lower upper : Expr)

/-- What stands behind the body of a conditional. -/
inductive Arm where
  /-- A further condition with its body. -/
  | orIf (condition : Expr) (body : Stmt)
  /-- The body for when no condition holds. -/
  | otherwise (body : Stmt)

/-- A construct around a body, with the arms it has so far. -/
inductive Frame where
  /-- A conditional. -/
  | conditional (condition : Expr) (orIfs : List (Expr × Stmt)) (last : Option Stmt)
  /-- A loop. -/
  | loop (counter : Token) (lower upper : Expr)

/-- The construct that a header opens, which has no arms yet. -/
def Header.frame : Header → Frame
  | condition c => .conditional c [] none
  | bounds counter lower upper => .loop counter lower upper

namespace Frame

/-- The construct around a body. -/
def around (body : Stmt) : Frame → Stmt
  | conditional condition orIfs last => .conditional condition body orIfs last
  | loop counter lower upper => .loop counter lower upper body

/-- A body in the constructs around it, the innermost one first. -/
def nest (frames : List Frame) (body : Stmt) : Stmt := frames.foldl around body

/-- An arm for a conditional that has no `else`. -/
def add (arm : Arm) : Frame → Option Frame
  | conditional condition orIfs none =>
    match arm with
    | .orIf further body => some (.conditional condition (orIfs ++ [(further, body)]) none)
    | .otherwise body => some (.conditional condition orIfs (some body))
  | _ => none

/-- The arm goes to the innermost construct that has a place for it. -/
def attach (arm : Arm) : List Frame → Option (List Frame)
  | [] => none
  | frame :: outer =>
    match frame.add arm with
    | some frame' => some (frame' :: outer)
    | none => (attach arm outer).map (frame :: ·)

/-- The arms go to their constructs, one after the other. -/
def attachAll : List Arm → List Frame → Option (List Frame)
  | [], frames => some frames
  | arm :: arms, frames => (attach arm frames).bind (attachAll arms)

/-- Arms are attached as long as there is a place for them; the others are left. -/
def feed (frames : List Frame) : List Arm → List Frame × List Arm
  | [] => (frames, [])
  | arm :: arms =>
    match attach arm frames with
    | some frames' => feed frames' arms
    | none => (frames, arm :: arms)

/-- A conditional without `else` has a place for every arm, and nothing else has one for any. -/
def isOpen : Frame → Bool
  | conditional _ _ none => true
  | _ => false

theorem add_eq_none (arm : Arm) {frame : Frame} : frame.add arm = none ↔ ¬ frame.isOpen := by
  cases frame with
  | loop counter lower upper => simp [add, isOpen]
  | conditional condition orIfs last =>
      cases last <;> cases arm <;> simp [add, isOpen]

variable {frames frames' : List Frame} {arm : Arm} {arms : List Arm}

theorem attach_eq_none (arm : Arm) :
    attach arm frames = none ↔ ∀ frame ∈ frames, ¬ frame.isOpen := by
  induction frames with
  | nil => simp [attach]
  | cons frame frames ih =>
      rw [List.forall_mem_cons, ← ih, ← add_eq_none arm, attach]
      cases frame.add arm <;> simp

/-- An arm does not go further out than it has to. -/
theorem attach_append_of_some (outer : List Frame) (attached : attach arm frames = some frames') :
    attach arm (frames ++ outer) = some (frames' ++ outer) := by
  induction frames generalizing frames' with
  | nil => cases attached
  | cons frame frames ih =>
      rw [attach] at attached
      rw [List.cons_append, attach]
      cases added : frame.add arm with
      | some frame' =>
          rw [added] at attached
          cases attached
          rfl
      | none =>
          rw [added] at attached
          obtain ⟨inner, inside, rfl⟩ := Option.map_eq_some_iff.mp attached
          simp only [ih inside]
          rfl

/-- An arm for which the inner constructs have no place goes further out. -/
theorem attach_append_of_none (outer : List Frame) (closed : attach arm frames = none) :
    attach arm (frames ++ outer) = (attach arm outer).map (frames ++ ·) := by
  induction frames with
  | nil => simp
  | cons frame frames ih =>
      have none : ∀ f ∈ frame :: frames, ¬ f.isOpen := (attach_eq_none arm).mp closed
      rw [List.forall_mem_cons, ← add_eq_none arm, ← attach_eq_none arm] at none
      rw [List.cons_append, attach, none.1]
      simp only [ih none.2, Option.map_map]
      rfl

/-- Constructs without a place for arms leave them all. -/
theorem feed_closed (closed : ∀ frame ∈ frames, ¬ frame.isOpen) :
    feed frames arms = (frames, arms) := by
  cases arms with
  | nil => rfl
  | cons arm arms => rw [feed, (attach_eq_none arm).mpr closed]

theorem feed_closed_append (outer : List Frame) (arms : List Arm)
    (closed : ∀ frame ∈ frames, ¬ frame.isOpen) :
    feed (frames ++ outer) arms = (frames ++ (feed outer arms).1, (feed outer arms).2) := by
  induction arms generalizing outer with
  | nil => rfl
  | cons arm arms ih =>
      have past := attach_append_of_none outer ((attach_eq_none arm).mpr closed)
      rw [feed, feed, past]
      cases attach arm outer with
      | none => rfl
      | some outer' => exact ih outer'

/-- What inner constructs leave of the arms goes to the outer ones. -/
theorem feed_append (outer : List Frame) : feed (frames ++ outer) arms =
    ((feed frames arms).1 ++ (feed outer (feed frames arms).2).1,
      (feed outer (feed frames arms).2).2) := by
  induction arms generalizing frames with
  | nil => rfl
  | cons arm arms ih =>
      cases attached : attach arm frames with
      | some frames' =>
          have here := attach_append_of_some outer attached
          simp only [feed, attached, here, ih]
      | none =>
          have closed := feed_closed_append outer (arm :: arms) ((attach_eq_none arm).mp attached)
          rw [closed, feed_closed ((attach_eq_none arm).mp attached)]

/-- Nothing is left of arms that can all be attached. -/
theorem feed_of_attachAll (attached : attachAll arms frames = some frames') :
    feed frames arms = (frames', []) := by
  induction arms generalizing frames with
  | nil =>
      cases attached
      rfl
  | cons arm arms ih =>
      obtain ⟨between, here, behind⟩ := Option.bind_eq_some_iff.mp attached
      rw [feed, here]
      exact ih behind

end Frame

/-! ## Chains -/

/-- The productions of headers. -/
inductive DerivesHeader : Header → List Token → List Token → Prop where
  | condition {c : Expr} {us vs ws rest : List Token} (opens : Marks [.kwIf, .leftParen] us vs)
      (inside : DerivesExpr c vs ws) (closes : Marks [.rightParen] ws rest) :
      DerivesHeader (.condition c) us rest
  | bounds {counter : Token} {lower upper : Expr} {us vs ws xs ys ys' zs rest : List Token}
      (opens : Marks [.kwFor, .leftParen] us vs) (name : Next (· = .identifier) counter vs ws)
      (goes : Marks [.kwGoes, .kwFrom] ws xs) (start : DerivesExpr lower xs ys)
      (between : Marks [.kwTo] ys ys') (stop : DerivesExpr upper ys' zs)
      (closes : Marks [.rightParen] zs rest) : DerivesHeader (.bounds counter lower upper) us rest

/-- The productions of arms, whose bodies are delimited. -/
inductive DerivesArm : Arm → List Token → List Token → Prop where
  | orIf {c : Expr} {body : Stmt} {us vs ws xs rest : List Token}
      (opens : Marks [.kwOr, .kwIf, .leftParen] us vs) (inside : DerivesExpr c vs ws)
      (closes : Marks [.rightParen] ws xs) (branch : Delimited body xs rest) :
      DerivesArm (.orIf c body) us rest
  | otherwise {body : Stmt} {us vs rest : List Token} (word : Marks [.kwElse] us vs)
      (branch : Delimited body vs rest) : DerivesArm (.otherwise body) us rest

/-- The kinds of tokens that may belong to what stands in front of them. -/
def continues (k : TokenKind) : Prop := k = .kwEnd ∨ k = .kwOr ∨ k = .kwElse

/-- No `end` stands in front of arms. -/
theorem nextKind_arms {arms : List Arm} {us rest : List Token}
    (follow : Repeats DerivesArm arms us rest) (stops : ¬ continues (nextKind rest)) :
    nextKind us ≠ .kwEnd := by
  cases follow with
  | nil => exact fun ended => stops (.inl ended)
  | cons head _ =>
      cases head with
      | orIf opens _ _ _ =>
          obtain ⟨word, _, rfl, kind, _⟩ := opens
          simp [kind]
      | otherwise word _ =>
          obtain ⟨word, rfl, kind⟩ := marks_one_iff.mp word
          simp [kind]

namespace Frame

/-- A conditional with a place for arms takes the further conditions that come next and then an
`else`, and leaves the other arms. -/
theorem feed_conditional {arms : List Arm} {us rest : List Token}
    (follow : Repeats DerivesArm arms us rest) (stops : ¬ continues (nextKind rest))
    (condition : Expr) (before : List (Expr × Stmt)) :
    ∃ orIfs last vs ws, Repeats (OrIf ReadsStmt) orIfs us vs ∧ nextKind vs ≠ .kwOr ∧
      Otherwise ReadsStmt last vs ws ∧
      (feed [.conditional condition before none] arms).1 =
        [.conditional condition (before ++ orIfs) last] ∧
      Repeats DerivesArm (feed [.conditional condition before none] arms).2 ws rest := by
  induction follow generalizing before with
  | @nil us =>
      have noOr : nextKind us ≠ .kwOr := fun word => stops (.inr (.inl word))
      have noElse : nextKind us ≠ .kwElse := fun word => stops (.inr (.inr word))
      exact ⟨[], none, us, us, .nil, noOr, .inl ⟨rfl, noElse, rfl⟩, by simp [feed], .nil⟩
  | @cons arm arms us vs ws head tail ih =>
      cases head with
      | @orIf c body _ _ _ _ _ opens inside closes branch =>
          obtain ⟨orIfs, last, xs, ys, further, noOr, otherwise, frames, left⟩ :=
            ih stops (before ++ [(c, body)])
          refine ⟨(c, body) :: orIfs, last, xs, ys, ?_, noOr, otherwise, ?_, left⟩
          · exact .cons (reads_orIf opens inside closes branch.reads) further
          · rw [List.append_cons]
            exact frames
      | @otherwise body _ _ _ word branch =>
          obtain ⟨t, rfl, kind⟩ := marks_one_iff.mp word
          have closed : feed [.conditional condition before none] (.otherwise body :: arms) =
              ([.conditional condition before (some body)], arms) := by
            rw [feed]
            exact feed_closed (by simp [isOpen])
          rw [closed]
          refine ⟨[], some body, _, vs, .nil, by simp [kind], ?_, ?_, tail⟩
          · exact .inr ⟨body, t, _, rfl, rfl, kind, branch.reads⟩
          · rw [List.append_nil]

/-- **A chain is read around its body** with the arms that its constructs have a place for, and the
other arms are left. -/
theorem reads_chain {headers : List Header} {us vs : List Token}
    (chain : Repeats DerivesHeader headers us vs) {body : Stmt} {arms : List Arm}
    {ws rest : List Token} (inside : Delimited body vs ws)
    (follow : Repeats DerivesArm arms ws rest) (stops : ¬ continues (nextKind rest)) :
    ∃ mid, ReadsStmt (nest (feed (headers.map Header.frame).reverse arms).1 body) us mid ∧
      Repeats DerivesArm (feed (headers.map Header.frame).reverse arms).2 mid rest := by
  induction chain with
  | nil =>
      rw [List.map_nil, List.reverse_nil, feed_closed (by simp)]
      exact ⟨ws, inside.reads, follow⟩
  | @cons header headers us us' vs head _ ih =>
      obtain ⟨mid, inner, left⟩ := ih inside
      rw [List.map_cons, List.reverse_cons, feed_append]
      generalize (feed (headers.map Header.frame).reverse arms).1 = frames at inner ⊢
      generalize (feed (headers.map Header.frame).reverse arms).2 = others at left ⊢
      cases head with
      | @condition c _ _ _ _ opens condition closes =>
          obtain ⟨orIfs, last, xs, ys, further, noOr, otherwise, same, left⟩ :=
            feed_conditional left stops c []
          refine ⟨ys, ?_, left⟩
          rw [Header.frame, same, nest, List.foldl_append]
          exact reads_conditional (.inr rfl) opens condition closes inner further noOr otherwise
            (.inr ⟨rfl, nextKind_arms left stops⟩)
      | bounds opens name goes start between stop closes =>
          rw [Header.frame, feed_closed (by simp [isOpen])]
          refine ⟨mid, ?_, left⟩
          rw [nest, List.foldl_append]
          exact reads_loop (.inr rfl) opens name goes start between stop closes inner
            (gives_closing.mpr (.inr ⟨rfl, nextKind_arms left stops⟩))

end Frame

/-- **Arms belong to the innermost conditional that has no `else`.**  The tokens left in a session
start with a chain of headers, a delimited statement and arms with delimited bodies, and every arm
can be attached to a conditional of the chain that has no `else` before it.  In front of a token
that does not continue a statement, a session that is asked for a statement takes all of them, and
answers with the statement in its constructs, each with the arms that are attached to it. -/
theorem dangling_arms {s : Session} {headers : List Header} {body : Stmt} {arms : List Arm}
    {frames : List Frame} {vs ws rest : List Token}
    (chain : Repeats DerivesHeader headers s.rest vs) (inside : Delimited body vs ws)
    (follow : Repeats DerivesArm arms ws rest)
    (attached : Frame.attachAll arms (headers.map Header.frame).reverse = some frames)
    (stops : ¬ continues (nextKind rest)) :
    (s.ask .statement).1 = .ok ((Frame.nest frames body).number s.nextId).1 ∧
      (s.ask .statement).2.rest = rest := by
  obtain ⟨mid, reads, left⟩ := Frame.reads_chain chain inside follow stops
  rw [Frame.feed_of_attachAll attached] at reads left
  cases left
  rw [Session.ask_statement_eq_ok.mpr ⟨Frame.nest frames body, rest, reads, rfl, rfl⟩]
  exact ⟨rfl, rfl⟩

/-- Behind a conditional in a loop in a conditional, the first `else` belongs to the inner
conditional, so that a further condition and a second `else` belong to the outer one. -/
theorem dangling_arms_through_loop :
    let marks : List TokenKind → List Token := List.map TokenKind.token
    let name := TokenKind.identifier.token
    let value := Expr.reference name []
    let conditional := Stmt.conditional value (.result none) [] none
    let tokens := marks [.kwIf, .leftParen, .identifier, .rightParen,
      .kwFor, .leftParen, .identifier, .kwGoes, .kwFrom, .identifier, .kwTo, .identifier,
      .rightParen, .kwIf, .leftParen, .identifier, .rightParen,
      .kwPrint, .leftParen, .identifier, .rightParen, .semicolon,
      .kwElse, .kwBegin, .kwEnd,
      .kwOr, .kwIf, .leftParen, .identifier, .rightParen,
      .kwBegin, .kwIf, .leftParen, .identifier, .rightParen, .kwReturn, .semicolon, .kwEnd,
      .kwElse, .kwBegin, .kwEnd, .semicolon]
    let s : Session := ⟨[], tokens, TokenKind.eof.token, 3, none⟩
    (s.ask .statement).1 = .ok ((Stmt.conditional value
        (.loop name value value (.conditional value (.print value) [] (some (.block []))))
        [(value, conditional)] (some (.block []))).number 3).1 ∧
      (s.ask .statement).2.rest = [TokenKind.semicolon.token] := by
  intro marks name value conditional tokens s
  have reference (behind : List Token) : DerivesExpr value (name :: behind) behind :=
    ⟨[name], rfl, .primary (.reference rfl .nil)⟩
  have opened (behind : List Token) : DerivesHeader (.condition value)
      (marks [.kwIf, .leftParen, .identifier, .rightParen] ++ behind) behind :=
    .condition (marks_two rfl rfl) (reference _) (marks_one rfl)
  have counted (behind : List Token) : DerivesHeader (.bounds name value value)
      (marks [.kwFor, .leftParen, .identifier, .kwGoes, .kwFrom, .identifier, .kwTo, .identifier,
        .rightParen] ++ behind) behind :=
    .bounds (marks_two rfl rfl) ⟨rfl, rfl⟩ (marks_two rfl rfl) (reference _) (marks_one rfl)
      (reference _) (marks_one rfl)
  have laid (body : Stmt) (formed : body.WellFormed) (behind : List Token) :
      Delimited body (body.layout.map Piece.render ++ behind) behind :=
    body.delimited_layout formed ⟨_, rfl, renders_map_render _⟩
  have formed : value.WellFormed := by
    simp [value, name, Expr.WellFormed, Expr.AllWellFormed, TokenKind.token]
  have empty : (Stmt.block []).WellFormed := by simp [Stmt.WellFormed, Stmt.AllWellFormed]
  have printed : (Stmt.print value).WellFormed := by simpa [Stmt.WellFormed] using formed
  have inner : conditional.WellFormed := by
    simpa [conditional, Stmt.WellFormed, Stmt.WellFormedOrIfs, Stmt.WellFormedElse] using formed
  have stops : ¬ continues (nextKind [TokenKind.semicolon.token]) := by
    rintro (kind | kind | kind) <;> cases kind
  have last : DerivesArm (.otherwise (.block [])) (marks [.kwElse, .kwBegin, .kwEnd, .semicolon])
      [TokenKind.semicolon.token] := .otherwise (marks_one rfl) (laid _ empty _)
  have further (behind : List Token) : DerivesArm (.orIf value conditional)
      (marks [.kwOr, .kwIf, .leftParen, .identifier, .rightParen, .kwBegin, .kwIf, .leftParen,
        .identifier, .rightParen, .kwReturn, .semicolon, .kwEnd] ++ behind) behind :=
    .orIf ⟨_, _, rfl, rfl, marks_two rfl rfl⟩ (reference _) (marks_one rfl) (laid _ inner _)
  have first (behind : List Token) : DerivesArm (.otherwise (.block []))
      (marks [.kwElse, .kwBegin, .kwEnd] ++ behind) behind :=
    .otherwise (marks_one rfl) (laid _ empty _)
  have chain : Repeats DerivesHeader [.condition value, .bounds name value value, .condition value]
      s.rest (tokens.drop 17) := .cons (opened _) (.cons (counted _) (.cons (opened _) .nil))
  exact dangling_arms chain (laid _ printed _)
    (.cons (first _) (.cons (further _) (.cons last .nil))) rfl stops

end BlockSyntax
