import BlockSyntax.Proofs.Lookahead
import BlockSyntax.Proofs.NodeCount
import BlockSyntax.Proofs.RoundTrip

/-!
# The word in front

A `begin` in front of a conditional or a loop changes nothing: the two statements are read in the
same way, and what fails without it fails with it (`Grammar.statement_begin`).

A function with `begin` in front of it is read without that word as well.  When its body is no
block it has been closed by `end function`, which closes it in both forms.  When its body is a
block it has been closed by `function`, and in the other form the same function is closed by `end
function`.  A block is read whatever stands behind it, since it ends with its own word
(`Grammar.exists_block`), so the additional `end` is not taken for a part of the body.
-/

set_option autoImplicit false

namespace BlockSyntax

open Reply

variable {α β : Type} {n : Nat}

/-! ## Statements -/

namespace Grammar

/-- What the next token is taken for goes on behind it. -/
theorem take_bind {k : TokenKind} {t : Token} {us : List Token} (kind : t.kind = k)
    {next : Token → (rest : List Token) → rest.length < (t :: us).length → Reply β n} :
    (take k (t :: us)).bind next = next t us (length_lt_succ us) := by
  rw [take, takeIf_of_passes (decide_eq_true kind)]
  exact after_zero _

/-- What is read inside does not depend on the bound below which it is read. -/
theorem conditional_inner_bound {k m : Nat} {us : List Token} (h : us.length ≤ k)
    (h' : us.length ≤ m) : conditional (inner k) us h = conditional (inner m) us h' := rfl

theorem loop_inner_bound {k m : Nat} {us : List Token} (h : us.length ≤ k) (h' : us.length ≤ m) :
    loop (inner k) us h = loop (inner m) us h' := rfl

/-- A `begin` in front of a conditional or a loop has no effect. -/
theorem statement_begin {opening word : Token} (us : List Token) (begins : opening.kind = .kwBegin)
    (construct : word.kind = .kwIf ∨ word.kind = .kwFor) :
    (statement (word :: us)).Widens (statement (opening :: word :: us)) := by
  refine ⟨Nat.le_succ _, ?_⟩
  rw [statement_eq, statement_eq, statementAround, statementAround]
  rcases construct with kind | kind
  · have next : nextKind (word :: us) = .kwIf := kind
    simp only [begins, kind, begun_if next, conditionalAt, take_bind kind]
    rw [conditional_inner_bound _ (Nat.le_succ us.length)]
    cases conditional (inner (us.length + 1)) us (Nat.le_succ _) <;> rfl
  · have next : nextKind (word :: us) = .kwFor := kind
    simp only [begins, kind, begun_for next, loopAt, take_bind kind]
    rw [loop_inner_bound _ (Nat.le_succ us.length)]
    cases loop (inner (us.length + 1)) us (Nat.le_succ _) <;> rfl

/-- A statement that starts with a word takes it, even if it fails then. -/
theorem statement_takes_word {word : Token} (us : List Token) (starts : startsStatement word.kind) :
    ∃ front last, word :: us = front ++ last :: (statement (word :: us)).left := by
  have behind : (statementBehind (inner (us.length + 1)) word us (length_lt_succ us)).Determines
      id (Stmt.mapTokens id) us id fun vs =>
        statementBehind (inner (vs.length + 1)) word vs (length_lt_succ vs) :=
    statementBehind_determined kind_id inner_determined starts
  obtain ⟨_, same⟩ : (statementBehind (inner (us.length + 1)) word us (length_lt_succ us)).Widens
      (statement (word :: us)) := by
    rw [statement_eq]
    exact statementBehind_widens rfl _
  obtain ⟨used, parts⟩ := behind.exists_used
  rw [same, left_widen]
  refine ⟨(word :: used).dropLast, (word :: used).getLast (List.cons_ne_nil word used), ?_⟩
  rw [List.append_cons, List.dropLast_append_getLast, List.cons_append, ← parts]

end Grammar

namespace Session

variable {s t : Session}

/-- Two sessions answer a request in the same way and go on alike: with the same tokens left, the
same counter, and after the same failure if there was one. -/
structure Alike (s t : Session) (goal : Goal) : Prop where
  /-- The tree is the same, with its identifiers, or the syntax error. -/
  answer : (s.ask goal).1 = (t.ask goal).1
  /-- The same tokens are left. -/
  rest : (s.ask goal).2.rest = (t.ask goal).2.rest
  /-- The counter is the same. -/
  nextId : (s.ask goal).2.nextId = (t.ask goal).2.nextId
  /-- The first failure is the same. -/
  error? : (s.ask goal).2.error? = (t.ask goal).2.error?

/-- A failure behind a token names this token and the next one. -/
theorem errorHere_advanceTo {front rest : List Token} {last : Token}
    (parts : s.rest = front ++ last :: rest) (expected : Expectation) :
    (s.advanceTo rest).errorHere expected = ⟨expected, last, rest.headD last⟩ := by
  have taken : (s.advanceTo rest).taken = last :: (front.reverse ++ s.taken) := by
    have used : s.rest = (front ++ [last]) ++ rest := by rw [parts, List.append_assoc]; rfl
    show (s.rest.take (s.rest.length - rest.length)).reverse ++ s.taken = _
    rw [used, List.length_append, Nat.add_sub_cancel, List.take_left, List.reverse_append]
    rfl
  rw [errorHere, taken]
  rfl

/-- A session with further tokens in front, which change nothing about the reply, answers like the
one without them, when a request takes a token of those that both have. -/
theorem alike_of_widens {goal : Goal} {passed front : List Token} {last : Token}
    (longer : s.rest = passed ++ t.rest)
    (widens : (goal.parse t.rest).Widens (goal.parse s.rest))
    (taken : t.rest = front ++ last :: (goal.parse t.rest).left) (nextId : s.nextId = t.nextId)
    (recorded : s.error? = t.error?) : s.Alike t goal := by
  have left : (goal.parse s.rest).left = (goal.parse t.rest).left := by
    obtain ⟨_, same⟩ := widens
    rw [same, left_widen]
  have names : ∀ expected us made, goal.parse s.rest = .fail expected us made →
      (t.advanceTo (goal.parse s.rest).left).errorHere expected =
        (s.advanceTo us).errorHere expected := by
    intro expected us made failed
    obtain rfl : (goal.parse s.rest).left = us := by rw [failed]; rfl
    have taken' : s.rest = (passed ++ front) ++ last :: (goal.parse s.rest).left := by
      rw [left, List.append_assoc, ← taken, longer]
    rw [errorHere_advanceTo taken', left, errorHere_advanceTo taken]
  have answers := ask_eq_of_matches widens.matches nextId.symm recorded.symm names
  constructor
  case answer => rw [answers]
  case rest => rw [rest_ask, rest_ask, left]
  case nextId => rw [answers]
  case error? => rw [answers]

/-- A session in front of `begin` and one behind it answer alike when a conditional or a loop
comes next. -/
theorem alike_begin {opening : Token} (begins : opening.kind = .kwBegin)
    (behind : s.rest = opening :: t.rest)
    (construct : nextKind t.rest = .kwIf ∨ nextKind t.rest = .kwFor) (nextId : s.nextId = t.nextId)
    (recorded : s.error? = t.error?) : s.Alike t .statement := by
  cases start : t.rest with
  | nil => simp [start] at construct
  | cons word us =>
      rw [start] at construct
      have starts : Grammar.startsStatement word.kind := by
        rcases construct with kind | kind <;> rw [nextKind_cons] at kind <;> rw [kind] <;> rfl
      obtain ⟨front, last, parts⟩ := Grammar.statement_takes_word us starts
      have widens : (Goal.statement.parse (word :: us)).Widens
          (Goal.statement.parse (opening :: word :: us)) := by
        obtain ⟨_, same⟩ := Grammar.statement_begin us begins construct
        refine ⟨Nat.le_succ _, ?_⟩
        simp only [Goal.parse, same]
        cases statement (word :: us) <;> rfl
      have longer : s.rest = [opening] ++ t.rest := behind
      have taken : t.rest = front ++ last :: (Goal.statement.parse t.rest).left := by
        rw [start]
        simpa only [Goal.parse, left_widen, left_map] using parts
      refine alike_of_widens longer ?_ taken nextId recorded
      rw [behind, start]
      exact widens

end Session

/-! ## Functions -/

/-- A statement is read in front of any token of the same kind as the one behind it. -/
theorem ReadsStmt.exists_used {s : Stmt} {us rest : List Token} (reads : ReadsStmt s us rest) :
    ∃ used, us = used ++ rest ∧
      ∀ rest', nextKind rest' = nextKind rest → ReadsStmt s (used ++ rest') rest' :=
  (viableAt_statement us).determines.gives reads

namespace Grammar

/-- The statements of a block are read in front of any token of the same kind as the one behind
them. -/
theorem exists_inBlock {ss : List Stmt} {us rest : List Token}
    (reads : Repeats (InBlock ReadsStmt) ss us rest) :
    ∃ used, us = used ++ rest ∧ ∀ rest', nextKind rest' = nextKind rest →
      Repeats (InBlock ReadsStmt) ss (used ++ rest') rest' := by
  induction reads with
  | nil => exact ⟨[], rfl, fun _ _ => .nil⟩
  | @cons s ss us vs ws head tail ih =>
      obtain ⟨notEnd, notEof, reads⟩ := head
      obtain ⟨used, rfl, first⟩ := reads.exists_used
      obtain ⟨used', rfl, others⟩ := ih
      refine ⟨used ++ used', (List.append_assoc ..).symm, fun rest' same => ?_⟩
      have alike := nextKind_append same used'
      rw [← nextKind_append alike used] at notEnd notEof
      rw [List.append_assoc]
      exact .cons ⟨notEnd, notEof, first _ alike⟩ (others rest' same)

/-- Behind the `begin` of a block stands neither `if` nor `for`. -/
theorem reads_block {body : List Stmt} {us rest : List Token}
    (reads : ReadsStmt (.block body) us rest) :
    ∃ opening vs, us = opening :: vs ∧ opening.kind = .kwBegin ∧ nextKind vs ≠ .kwIf ∧
      nextKind vs ≠ .kwFor ∧ ReadsBlock ReadsStmt (.block body) vs rest := by
  cases statement_sound reads with
  | block opens _ _ =>
      obtain ⟨opening, vs, rfl, begins, rfl⟩ := opens
      have notIf : nextKind vs ≠ .kwIf := by
        intro kind
        cases vs with
        | nil => cases kind
        | cons word ws => cases (reads_begin_if begins kind).mp reads
      have notFor : nextKind vs ≠ .kwFor := by
        intro kind
        cases vs with
        | nil => cases kind
        | cons word ws => cases (reads_begin_for begins kind).mp reads
      exact ⟨opening, vs, rfl, begins, notIf, notFor,
        (reads_begin_block begins notIf notFor).mp reads⟩

/-- **A block is read whatever stands behind it.** -/
theorem exists_block {s : Stmt} {us rest : List Token} (block : s.isBlock)
    (reads : ReadsStmt s us rest) :
    ∃ used, us = used ++ rest ∧ ∀ rest', ReadsStmt s (used ++ rest') rest' := by
  cases s with
  | block body =>
      obtain ⟨opening, vs, rfl, begins, notIf, notFor, reads⟩ := reads_block reads
      cases reads with
      | @mk _ ended _ _ inside endKind =>
          obtain ⟨used, rfl, others⟩ := exists_inBlock inside
          refine ⟨opening :: used ++ [ended], by simp, fun rest' => ?_⟩
          have alike : nextKind (ended :: rest') = nextKind (ended :: rest) := rfl
          rw [← nextKind_append alike used] at notIf notFor
          have same : opening :: used ++ [ended] ++ rest' =
              opening :: (used ++ ended :: rest') := by simp
          rw [same]
          exact (reads_begin_block begins notIf notFor).mpr (.mk (others _ alike) endKind)
  | _ => cases block

/-- A function whose body is no block is closed in the same way without the word in front. -/
theorem function_of_begun {f : Function} {us rest : List Token} (notBlock : ¬ f.body.isBlock)
    (gives : (function true us).Gives f rest) : (function false us).Gives f rest := by
  obtain ⟨vs, ws, xs, colon, rfl, named, inside, kind, typed, body, ends⟩ := gives_function.mp gives
  rcases gives_closingBegun.mp ends with ⟨block, _⟩ | ⟨_, closed⟩
  · exact absurd block notBlock
  · exact gives_function.mpr ⟨vs, ws, xs, colon, rfl, named, inside, kind, typed, body,
      gives_closing.mpr (.inl closed)⟩

/-- A function whose body is a block is closed by `end function` without the word in front. -/
theorem function_of_begun_block {f : Function} {us rest : List Token} (block : f.body.isBlock)
    (gives : (function true us).Gives f rest) :
    ∃ front closing, us = front ++ closing :: rest ∧ closing.kind = .kwFunction ∧
      ∀ ended word, ended.kind = .kwEnd → word.kind = .kwFunction →
        (function false (front ++ ended :: word :: rest)).Gives f rest := by
  obtain ⟨vs, ws, xs, colon, rfl, named, inside, kind, typed, body, ends⟩ := gives_function.mp gives
  rcases gives_closingBegun.mp ends with ⟨_, closing, rfl, word⟩ | ⟨notBlock, _⟩
  case inr => exact absurd block notBlock
  obtain ⟨used, rfl, bodies⟩ := exists_block block body
  have determined : (params vs).Determines id (List.map (Param.mapTokens id)) vs id params :=
    params_determined kind_id
  obtain ⟨front, rfl, headers⟩ := determined.gives inside
  refine ⟨f.name :: front ++ colon :: f.returnType :: used, closing, by simp, word, ?_⟩
  intro ended word endKind wordKind
  have header := headers (colon :: f.returnType :: (used ++ ended :: word :: rest)) rfl
  have same : List.map (Param.mapTokens id) f.params = f.params := List.map_id f.params
  rw [same] at header
  refine gives_function.mpr ⟨_, _, _, colon, ?_, named, header, kind, typed, bodies _, ?_⟩
  · simp
  · exact gives_closing.mpr (.inl ⟨ended, word, rfl, endKind, wordKind⟩)

/-- No function starts with an end marker. -/
theorem nextKind_of_function {f : Function} {us rest : List Token}
    (gives : (item us).Gives (.function f) rest) : nextKind us ≠ .eof := by
  cases us with
  | nil =>
      rw [item, gives_map] at gives
      obtain ⟨_, same, _⟩ := gives
      cases same
  | cons t vs =>
      intro ended
      rw [nextKind_cons] at ended
      obtain ⟨_, same, _⟩ := (gives_item_statement (by simp [ended]) (by simp [ended])
        (by simp [ended])).mp gives
      cases same

end Grammar

/-- The first item of the tokens is the function; the given tokens are behind it, and so many nodes
are completed. -/
def OpensWith (us : List Token) (f : Function) (rest : List Token) (made : Nat) : Prop :=
  ∃ shorter, Grammar.item us = .ok (.function f) rest made shorter

section OpensWith

variable {us vs rest : List Token} {f : Function} {made made' : Nat}

theorem OpensWith.gives (opens : OpensWith us f rest made) :
    (Grammar.item us).Gives (.function f) rest := by
  obtain ⟨_, reply⟩ := opens
  rw [reply]
  exact ⟨rfl, rfl⟩

theorem exists_opensWith (gives : (Grammar.item us).Gives (.function f) rest) :
    ∃ made, OpensWith us f rest made := by
  cases reply : Grammar.item us with
  | fail e left made => exact (reply ▸ gives : Gives (.fail e left made) _ _).elim
  | ok i left made shorter =>
      rw [reply] at gives
      obtain ⟨rfl, rfl⟩ := gives
      exact ⟨made, shorter, reply⟩

/-- The same function has the same number of nodes, whatever it was read from. -/
theorem OpensWith.of_gives (opens : OpensWith us f rest made)
    (gives : (Grammar.item vs).Gives (.function f) rest) : OpensWith vs f rest made := by
  obtain ⟨_, reply⟩ := opens
  have nodes : (Grammar.item us).Counts 0 fun i => i.shape.count := Grammar.item_counts
  have nodes' : (Grammar.item vs).Counts 0 fun i => i.shape.count := Grammar.item_counts
  rw [reply, counts_ok] at nodes
  cases reply' : Grammar.item vs with
  | fail e left count => exact (reply' ▸ gives : Gives (.fail e left count) _ _).elim
  | ok i left count shorter =>
      rw [reply'] at gives nodes'
      obtain ⟨rfl, rfl⟩ := gives
      rw [counts_ok] at nodes'
      obtain rfl : count = made := by omega
      exact ⟨shorter, reply'⟩

end OpensWith

/-- A program stays the same when its first item is the same function and the same tokens are
behind it. -/
theorem Session.ask_program_of_opensWith {s t : Session} {f : Function} {rest : List Token}
    {made : Nat} {root : Node} (first : OpensWith s.rest f rest made)
    (other : OpensWith t.rest f rest made) (nextId : s.nextId = t.nextId)
    (answer : (s.ask .program).1 = .ok root) : (t.ask .program).1 = .ok root := by
  obtain ⟨p, last, gives, rfl, _⟩ := ask_program_eq_ok.mp (Prod.ext answer rfl)
  obtain ⟨items, ends⟩ := gives_program.mp gives
  have read : (program t.rest).Gives p last := by
    refine gives_program.mpr ⟨?_, ends⟩
    generalize p.items = is at items
    cases items with
    | nil => exact absurd ends (Grammar.nextKind_of_function first.gives)
    | cons head tail =>
        obtain ⟨rfl, rfl⟩ := head.2.unique first.gives
        exact .cons ⟨Grammar.nextKind_of_function other.gives, other.gives⟩ tail
  rw [nextId]
  exact congrArg Prod.fst (ask_program_eq_ok.mpr ⟨p, last, read, rfl, rfl⟩)

/-- **The `begin` in front is transparent.**  A session in front of `begin` and one behind it, at a
conditional or a loop, answer alike when they are asked for a statement: with the same tree or the
same syntax error, and with the same tokens left.  What is read as a function behind `begin` is read
as the same function without it: as it stands when its body is no block, and with `end` in front of
the last word when it is one.  Two sessions whose first items are the same function with the same
tokens behind it, and whose counters are the same, answer with the same programs, identifiers
included. -/
theorem begin_transparent :
    (∀ (s t : Session) (opening : Token), opening.kind = .kwBegin → s.rest = opening :: t.rest →
      nextKind t.rest = .kwIf ∨ nextKind t.rest = .kwFor → s.nextId = t.nextId →
        s.error? = t.error? → s.Alike t .statement) ∧
    (∀ (opening word : Token) (us rest : List Token) (f : Function) (made : Nat),
      opening.kind = .kwBegin → word.kind = .kwFunction →
        OpensWith (opening :: word :: us) f rest made →
          (¬ f.body.isBlock → ∀ bare : Token, bare.kind = .kwFunction →
            OpensWith (bare :: us) f rest made) ∧
          (f.body.isBlock → ∃ front closing, us = front ++ closing :: rest ∧
            closing.kind = .kwFunction ∧ ∀ bare ended last : Token, bare.kind = .kwFunction →
              ended.kind = .kwEnd → last.kind = .kwFunction →
                OpensWith (bare :: front ++ ended :: last :: rest) f rest made)) ∧
    (∀ (s t : Session) (f : Function) (rest : List Token) (made : Nat),
      OpensWith s.rest f rest made → OpensWith t.rest f rest made → s.nextId = t.nextId →
        ∀ root, (s.ask .program).1 = .ok root ↔ (t.ask .program).1 = .ok root) := by
  refine ⟨?statements, ?functions, ?programs⟩
  case statements =>
    intro s t opening begins behind construct nextId recorded
    exact Session.alike_begin begins behind construct nextId recorded
  case functions =>
    intro opening word us rest f made begins kind opens
    obtain ⟨_, same, gives⟩ := (Grammar.gives_item_begun begins kind).mp opens.gives
    cases same
    refine ⟨fun notBlock bare bareKind => opens.of_gives ?_, fun block => ?_⟩
    · exact (Grammar.gives_item_function bareKind).mpr
        ⟨f, rfl, Grammar.function_of_begun notBlock gives⟩
    · obtain ⟨front, closing, parts, closes, bodies⟩ := Grammar.function_of_begun_block block gives
      refine ⟨front, closing, parts, closes, ?_⟩
      intro bare ended last bareKind endKind lastKind
      exact opens.of_gives ((Grammar.gives_item_function bareKind).mpr
        ⟨f, rfl, bodies ended last endKind lastKind⟩)
  case programs =>
    intro s t f rest made first other nextId root
    exact ⟨Session.ask_program_of_opensWith first other nextId,
      Session.ask_program_of_opensWith other first nextId.symm⟩

/-- A loop that fails behind `print` does so with `begin` in front and without.  A function whose
body is a conditional is closed by the second `end`, and one whose body is a block needs a second
`end` without `begin`. -/
theorem begin_transparent_closings :
    let marks : List TokenKind → List Token := List.map TokenKind.token
    let name := TokenKind.identifier.token
    let loop := marks [.kwFor, .leftParen, .identifier, .kwGoes, .kwFrom, .intLiteral, .kwTo,
      .intLiteral, .rightParen, .kwPrint, .semicolon]
    let s := Session.ofTokens (TokenKind.kwBegin.token :: loop) 4
    let t := Session.ofTokens loop 4
    let f : Function := ⟨name, [], TokenKind.kwInt.token,
      .conditional (.reference name []) (.result none) [] none⟩
    let g : Function := ⟨name, [], TokenKind.kwInt.token, .block []⟩
    let header := marks [.identifier, .leftParen, .rightParen, .colon, .kwInt]
    let opened := marks [.kwBegin, .kwFunction] ++ header
    let bare := marks [.kwFunction] ++ header
    let body := marks [.kwBegin, .kwIf, .leftParen, .identifier, .rightParen, .kwReturn, .semicolon,
      .kwEnd, .kwEnd, .kwFunction]
    (¬ (t.ask .statement).1.isOk ∧ (s.ask .statement).1 = (t.ask .statement).1) ∧
      (∃ made, OpensWith (opened ++ body) f [] made ∧ OpensWith (bare ++ body) f [] made ∧
        ∀ root, ((Session.ofTokens (opened ++ body) 4).ask .program).1 = .ok root ↔
          ((Session.ofTokens (bare ++ body) 4).ask .program).1 = .ok root) ∧
      ∃ made, OpensWith (opened ++ marks [.kwBegin, .kwEnd, .kwFunction]) g [] made ∧
        OpensWith (bare ++ marks [.kwBegin, .kwEnd, .kwEnd, .kwFunction]) g [] made := by
  intro marks name loop s t f g header opened bare body
  obtain ⟨statements, functions, programs⟩ := begin_transparent
  refine ⟨⟨by decide +kernel, ?loops⟩, ?ended, ?blocks⟩
  case loops =>
    exact (statements s t TokenKind.kwBegin.token rfl rfl (.inr rfl) rfl rfl).answer
  case ended =>
    have wellFormed : f.WellFormed := by
      simp [f, name, Function.WellFormed, Stmt.WellFormed, Stmt.WellFormedOrIfs,
        Stmt.WellFormedElse, Expr.WellFormed, Expr.AllWellFormed, TokenKind.token, TokenKind.isType]
    have laidOut : LaidOut f.layout (opened ++ body) [] := ⟨_, rfl, renders_map_render f.layout⟩
    obtain ⟨made, opens⟩ := exists_opensWith (Function.reads_layout wellFormed laidOut).2
    have without : OpensWith (bare ++ body) f [] made :=
      (functions _ _ _ _ f made rfl rfl opens).1 (by decide) TokenKind.kwFunction.token rfl
    exact ⟨made, opens, without, programs (Session.ofTokens (opened ++ body) 4)
      (Session.ofTokens (bare ++ body) 4) f [] made opens without rfl⟩
  case blocks =>
    have wellFormed : g.WellFormed := by
      simp [g, name, Function.WellFormed, Stmt.WellFormed, Stmt.AllWellFormed, TokenKind.token,
        TokenKind.isType]
    have laidOut : LaidOut g.layout (opened ++ marks [.kwBegin, .kwEnd, .kwFunction]) [] :=
      ⟨_, rfl, renders_map_render g.layout⟩
    obtain ⟨made, opens⟩ := exists_opensWith (Function.reads_layout wellFormed laidOut).2
    obtain ⟨front, closing, parts, _, without⟩ := (functions _ _ _ _ g made rfl rfl opens).2 rfl
    have parts : (header ++ marks [.kwBegin, .kwEnd]) ++ [TokenKind.kwFunction.token] =
        front ++ [closing] := parts
    obtain rfl : header ++ marks [.kwBegin, .kwEnd] = front := (List.append_inj' parts rfl).1
    exact ⟨made, opens, without TokenKind.kwFunction.token TokenKind.kwEnd.token
      TokenKind.kwFunction.token rfl rfl rfl⟩

end BlockSyntax
