import BlockSyntax.Proofs.ViablePrefix

/-!
# How far a request looks ahead

What a request answers depends on the tokens up to the cursor at which it stops, and on no
token behind that one.  Of the token at the cursor only a failure depends, because it names
it; a tree depends on its kind alone.

The grammar says so of what is left of the tokens (`Goal.parse_determined`), and two replies
that match make two sessions answer the same (`Session.ask_eq_of_matches`).  What remains is
to find the tokens of a session at their places among all tokens of its source, which are
completed by an end marker.
-/

set_option autoImplicit false

namespace BlockSyntax

open Reply

/-! ## Replies -/

/-- The reply to a request is determined by the tokens taken and the kind of the next one. -/
theorem Goal.parse_determined (goal : Goal) (us : List Token) :
    (goal.parse us).Determines id id us id goal.parse := by
  cases goal with
  | program => exact (viableAt_program us).determines.map fun _ => rfl
  | statement =>
      have read : ((BlockSyntax.statement us).map Stmt.number).Determines id id us id fun vs =>
          (BlockSyntax.statement vs).map Stmt.number :=
        (viableAt_statement us).determines.map fun _ => rfl
      simp only [Goal.parse]
      exact read.widen
  | expression =>
      have read : ((BlockSyntax.expression us).map Expr.number).Determines id id us id fun vs =>
          (BlockSyntax.expression vs).map Expr.number :=
        (viableAt_expression us).determines.map fun _ => rfl
      simp only [Goal.parse]
      exact read.widen

namespace Session

/-- **Two sessions whose replies match answer the same**, from the same counter and after the
same failures, when a failure names the same tokens in both. -/
theorem ask_eq_of_matches {s t : Session} {goal : Goal} {rest : List Token}
    (same : (goal.parse s.rest).Matches id rest (goal.parse t.rest))
    (nextId : t.nextId = s.nextId) (recorded : t.error? = s.error?)
    (names : ∀ expected us made, goal.parse s.rest = .fail expected us made →
      (t.advanceTo rest).errorHere expected = (s.advanceTo us).errorHere expected) :
    t.ask goal = ((s.ask goal).1, { t.advanceTo rest with
      nextId := (s.ask goal).2.nextId, error? := (s.ask goal).2.error? }) := by
  unfold ask
  cases reply : goal.parse s.rest with
  | ok walk us made shorter =>
      rw [reply] at same
      obtain ⟨_, reply'⟩ := same
      rw [reply']
      show (Except.ok (walk t.nextId).1, (⟨(t.advanceTo rest).taken, rest, t.marker,
          (walk t.nextId).2, t.error?⟩ : Session)) =
        (Except.ok (walk s.nextId).1, ⟨(t.advanceTo rest).taken, rest, t.marker,
          (walk s.nextId).2, s.error?⟩)
      rw [nextId, recorded]
  | fail expected us made =>
      rw [reply] at same
      have reply' : goal.parse t.rest = .fail expected rest made := same
      have named := names expected us made reply
      rw [reply']
      show (Except.error ((t.advanceTo rest).errorHere expected),
        { t.advanceTo rest with
          nextId := t.nextId + made.toUInt64
          error? := t.error?.or (some ((t.advanceTo rest).errorHere expected)) }) = _
      rw [named, nextId, recorded]
      rfl

/-- A failure names the same tokens when the same ones were taken and the same one is next. -/
theorem errorHere_congr {s t : Session} (taken : t.taken = s.taken)
    (current : t.current = s.current) (ended : t.rest = [] ↔ s.rest = []) (expected : Expectation) :
    t.errorHere expected = s.errorHere expected := by
  have found : t.rest.headD (t.taken.headD t.marker) = s.rest.headD (s.taken.headD s.marker) := by
    rw [Session.current, Session.current] at current
    cases left : s.rest with
    | nil =>
        rw [left, ended.mpr left] at current
        rw [ended.mpr left, taken]
        exact congrArg s.taken.headD current
    | cons u us =>
        cases left' : t.rest with
        | nil => simp [ended.mp left'] at left
        | cons v vs =>
            rw [left, left'] at current
            exact current
  rw [errorHere, errorHere, found, taken, current]

/-! ## Sessions at a cursor -/

/-- The session at a cursor among the given tokens, with a counter and the first failure that
there has been.  No session passes the first end marker (`AtCursor.within`). -/
def resumed (tokens : List Token) (cursor : Nat) (nextId : NodeId)
    (error? : Option SyntaxError) : Session where
  taken := ((ofTokens tokens nextId).rest.take cursor).reverse
  rest := (ofTokens tokens nextId).rest.drop cursor
  marker := (ofTokens tokens nextId).marker
  nextId := nextId
  error? := error?

theorem advances_resumed (tokens : List Token) (cursor : Nat) (nextId : NodeId)
    (error? : Option SyntaxError) :
    (ofTokens tokens nextId).Advances (resumed tokens cursor nextId error?) :=
  ⟨⟨_, (List.take_append_drop cursor _).symm, (List.append_nil _).symm⟩, rfl⟩

/-- Every session that has taken tokens from the front of those given is one at a cursor. -/
theorem Advances.eq_resumed {s : Session} {tokens : List Token} {nextId : NodeId}
    (advances : (ofTokens tokens nextId).Advances s) :
    s = resumed tokens s.cursor s.nextId s.error? := by
  obtain ⟨⟨used, front, taken⟩, marker⟩ := advances
  have whole : (ofTokens tokens s.nextId).rest = used ++ s.rest := front
  have cursor : s.cursor = used.length := cursor_of_taken taken
  rw [resumed, whole, cursor, List.take_left, List.drop_left]
  cases s with
  | mk sTaken sRest sMarker sNextId sError =>
      obtain rfl : sTaken = used.reverse := taken.trans (List.append_nil _)
      obtain rfl : sMarker = (ofTokens tokens sNextId).marker := marker
      rfl

/-- The next token is of the kind at which the grammar looks. -/
theorem current_kind {s : Session} (ends : s.marker.kind = .eof) :
    s.current.kind = nextKind s.rest := by
  rw [current]
  cases s.rest with
  | nil => exact ends
  | cons t us => rfl

section Cursor

variable {tokens : List Token} {cursor : Nat} {nextId : NodeId} {error? : Option SyntaxError}

theorem cursor_resumed (within : cursor ≤ firstEnd tokens) :
    (resumed tokens cursor nextId error?).cursor = cursor := by
  rw [firstEnd_eq_length tokens nextId] at within
  rw [Session.cursor, resumed, List.length_reverse, List.length_take]
  exact Nat.min_eq_left within

variable {front behind : List Token} (whole : (ofTokens tokens nextId).rest = front ++ behind)
include whole

theorem unended_behind : Unended behind := by
  have unended : Unended (ofTokens tokens nextId).rest := unended_takeWhile tokens
  rw [whole, unended_append] at unended
  exact unended.2

theorem length_le_firstEnd : front.length ≤ firstEnd tokens := by
  rw [firstEnd_eq_length tokens nextId, whole, List.length_append]
  exact Nat.le_add_right _ _

theorem rest_resumed (within : cursor ≤ front.length) :
    (resumed tokens cursor nextId error?).rest = front.drop cursor ++ behind := by
  rw [resumed, whole]
  exact List.drop_append_of_le_length within

/-- A session at a cursor moves to another by taking what is between them. -/
theorem advanceTo_resumed (within : cursor ≤ front.length) :
    (resumed tokens cursor nextId error?).advanceTo behind =
      resumed tokens front.length nextId error? := by
  have between : (front.drop cursor ++ behind).take
      ((front.drop cursor ++ behind).length - behind.length) = front.drop cursor := by
    rw [List.length_append, Nat.add_sub_cancel, List.take_left]
  rw [advanceTo, rest_resumed whole within, between, resumed, resumed, whole, List.take_left,
    List.drop_left, List.take_append_of_le_length within, ← List.reverse_append,
    List.take_append_drop]

theorem rest_resumed_length : (resumed tokens front.length nextId error?).rest = behind := by
  rw [rest_resumed whole (Nat.le_refl _), List.drop_length, List.nil_append]

/-- The token at the cursor is the next one. -/
theorem current_resumed (error? : Option SyntaxError) :
    (completed tokens)[front.length]? =
      some (resumed tokens front.length nextId error?).current := by
  have current := (advances_resumed tokens front.length nextId error?).atCursor.current
  rwa [cursor_resumed (length_le_firstEnd whole)] at current

/-- The grammar sees the kind of the token at the cursor. -/
theorem kind_resumed : (completed tokens)[front.length]?.map (·.kind) = some (nextKind behind) := by
  have ends : (resumed tokens front.length nextId none).marker.kind = .eof :=
    marker_kind tokens nextId
  rw [current_resumed whole none, Option.map_some, current_kind ends, rest_resumed_length whole]

/-- A failure at a cursor names the same tokens among all tokens with the same ones in front of
the cursor and the same one there. -/
theorem errorHere_resumed {others behind' : List Token}
    (whole' : (ofTokens others nextId).rest = front ++ behind')
    (found : (completed others)[front.length]? = (completed tokens)[front.length]?)
    (expected : Expectation) :
    (resumed others front.length nextId error?).errorHere expected =
      (resumed tokens front.length nextId error?).errorHere expected := by
  have unended := unended_behind whole
  have unended' := unended_behind whole'
  refine errorHere_congr ?_ ?_ ?_ expected
  · rw [resumed, resumed, whole, whole', List.take_left, List.take_left]
  · rw [current_resumed whole error?, current_resumed whole' error?] at found
    exact Option.some.inj found
  · have kinds := congrArg (Option.map (·.kind)) found
    rw [kind_resumed whole, kind_resumed whole'] at kinds
    rw [rest_resumed_length whole, rest_resumed_length whole', ← nextKind_eq_eof unended,
      ← nextKind_eq_eof unended', Option.some.inj kinds]

end Cursor

theorem rest_ask (s : Session) (goal : Goal) : (s.ask goal).2.rest = (goal.parse s.rest).left := by
  unfold ask
  cases goal.parse s.rest <;> rfl

theorem ask_fails {s : Session} {goal : Goal} {expected : Expectation} {us : List Token}
    {made : Nat} (reply : goal.parse s.rest = .fail expected us made) : ¬ (s.ask goal).1.isOk := by
  unfold ask
  rw [reply]
  exact Bool.false_ne_true

/-! ## Tokens that agree -/

/-- Tokens that agree with others in front of a cursor start with the same tokens there. -/
theorem rest_of_agree {tokens others : List Token} {p : Nat} (within : p ≤ firstEnd tokens)
    (agree : ∀ k < p, (completed others)[k]? = (completed tokens)[k]?) (nextId : NodeId) :
    ∃ behind, (ofTokens others nextId).rest = (ofTokens tokens nextId).rest.take p ++ behind := by
  obtain ⟨after, whole⟩ := completed_eq tokens nextId
  have unended : Unended ((ofTokens tokens nextId).rest.take p) := fun t inside =>
    unended_takeWhile tokens t (List.mem_of_mem_take inside)
  have same : (completed others).take p = (ofTokens tokens nextId).rest.take p := by
    have long : p ≤ (ofTokens tokens nextId).rest.length :=
      firstEnd_eq_length tokens nextId ▸ within
    have front : (completed tokens).take p = (ofTokens tokens nextId).rest.take p := by
      rw [whole, List.take_append_of_le_length long]
    rw [← front]
    ext k : 1
    rw [List.getElem?_take, List.getElem?_take]
    split
    case isTrue below => exact agree k below
    case isFalse => rfl
  rw [← rest_completed others, ← List.take_append_drop p (completed others), same,
    rest_ofTokens_append unended]
  exact ⟨_, rfl⟩

end Session

/-! ## Requests on tokens that agree -/

/-- **Tokens behind the cursor of a request do not matter.**  A request is made from a cursor
among tokens, with a counter and after some failure or none, and it stops at a cursor, with an
answer.  Other tokens agree with those in front of the cursor at which it stopped, and have a
token of the same kind there; if the answer is a failure they have the same token there.  Then
the same request on the other tokens, from the same cursor and counter and after the same
failure, gives the same answer, with the same identifiers in the tree or with the same tokens in
the syntax error, stops at the same cursor, and leaves the same counter and failure behind. -/
theorem ask_lookahead {tokens others : List Token} {cursor : Nat} {nextId : NodeId}
    {error? : Option SyntaxError} {goal : Goal} {answer : Except SyntaxError Node} {s : Session}
    (within : cursor ≤ Session.firstEnd tokens)
    (asked : (Session.resumed tokens cursor nextId error?).ask goal = (answer, s))
    (taken : ∀ k < s.cursor, (Session.completed others)[k]? = (Session.completed tokens)[k]?)
    (kind : (Session.completed others)[s.cursor]?.map (·.kind) =
      (Session.completed tokens)[s.cursor]?.map (·.kind))
    (found : ¬ answer.isOk →
      (Session.completed others)[s.cursor]? = (Session.completed tokens)[s.cursor]?) :
    ∃ t, (Session.resumed others cursor nextId error?).ask goal = (answer, t) ∧
      t.cursor = s.cursor ∧ t.nextId = s.nextId ∧ t.error? = s.error? := by
  have step := (Session.ask_step (Session.resumed tokens cursor nextId error?) goal).1
  have left := Session.rest_ask (Session.resumed tokens cursor nextId error?) goal
  rw [asked] at step left
  have advances := (Session.advances_resumed tokens cursor nextId error?).trans step
  have later : cursor ≤ s.cursor := Session.cursor_resumed within ▸ step.cursor_le
  -- both lists of tokens start with those in front of the cursor where the first session stopped
  obtain ⟨behind, whole'⟩ := Session.rest_of_agree advances.atCursor.within taken nextId
  obtain ⟨⟨front, whole, used⟩, _⟩ := advances
  have size : s.cursor = front.length := Session.cursor_of_taken used
  rw [size, whole, List.take_left] at whole'
  rw [size] at later kind found
  have replies : (goal.parse (Session.resumed tokens cursor nextId error?).rest).Matches id behind
      (goal.parse (Session.resumed others cursor nextId error?).rest) := by
    obtain ⟨between, parts, alike⟩ :=
      goal.parse_determined (Session.resumed tokens cursor nextId error?).rest
    rw [Session.kind_resumed whole, Session.kind_resumed whole'] at kind
    rw [← left, Session.rest_resumed whole later] at parts
    obtain rfl : front.drop cursor = between := List.append_cancel_right parts
    refine alike _ behind ?_ (left ▸ Option.some.inj kind)
    rw [id, List.map_id, Session.rest_resumed whole' later]
  have names : ∀ expected us made,
      goal.parse (Session.resumed tokens cursor nextId error?).rest = .fail expected us made →
        ((Session.resumed others cursor nextId error?).advanceTo behind).errorHere expected =
          ((Session.resumed tokens cursor nextId error?).advanceTo us).errorHere expected := by
    intro expected us made reply
    have failed := Session.ask_fails reply
    rw [asked] at failed
    rw [reply] at left
    obtain rfl : s.rest = us := left
    rw [Session.advanceTo_resumed whole' later, Session.advanceTo_resumed whole later]
    exact Session.errorHere_resumed whole whole' (found failed) expected
  refine ⟨Session.resumed others s.cursor s.nextId s.error?, ?_, ?_, rfl, rfl⟩
  · rw [Session.ask_eq_of_matches replies rfl rfl names, asked,
      Session.advanceTo_resumed whole' later, size]
    rfl
  · rw [size]
    exact Session.cursor_resumed (Session.length_le_firstEnd whole')

/-- A conditional behind `begin` fails at a bracket, and it fails there in the same way when other
tokens are behind the bracket and no end marker. -/
theorem ask_lookahead_bracket :
    let front := [TokenKind.kwBegin, .kwIf, .leftParen, .identifier, .rightParen, .identifier,
      .rightParen].map TokenKind.token
    let s := Session.resumed (front ++ [TokenKind.semicolon.token, TokenKind.eof.token]) 1 5 none
    let t := Session.resumed (front ++ [TokenKind.kwElse.token]) 1 5 none
    (∃ e, (s.ask .statement).1 = .error e) ∧ (t.ask .statement).1 = (s.ask .statement).1 ∧
      (s.ask .statement).2.cursor = 6 ∧ (t.ask .statement).2.cursor = 6 := by
  intro front s t
  have failed : ¬ (s.ask .statement).1.isOk := by decide +kernel
  have cursor : (s.ask .statement).2.cursor = 6 := by decide +kernel
  obtain ⟨e, s', asked⟩ := Session.exists_of_not_isOk failed
  rw [asked] at cursor ⊢
  obtain ⟨t', asked', cursor', _, _⟩ : ∃ t', t.ask .statement = (.error e, t') ∧
      t'.cursor = s'.cursor ∧ t'.nextId = s'.nextId ∧ t'.error? = s'.error? :=
    ask_lookahead (by decide +kernel) asked (by rw [cursor]; decide +kernel)
      (by rw [cursor]; decide +kernel) (fun _ => by rw [cursor]; decide +kernel)
  rw [asked']
  exact ⟨⟨e, rfl⟩, rfl, cursor, cursor'.trans cursor⟩

end BlockSyntax
