import BlockSyntax.Grammar.Session
import BlockSyntax.Proofs.Reply
import BlockSyntax.Proofs.Spelling

/-!
# What a session answers

A session answers a request with a tree exactly when the grammar reads something from the
tokens that are left.  The tree is what the walk that numbers it makes of the session's
counter, and the session goes on behind what was read (`Session.ask_eq_ok`).  The
equivalences for programs, statements and expressions name what was read instead of its walk.
-/

set_option autoImplicit false

namespace BlockSyntax

open Reply

namespace Session

variable {s s' : Session} {root : Node}

/-- The session behind what was read, with its counter behind the nodes of the tree. -/
def behind (s : Session) (rest : List Token) (nextId : NodeId) : Session :=
  { s.advanceTo rest with nextId := nextId }

/-- The tokens taken, in the order of the source. -/
theorem taken_behind {used rest : List Token} {nextId : NodeId} (front : s.rest = used ++ rest) :
    (s.behind rest nextId).taken.reverse = s.taken.reverse ++ used := by
  have taken : (s.behind rest nextId).taken =
      (s.rest.take (s.rest.length - rest.length)).reverse ++ s.taken := rfl
  rw [taken, front, List.length_append, Nat.add_sub_cancel, List.take_left]
  simp

/-- A session holds the tokens in front of the first end marker. -/
theorem rest_ofTokens {used after : List Token} {marker : Token} {nextId : NodeId}
    (unended : Unended used) (ends : marker.kind = .eof) :
    (ofTokens (used ++ marker :: after) nextId).rest = used := by
  have passes : ∀ t ∈ used, decide (t.kind ≠ .eof) = true := fun t inside =>
    decide_eq_true (unended t inside)
  have rest : (ofTokens (used ++ marker :: after) nextId).rest =
      used ++ (marker :: after).takeWhile (·.kind ≠ .eof) := List.takeWhile_append_of_pos passes
  simpa [ends] using rest

/-- Tokens without an end marker in front of a token are taken into a session, and the
session sees that token behind them. -/
theorem ofTokens_append {used : List Token} (unended : Unended used) (next : Token)
    (after : List Token) (nextId : NodeId) :
    ∃ rest, (ofTokens (used ++ next :: after) nextId).rest = used ++ rest ∧
      nextKind rest = next.kind ∧
      rest.headD (ofTokens (used ++ next :: after) nextId).marker = next := by
  have passes : ∀ t ∈ used, decide (t.kind ≠ .eof) = true := fun t inside =>
    decide_eq_true (unended t inside)
  have stops : used.find? (·.kind = .eof) = none := by
    rw [List.find?_eq_none]
    exact fun t inside ended => unended t inside (of_decide_eq_true ended)
  refine ⟨(next :: after).takeWhile (·.kind ≠ .eof), ?_, ?_, ?_⟩
  · exact List.takeWhile_append_of_pos passes
  · by_cases ended : next.kind = .eof <;> simp [ended]
  · by_cases ended : next.kind = .eof <;> simp [ofTokens, stops, ended]

theorem exists_of_isOk {goal : Goal} (ok : (s.ask goal).1.isOk) :
    ∃ root s', s.ask goal = (.ok root, s') := by
  cases same : s.ask goal with
  | mk answer s' =>
      rw [same] at ok
      cases answer with
      | ok root => exact ⟨root, s', rfl⟩
      | error e => cases ok

theorem exists_of_not_isOk {goal : Goal} (failed : ¬ (s.ask goal).1.isOk) :
    ∃ e s', s.ask goal = (.error e, s') := by
  cases same : s.ask goal with
  | mk answer s' =>
      rw [same] at failed
      cases answer with
      | ok root => exact absurd rfl failed
      | error e => exact ⟨e, s', rfl⟩

/-- **A request succeeds exactly when something is read.** -/
theorem ask_eq_ok {goal : Goal} :
    s.ask goal = (.ok root, s') ↔ ∃ walk rest, (goal.parse s.rest).Gives walk rest ∧
      (walk s.nextId).1 = root ∧ s.behind rest (walk s.nextId).2 = s' := by
  unfold ask
  cases goal.parse s.rest with
  | ok walk rest made shorter =>
      constructor
      · intro same
        obtain ⟨tree, session⟩ := Prod.mk.inj same
        exact ⟨walk, rest, ⟨rfl, rfl⟩, Except.ok.inj tree, session⟩
      · rintro ⟨_, _, ⟨rfl, rfl⟩, rfl, rfl⟩
        rfl
  | fail expected rest made =>
      constructor
      · intro same
        cases (Prod.mk.inj same).1
      · rintro ⟨_, _, gives, _⟩
        exact gives.elim

theorem ask_program_eq_ok :
    s.ask .program = (.ok root, s') ↔ ∃ p rest, (program s.rest).Gives p rest ∧
      (p.number s.nextId).1 = root ∧ s.behind rest (p.number s.nextId).2 = s' := by
  simp only [ask_eq_ok, Goal.parse, gives_map]
  constructor
  · rintro ⟨_, rest, ⟨p, rfl, gives⟩, tree, session⟩
    exact ⟨p, rest, gives, tree, session⟩
  · rintro ⟨p, rest, gives, tree, session⟩
    exact ⟨_, rest, ⟨p, rfl, gives⟩, tree, session⟩

/-- The session behind a failure, with its counter behind the nodes completed before it. -/
def failedAt (s : Session) (expected : Expectation) (rest : List Token) (made : Nat) : Session :=
  { (s.advanceTo rest).fail expected with nextId := s.nextId + made.toUInt64 }

theorem ask_program_eq_error {e : SyntaxError} :
    s.ask .program = (.error e, s') ↔ ∃ expected rest made,
      program s.rest = .fail expected rest made ∧ (s.advanceTo rest).errorHere expected = e ∧
        s.failedAt expected rest made = s' := by
  rw [ask, Goal.parse]
  cases program s.rest with
  | ok p rest made shorter =>
      constructor
      · intro same
        cases (Prod.mk.inj same).1
      · rintro ⟨_, _, _, reply, _⟩
        cases reply
  | fail expected rest made =>
      constructor
      · intro same
        obtain ⟨answer, session⟩ := Prod.mk.inj same
        exact ⟨expected, rest, made, rfl, Except.error.inj answer, session⟩
      · rintro ⟨_, _, _, reply, rfl, rfl⟩
        cases reply
        rfl

theorem ask_expression_eq_ok :
    s.ask .expression = (.ok root, s') ↔ ∃ e rest, (expression s.rest).Gives e rest ∧
      (e.number s.nextId).1 = root ∧ s.behind rest (e.number s.nextId).2 = s' := by
  simp only [ask_eq_ok, Goal.parse, gives_widen, gives_map]
  constructor
  · rintro ⟨_, rest, ⟨e, rfl, gives⟩, tree, session⟩
    exact ⟨e, rest, gives, tree, session⟩
  · rintro ⟨e, rest, gives, tree, session⟩
    exact ⟨_, rest, ⟨e, rfl, gives⟩, tree, session⟩

theorem ask_statement_eq_ok :
    s.ask .statement = (.ok root, s') ↔ ∃ statement rest,
      (BlockSyntax.statement s.rest).Gives statement rest ∧
        (statement.number s.nextId).1 = root ∧
          s.behind rest (statement.number s.nextId).2 = s' := by
  simp only [ask_eq_ok, Goal.parse, gives_widen, gives_map]
  constructor
  · rintro ⟨_, rest, ⟨statement, rfl, gives⟩, tree, session⟩
    exact ⟨statement, rest, gives, tree, session⟩
  · rintro ⟨statement, rest, gives, tree, session⟩
    exact ⟨_, rest, ⟨statement, rfl, gives⟩, tree, session⟩

end Session

end BlockSyntax
