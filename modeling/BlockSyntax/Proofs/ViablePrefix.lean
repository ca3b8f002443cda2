import BlockSyntax.Proofs.GrammarViability
import BlockSyntax.Proofs.History

/-!
# A rejected program is rejected at the right token

When a request for a program fails, the cursor stands where the source stops being the
beginning of a program.  It is not behind that place: the tokens in front of the cursor can
be completed.  And it is not in front of it: with the token at the cursor they cannot.

The session only adds the end of the source to what is known of the grammar: it parses the
tokens in front of the first end marker, and where they end the next kind is that of the
marker.
-/

set_option autoImplicit false

namespace BlockSyntax

open Reply

/-! ## The end of the source -/

theorem nextKind_takeWhile (tokens : List Token) :
    nextKind (tokens.takeWhile (·.kind ≠ .eof)) = nextKind tokens := by
  cases tokens with
  | nil => rfl
  | cons t us => by_cases ends : t.kind = .eof <;> simp [ends]

theorem nextKind_dropWhile (tokens : List Token) :
    nextKind (tokens.dropWhile (·.kind ≠ .eof)) = .eof := by
  have stops := List.head?_dropWhile_not (fun t : Token => decide (t.kind ≠ .eof)) tokens
  cases same : tokens.dropWhile (·.kind ≠ .eof) with
  | nil => rfl
  | cons t us =>
      rw [same] at stops
      simpa using stops

namespace Session

/-- Tokens without an end marker are in front of the end of the source. -/
theorem rest_ofTokens_append {used rest : List Token} (unended : Unended used) (start : NodeId) :
    (ofTokens (used ++ rest) start).rest = used ++ rest.takeWhile (·.kind ≠ .eof) :=
  List.takeWhile_append_of_pos fun t inside => decide_eq_true (unended t inside)

/-- A request splits the tokens at the cursor. -/
theorem ask_splits {tokens : List Token} {start : NodeId} {goal : Goal}
    {answer : Except SyntaxError Node} {s : Session}
    (asked : (ofTokens tokens start).ask goal = (answer, s)) :
    (ofTokens tokens start).rest = tokens.take s.cursor ++ s.rest ∧
      nextKind (tokens.drop s.cursor) = nextKind s.rest := by
  obtain ⟨⟨⟨used, front, taken⟩, _⟩, _⟩ := ask_step (ofTokens tokens start) goal
  rw [asked] at front taken
  have cursor : s.cursor = used.length := cursor_of_taken taken
  have whole : tokens = used ++ (s.rest ++ tokens.dropWhile (·.kind ≠ .eof)) := by
    rw [← List.append_assoc, ← front]
    exact List.takeWhile_append_dropWhile.symm
  constructor
  · rw [front, cursor, whole, List.take_left]
  · rw [cursor, whole, List.drop_left]
    cases s.rest with
    | nil => exact nextKind_dropWhile tokens
    | cons t us => rfl

/-- A program that takes all tokens is accepted in front of an end marker. -/
theorem ask_program_of_gives {us after : List Token} {p : Program} {marker : Token}
    (gives : (program us).Gives p []) (ends : marker.kind = .eof) (start : NodeId) :
    ∃ root s, (ofTokens (us ++ marker :: after) start).ask .program = (.ok root, s) ∧
      s.taken.reverse = us := by
  have unended : Unended us := DerivesProgram.unended (program_derived gives)
  have rest : (ofTokens (us ++ marker :: after) start).rest = us := rest_ofTokens unended ends
  rw [← rest] at gives
  refine ⟨_, _, ask_program_eq_ok.mpr ⟨p, [], gives, rfl, rfl⟩, ?_⟩
  rw [taken_behind (by rw [rest, List.append_nil])]
  rfl

end Session

/-! ## The place of the failure -/

/-- **The tokens that a rejected program has taken are its longest viable prefix.**  When a
request for a program fails, there are tokens that go on from those in front of the cursor: with
an end marker behind them they are accepted as a program, which takes them all.  So no token is
taken behind which there is no program any more, whatever constructs are open.  With the token
at the cursor there is no program: all that starts with the same tokens and goes on with one of
the same kind is rejected, for the same expectation. -/
theorem ask_program_prefix_viable (tokens : List Token) (start : NodeId) (e : SyntaxError)
    (s : Session) (fails : (Session.ofTokens tokens start).ask .program = (.error e, s)) :
    (∃ more, Unended more ∧ ∀ (marker : Token) (after : List Token) (start' : NodeId),
      marker.kind = .eof → ∃ root s',
        (Session.ofTokens (tokens.take s.cursor ++ more ++ marker :: after) start').ask .program =
          (.ok root, s') ∧ s'.taken.reverse = tokens.take s.cursor ++ more) ∧
    ∀ (others : List Token) (start' : NodeId), others.take s.cursor = tokens.take s.cursor →
      nextKind (others.drop s.cursor) = nextKind (tokens.drop s.cursor) → ∃ e' s',
        (Session.ofTokens others start').ask .program = (.error e', s') ∧
          e'.expected = e.expected := by
  obtain ⟨parts, next⟩ := Session.ask_splits fails
  obtain ⟨expected, left, made, failed, error, reached⟩ := Session.ask_program_eq_error.mp fails
  obtain rfl : s.rest = left := by rw [← reached]; rfl
  rw [parts] at failed
  obtain ⟨more, p, gives⟩ := program_fails_completed failed
  have unended : Unended (tokens.take s.cursor ++ more) :=
    DerivesProgram.unended (program_derived gives)
  rw [unended_append] at unended
  refine ⟨⟨more, unended.2, ?accepted⟩, ?rejected⟩
  case accepted =>
    intro marker after start' ends
    exact Session.ask_program_of_gives gives ends start'
  case rejected =>
    intro others start' sameTaken sameNext
    have split : others = tokens.take s.cursor ++ others.drop s.cursor := by
      rw [← sameTaken, List.take_append_drop]
    have again := program_fails_alike failed
      ((nextKind_takeWhile (others.drop s.cursor)).trans (sameNext.trans next))
    rw [← Session.rest_ofTokens_append unended.1 start', ← split] at again
    refine ⟨_, _, Session.ask_program_eq_error.mpr ⟨expected, _, made, again, rfl, rfl⟩, ?_⟩
    rw [← error]
    rfl

/-- A function that opened with `begin` is rejected at a comma in an index, in a loop, in a
conditional. -/
theorem ask_program_prefix_viable_index :
    let tokens := [TokenKind.kwBegin, .kwFunction, .identifier, .leftParen, .rightParen, .colon,
      .kwInt, .kwIf, .leftParen, .identifier, .rightParen, .kwFor, .leftParen, .identifier,
      .kwGoes, .kwFrom, .intLiteral, .kwTo, .intLiteral, .rightParen, .identifier, .leftBracket,
      .intLiteral, .comma, .eof].map TokenKind.token
    let asked := (Session.ofTokens tokens 1).ask .program
    (∃ e, asked.1 = .error e) ∧ asked.2.cursor = 23 ∧
      ∃ more, Unended more ∧ ∀ (marker : Token) (after : List Token) (start' : NodeId),
        marker.kind = .eof → ∃ root s',
          (Session.ofTokens (tokens.take 23 ++ more ++ marker :: after) start').ask .program =
            (.ok root, s') ∧ s'.taken.reverse = tokens.take 23 ++ more := by
  intro tokens asked
  have failed : ¬ asked.1.isOk := by decide +kernel
  have cursor : asked.2.cursor = 23 := by decide +kernel
  obtain ⟨e, s, fails⟩ := Session.exists_of_not_isOk failed
  have answer : asked = (.error e, s) := fails
  obtain ⟨accepted, _⟩ := ask_program_prefix_viable tokens 1 e s fails
  rw [answer] at cursor ⊢
  refine ⟨⟨e, rfl⟩, cursor, ?_⟩
  rw [← cursor]
  exact accepted

end BlockSyntax
