import BlockSyntax.Proofs.History
import BlockSyntax.Proofs.ParserPrograms

/-!
# The history of a parser

A parser that takes its tokens step by step and records and reports its errors itself is,
seen from outside, a session: at every moment of its history it is at the same place among
the same tokens, has the same counter and the same error, and has reported what the session
has reported (`Parser.Shows`).  One request keeps this, and gives a tree exactly when the
session does (`Parser.Shows.request`), and so by induction does every history.

What a request does is one of two things.  It makes a tree and records nothing, or it makes
nothing and records an error.  So nothing is returned exactly when an error is recorded,
unless one was recorded before, and the log gets one diagnostic for the error and no other
(`parser_history`).
-/

set_option autoImplicit false

namespace BlockSyntax

namespace TokenStream

/-- The tokens of a stream and then its last one again and again. -/
theorem get_of_getElem? {s : TokenStream} {index : Nat} {t : Token}
    (here : s.tokens[index]? = some t) : s.get index = t := by
  rw [tokens, List.getElem?_append] at here
  rw [get, List.getD_eq_getElem?_getD]
  split at here
  case isTrue inside => rw [here, Option.getD_some]
  case isFalse outside =>
    rw [List.getElem?_eq_none (Nat.le_of_not_lt outside), Option.getD_none]
    exact List.mem_singleton.mp (List.mem_of_getElem? here) |>.symm

theorem tokens_complete (tokens : List Token) :
    (complete tokens).tokens = Session.completed tokens := by
  unfold complete Session.completed
  cases last : tokens.getLast? with
  | none => rfl
  | some t =>
      rw [Option.any_some]
      by_cases ends : t.kind = .eof
      · rw [if_pos (decide_eq_true ends)]
        simp only [ends, dite_true]
        exact List.dropLast_append_getLast? t last
      · rw [if_neg (by simpa using ends)]
        simp only [ends, dite_false]
        rfl

/-- What is in front of the first end marker is in front of the last token too. -/
theorem takeWhile_tokens (s : TokenStream) :
    s.tokens.takeWhile (·.kind ≠ .eof) = s.front.takeWhile (·.kind ≠ .eof) := by
  have marker : [s.marker].takeWhile (·.kind ≠ .eof) = [] := by simp [s.ends]
  rw [tokens, List.takeWhile_append]
  split
  case isTrue all =>
    rw [marker, List.append_nil]
    exact (List.takeWhile_prefix _).eq_of_length all |>.symm
  case isFalse => rfl

end TokenStream

namespace Parser

/-! ## A parser and a session -/

/-- The parser is where the session is, and what it has added to a log is what the session has
reported. -/
structure Shows (log : List Diagnostic) (p : Parser) (s : Session) : Prop where
  /-- Its tokens are those taken, those left, the end marker and others. -/
  tokens : ∃ behind, p.stream.tokens = s.taken.reverse ++ s.rest ++ s.marker :: behind
  /-- The cursor counts the tokens taken. -/
  cursor : p.cursor = s.taken.length
  /-- The same tokens are left. -/
  rest : p.rest = s.rest
  /-- The same token was taken last. -/
  last : p.last? = s.taken.head?
  /-- The counters are the same. -/
  nextId : p.nextId = s.nextId
  /-- The same error is recorded. -/
  error : p.error? = s.error?
  /-- It was reported, and nothing else. -/
  log : p.log = log ++ s.diagnostics

section Shows

variable {log : List Diagnostic} {p : Parser} {s : Session}

/-- A parser and a session at the start of the same tokens. -/
theorem shows_ofTokens (tokens : List Token) (nextId : NodeId) (log : List Diagnostic) :
    (ofTokens tokens nextId log).Shows log (.ofTokens tokens nextId) := by
  obtain ⟨behind, whole⟩ := Session.completed_eq tokens nextId
  have same := (TokenStream.tokens_complete tokens).trans whole
  have front : (Session.completed tokens).takeWhile (·.kind ≠ .eof) = _ :=
    Session.rest_completed tokens nextId
  refine ⟨⟨behind, same⟩, rfl, ?_, rfl, rfl, rfl, (List.append_nil log).symm⟩
  show (TokenStream.complete tokens).front.takeWhile (·.kind ≠ .eof) = _
  rw [← TokenStream.takeWhile_tokens, TokenStream.tokens_complete]
  exact front

/-- A counter that others move. -/
theorem Shows.moved (shows : p.Shows log s) (nextId : NodeId) :
    Parser.Shows log { p with nextId := nextId } { s with nextId := nextId } :=
  ⟨shows.tokens, shows.cursor, shows.rest, shows.last, rfl, shows.error, shows.log⟩

/-- Tokens that are taken. -/
theorem Shows.take (shows : p.Shows log s) {used us : List Token} (left : p.rest = used ++ us)
    (drawn : NodeId) :
    (p.take used drawn).Shows log { s.advanceTo us with nextId := s.nextId + drawn } := by
  have left' : s.rest = used ++ us := shows.rest ▸ left
  have taken : (s.advanceTo us).taken = used.reverse ++ s.taken := by
    rw [Session.advanceTo, left', List.length_append, Nat.add_sub_cancel, List.take_left]
  obtain ⟨behind, tokens⟩ := shows.tokens
  constructor
  case tokens =>
    refine ⟨behind, tokens.trans ?_⟩
    show _ = (s.advanceTo us).taken.reverse ++ us ++ s.marker :: behind
    simp only [taken, left', List.reverse_append, List.reverse_reverse, List.append_assoc]
  case cursor =>
    show p.cursor + used.length = (s.advanceTo us).taken.length
    rw [taken, shows.cursor, List.length_append, List.length_reverse, Nat.add_comm]
  case rest => exact rest_take left drawn
  case last =>
    show used.getLast?.or p.last? = (s.advanceTo us).taken.head?
    rw [taken, shows.last, List.head?_append, List.head?_reverse]
  case nextId => exact congrArg (· + drawn) shows.nextId
  case error => exact shows.error
  case log => exact shows.log

/-- The tokens of the parser around the cursor are those of the session. -/
theorem Shows.get_eq (shows : p.Shows log s) {index : Nat} {t : Token}
    (here : ∀ behind, (s.taken.reverse ++ s.rest ++ s.marker :: behind)[index]? = some t) :
    p.stream.get index = t := by
  obtain ⟨behind, tokens⟩ := shows.tokens
  exact TokenStream.get_of_getElem? (tokens ▸ here behind)

/-- A failure at the cursor is the same syntax error. -/
theorem Shows.errorHere_eq (shows : p.Shows log s) (expected : Expectation) :
    p.errorHere expected = s.errorHere expected := by
  have last : p.last?.getD (p.stream.get 0) = s.taken.headD s.current := by
    rw [shows.last]
    cases taken : s.taken with
    | cons t ts => rfl
    | nil =>
        refine shows.get_eq fun behind => ?_
        rw [taken, Session.current]
        cases s.rest <;> rfl
  have found : (if p.atEnd && 0 < p.cursor then p.stream.get (p.cursor - 1) else p.peek 0) =
      s.rest.headD (s.taken.headD s.marker) := by
    cases rest : s.rest with
    | cons t us =>
        have left : p.rest = t :: us := shows.rest.trans rest
        have inside : p.atEnd = false := by
          rw [Bool.eq_false_iff, ne_eq, atEnd_iff, left]
          exact List.cons_ne_nil t us
        rw [inside, Bool.false_and, if_neg Bool.false_ne_true, peek_of_rest left]
        rfl
    | nil =>
        have ended : p.atEnd = true := atEnd_iff.mpr (shows.rest.trans rest)
        rw [ended, Bool.true_and, peek, shows.cursor]
        cases taken : s.taken with
        | nil =>
            refine shows.get_eq fun behind => ?_
            rw [taken, rest]
            rfl
        | cons t ts =>
            refine shows.get_eq fun behind => ?_
            rw [taken, rest]
            simp
  rw [errorHere, Session.errorHere, last, found]

/-- An error that is recorded at the cursor, unless one is recorded already. -/
theorem Shows.fail (shows : p.Shows log s) (expected : Expectation) :
    (p.fail expected).Shows log (s.fail expected) := by
  unfold Parser.fail Session.fail
  rw [shows.error, shows.errorHere_eq]
  cases recorded : s.error? with
  | some e =>
      have same : { s with error? := (some e).or (some (s.errorHere expected)) } = s := by
        rw [Option.some_or, ← recorded]
      rw [same]
      exact shows
  | none =>
      obtain ⟨tokens, cursor, rest, last, nextId, _, reported⟩ := shows
      refine ⟨tokens, cursor, rest, last, nextId, rfl, ?_⟩
      show p.log ++ _ = _
      rw [reported, Session.diagnostics, recorded, List.append_assoc]
      rfl

/-- **One request** is answered alike by a parser and a session, and leaves them at the same
place. -/
theorem Shows.request (shows : p.Shows log s) (goal : Goal) :
    (p.request goal).1 = (s.ask goal).1.toOption ∧
      (p.request goal).2.Shows log (s.ask goal).2 := by
  have follows := request_follows p goal
  rw [shows.rest] at follows
  unfold Parser.request Session.ask
  cases reply : goal.parse s.rest with
  | ok numbering us made shorter =>
      rw [reply] at follows
      obtain ⟨used, root, left, runs, numbered⟩ := follows
      rw [shows.nextId] at numbered
      rw [runs]
      simp only [numbered]
      exact ⟨rfl, shows.take left _⟩
  | fail expected us made =>
      rw [reply] at follows
      obtain ⟨used, left, runs⟩ := follows
      rw [runs]
      exact ⟨rfl, (shows.take left _).fail expected⟩

/-- Whatever happens to both, the parser is where the session is. -/
theorem Shows.run (shows : p.Shows log s) (events : List Session.Event) :
    (events.foldl after p).Shows log (events.foldl Session.after s) := by
  induction events generalizing p s with
  | nil => exact shows
  | cons event events ih =>
      cases event with
      | ask goal => exact ih (shows.request goal).2
      | moved nextId => exact ih (shows.moved nextId)

end Shows

/-! ## One request -/

variable {p : Parser}

theorem error?_fail_isSome (p : Parser) (expected : Expectation) :
    (p.fail expected).error?.isSome = true := by
  unfold fail
  split
  case isTrue recorded => exact recorded
  case isFalse => rfl

theorem stream_fail (p : Parser) (expected : Expectation) :
    (p.fail expected).stream = p.stream := by
  unfold fail
  split <;> rfl

/-- **What a request does.**  It makes a tree and records nothing, or it makes nothing and
records an error. -/
theorem request_cases (p : Parser) (goal : Goal) :
    (∃ root used drawn, p.request goal = (some root, p.take used drawn)) ∨
      ∃ expected used drawn, p.request goal = (none, (p.take used drawn).fail expected) := by
  have follows := request_follows p goal
  cases reply : goal.parse p.rest with
  | ok numbering us made shorter =>
      rw [reply] at follows
      obtain ⟨used, root, _, runs, _⟩ := follows
      exact .inl ⟨root, used, made.toUInt64, runs⟩
  | fail expected us made =>
      rw [reply] at follows
      obtain ⟨used, _, runs⟩ := follows
      exact .inr ⟨expected, used, made.toUInt64, runs⟩

/-- Nothing is returned exactly when an error is recorded, if none was recorded before. -/
theorem request_eq_none_iff (unfailed : p.error? = none) (goal : Goal) :
    (p.request goal).1 = none ↔ (p.request goal).2.error?.isSome := by
  rcases p.request_cases goal with ⟨root, used, drawn, same⟩ | ⟨expected, used, drawn, same⟩
  · rw [same]
    refine iff_of_false (Option.some_ne_none root) ?_
    show ¬ p.error?.isSome
    rw [unfailed]
    exact Bool.false_ne_true
  · rw [same]
    exact iff_of_true rfl (error?_fail_isSome _ expected)

/-- The tokens of a parser stay what they are. -/
theorem stream_run (p : Parser) (events : List Session.Event) :
    (events.foldl after p).stream = p.stream := by
  induction events generalizing p with
  | nil => rfl
  | cons event events ih =>
      refine (ih (p.after event)).trans ?_
      cases event with
      | moved nextId => rfl
      | ask goal =>
          rw [after]
          rcases p.request_cases goal with ⟨_, _, _, same⟩ | ⟨_, _, _, same⟩
          · rw [same]
            rfl
          · rw [same]
            exact stream_fail _ _

end Parser

/-- **The history of a parser.**  Let a parser of any tokens be asked for anything, and let its
counter be moved by others, in any order.

* The cursor is not behind the first end marker, and nothing that happens later moves it back.
* The token taken last is the one in front of the cursor, and there is none exactly at the
  start.
* A request made while there is no error returns nothing exactly when it records an error.
* An error stays what it is.
* What was added to the log is one diagnostic for the error, if there is one, and nothing
  else. -/
theorem parser_history (tokens : List Token) (start : NodeId) (log : List Diagnostic)
    (events later : List Session.Event) :
    let p := events.foldl Parser.after (.ofTokens tokens start log)
    let p' := later.foldl Parser.after p
    p.stream.tokens = Session.completed tokens ∧
      p.cursor ≤ Session.firstEnd tokens ∧ p.cursor ≤ p'.cursor ∧
      (0 < p.cursor → p.last? = (Session.completed tokens)[p.cursor - 1]?) ∧
      (p.last? = none ↔ p.cursor = 0) ∧
      (∀ goal, p.error? = none →
        ((p.request goal).1 = none ↔ (p.request goal).2.error?.isSome)) ∧
      (∀ e, p.error? = some e → p'.error? = some e) ∧
      p.log = log ++ (p.error?.map fun e =>
        ⟨.error, ascii "B2001", e.message, e.found.location⟩).toList := by
  intro p p'
  have shows := (Parser.shows_ofTokens tokens start log).run events
  have shows' := shows.run later
  have advances := Session.advances_run (.ofTokens tokens start) events
  obtain ⟨within, _, last, first⟩ := advances.atCursor
  rw [Session.cursor, ← shows.cursor] at within last first
  rw [Session.last?, ← shows.last] at last first
  refine ⟨?tokens, within, ?forward, last, first, ?nothing, ?stays, ?reported⟩
  case tokens => rw [Parser.stream_run, Parser.ofTokens, TokenStream.tokens_complete]
  case forward =>
    rw [shows.cursor, shows'.cursor]
    exact (Session.advances_run _ later).cursor_le
  case nothing => exact fun goal unfailed => Parser.request_eq_none_iff unfailed goal
  case stays =>
    intro e recorded
    rw [shows.error] at recorded
    rw [shows'.error]
    exact Session.error?_run recorded later
  case reported =>
    rw [shows.log, shows.error]
    rfl

/-- A declaration without a name fails at its semicolon, and a statement that is asked for next
fails there too; the second failure is not reported. -/
theorem parser_history_two_failures :
    let tokens := [TokenKind.kwInt, .semicolon, .kwPrint, .leftParen, .semicolon, .eof].map
      TokenKind.token
    let p := [.ask .program, .ask .statement].foldl Parser.after (.ofTokens tokens 1 [])
    p.cursor = 1 ∧ p.last? = some TokenKind.kwInt.token ∧ (p.request .expression).1 = none ∧
      p.log = [⟨.error, ascii "B2001", ascii "expected identifier for variable",
        TokenKind.semicolon.token.location⟩] := by
  intro tokens p
  have history := parser_history tokens 1 [] [.ask .program, .ask .statement] []
  obtain ⟨_, _, _, last, _, _, _, reported⟩ := history
  have cursor : p.cursor = 1 := by decide +kernel
  have positive : 0 < p.cursor := cursor.symm ▸ Nat.one_pos
  refine ⟨cursor, (last positive).trans ?_, by decide +kernel, reported.trans ?_⟩ <;> decide +kernel

end BlockSyntax
