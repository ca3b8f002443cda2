import BlockSyntax.Proofs.Endings

/-!
# Where faults are reported

A diagnostic is located at the text that is at fault.  For a lexical error this is what the
scanner stumbled over (`LexicalFault.StandsAt`), and it stands behind the gap that the failing
step has passed over, also when the error token itself is at the end of the text.  For a syntax
error it is the lexeme of the token that was not expected.

Which token that is depends on the cursor of the session alone (`SyntaxError.NamesAt`): the one
at the cursor, or the one before it when the parse failed at the end of the source.  There is
always one, because a source without tokens is a program (`program_nil`), and it is no marker:
the tokens in front of the first end marker are those of a text without lexical errors.
-/

set_option autoImplicit false

namespace BlockSyntax

open Lexeme

/-! ## Lexical errors -/

/-- What stands at the place of a fault. -/
inductive LexicalFault.StandsAt : LexicalFault → Bytes → Prop where
  /-- The byte that was not expected. -/
  | unexpectedByte {b : UInt8} {behind : Bytes} : StandsAt (.unexpectedByte b) (b :: behind)
  /-- Digits, a point, and then no digit. -/
  | malformedNumber {whole behind : Bytes} (digits : IsDigits whole)
      (noDigit : ∀ b ∈ behind.head?, ¬ Character.isDigit b) :
      StandsAt .malformedNumber (whole ++ point :: behind)
  /-- The opener of a block comment, and no closer behind it. -/
  | unclosedComment {comment : Bytes} (unclosed : Gap.Unclosed comment) :
      StandsAt .unclosedComment comment

theorem LexicalFault.StandsAt.ne_nil {fault : LexicalFault} {text : Bytes}
    (stands : fault.StandsAt text) : text ≠ [] := by
  cases stands with
  | unexpectedByte => exact List.cons_ne_nil _ _
  | malformedNumber digits => exact List.append_ne_nil_of_left_ne_nil digits.nonempty _
  | unclosedComment unclosed =>
      obtain ⟨body, rfl, _⟩ := unclosed
      exact List.cons_ne_nil _ _

/-- A lexeme at fault that is the longest one is what its fault says: behind the point of a
number there is no digit, or a real number would be longer. -/
theorem Lexeme.Faulty.standsAt {lexeme rest : Bytes} {fault : LexicalFault}
    (faulty : Faulty lexeme fault) (longest : LongestMatch (lexeme ++ rest) lexeme .error) :
    fault.StandsAt (lexeme ++ rest) := by
  cases faulty with
  | byte => exact .unexpectedByte
  | @number whole digits =>
      rw [List.append_assoc, List.singleton_append]
      refine .malformedNumber digits ?_
      intro b next digit
      obtain ⟨behind, rfl⟩ := List.head?_eq_some_iff.mp next
      have fraction : IsDigits [b] := ⟨List.cons_ne_nil _ _, List.forall_mem_singleton.mpr digit⟩
      have inFront : whole ++ point :: [b] <+: whole ++ [point] ++ b :: behind :=
        ⟨behind, by simp⟩
      rcases longest.longest _ _ (.real digits fraction) inFront with shorter | ⟨_, same⟩
      · simp at shorter
      · cases same

namespace Scanner

variable {file : FileId} {before : Bytes} {s : Scanner}

/-- A scanner locates what it finds from the start of the text. -/
theorem StandsBehind.locateBehind_eq (stands : StandsBehind file before s) (passed : Bytes) :
    s.locateBehind passed = (ofText file []).locateBehind (before ++ passed) := by
  rw [Scanner.locateBehind, Scanner.locateBehind, locate, locate, stands.inFile, stands.position,
    ← Position.advance_append]
  rfl

/-- **A lexical error is located at what is at fault.** -/
theorem StandsBehind.fault {e : LexicalError} (stands : StandsBehind file before s)
    (error : s.tokenize.error? = some e) :
    ∃ front rest, before ++ s.rest = front ++ rest ∧ e.fault.StandsAt rest ∧
      e.location = (ofText file []).locateBehind front := by
  revert before
  fun_induction tokenize s with
  | case1 s t after shorter found following ih =>
      intro before stands
      obtain ⟨passed, cut, stands'⟩ := stands.next
      rw [found] at cut stands'
      rw [cut, ← List.append_assoc]
      exact ih error stands'
  | case2 s t e' after found =>
      intro before stands
      obtain rfl := Option.some.inj error
      obtain ⟨gap, behind, split, finds⟩ := s.next_finds
      have parts : before ++ s.rest = before ++ gap ++ behind := by
        rw [split.parts, List.append_assoc]
      rw [found] at finds
      refine ⟨before ++ gap, behind, parts, ?_⟩
      cases finds with
      | unclosed unclosed => exact ⟨.unclosedComment unclosed, stands.locateBehind_eq gap⟩
      | fault _ longest faulty => exact ⟨faulty.standsAt longest, stands.locateBehind_eq gap⟩
  | case3 s t after found =>
      cases error

/-- The token that a step finds is located at its bytes, which are a lexeme if it is no marker. -/
theorem StandsBehind.tokenFound (stands : StandsBehind file before s) :
    ∃ front rest, before ++ s.rest = front ++ (s.next.tokenFound.lexeme ++ rest) ∧
      s.next.tokenFound.location = (ofText file []).locateBehind front ∧
      (s.next.tokenFound.kind ≠ .eof → s.next.tokenFound.kind ≠ .error →
        Matches s.next.tokenFound.lexeme s.next.tokenFound.kind) := by
  obtain ⟨gap, behind, split, finds⟩ := s.next_finds
  have parts : before ++ s.rest = before ++ gap ++ behind := by
    rw [split.parts, List.append_assoc]
  rw [parts]
  generalize s.next = found at finds
  cases finds with
  | finish => exact ⟨_, [], rfl, stands.locateBehind_eq gap, fun other => absurd rfl other⟩
  | unclosed _ =>
      refine ⟨before ++ (gap ++ behind), [], ?_, stands.locateBehind_eq _, ?_⟩
      · exact (List.append_assoc ..).trans (List.append_nil _).symm
      · exact fun _ other => absurd rfl other
  | token _ longest | fault _ longest =>
      exact ⟨_, _, rfl, stands.locateBehind_eq gap, fun _ _ => longest.isLexeme⟩

/-- **The tokens of a text are located at their bytes**, and these are lexemes. -/
theorem StandsBehind.token {t : Token} (stands : StandsBehind file before s)
    (inside : t ∈ s.tokenize.tokens) :
    ∃ front rest, before ++ s.rest = front ++ (t.lexeme ++ rest) ∧
      t.location = (ofText file []).locateBehind front ∧
      (t.kind ≠ .eof → t.kind ≠ .error → Matches t.lexeme t.kind) := by
  revert before
  fun_induction tokenize s with
  | case1 s t' after shorter found following ih =>
      intro before stands
      rcases List.mem_cons.mp inside with rfl | later
      · have here := stands.tokenFound
        rwa [found] at here
      · obtain ⟨passed, cut, stands'⟩ := stands.next
        rw [found] at cut stands'
        rw [cut, ← List.append_assoc]
        exact ih later stands'
  | case2 s t' e after found | case3 s t' after found =>
      intro before stands
      obtain rfl := List.mem_singleton.mp inside
      have here := stands.tokenFound
      rwa [found] at here

end Scanner

/-! ## Syntax errors -/

/-- The tokens that a failure with the cursor at the given place names. -/
structure SyntaxError.NamesAt (tokens : List Token) (cursor : Nat) (e : SyntaxError) : Prop where
  /-- The token before the cursor, and the first token when there is none before it. -/
  last : tokens[cursor - 1]? = some e.last
  /-- The token at the cursor, and the one before it when the source ends at the cursor. -/
  found : ∃ t, tokens[cursor]? = some t ∧ (t.kind ≠ .eof → e.found = t) ∧
    (t.kind = .eof → 0 < cursor ∧ tokens[cursor - 1]? = some e.found)
  /-- The token before the cursor is no marker. -/
  lastSound : e.last.kind ≠ .eof ∧ e.last.kind ≠ .error
  /-- The token that was not expected is no marker. -/
  foundSound : e.found.kind ≠ .eof ∧ e.found.kind ≠ .error

theorem SyntaxError.NamesAt.found_mem {tokens : List Token} {cursor : Nat} {e : SyntaxError}
    (names : e.NamesAt tokens cursor) : e.found ∈ tokens := by
  obtain ⟨t, here, inside, atEnd⟩ := names.found
  by_cases ends : t.kind = .eof
  · exact List.mem_of_getElem? (atEnd ends).2
  · exact inside ends ▸ List.mem_of_getElem? here

/-- A source without tokens is a program. -/
theorem program_nil : (program []).Gives ⟨[]⟩ [] := gives_program.mpr ⟨.nil, rfl⟩

namespace Session

/-- A session among the tokens in front of an end marker, some of them taken, names the tokens
at its cursor. -/
theorem errorHere_names {tokens : List Token} {nextId : NodeId} {s : Session}
    (advances : (ofTokens tokens nextId).Advances s) (ends : EndsWithOnly .eof .error tokens)
    (nonempty : (ofTokens tokens nextId).rest ≠ []) (expected : Expectation) :
    (s.errorHere expected).NamesAt tokens s.cursor := by
  obtain ⟨⟨inFront, marker, rfl, eof, unended⟩, sound⟩ := ends
  obtain ⟨⟨used, front, took⟩, _⟩ := advances
  have cursor : s.cursor = used.length := cursor_of_taken took
  have taken : s.taken = used.reverse := took.trans (List.append_nil _)
  clear took
  rw [rest_ofTokens unended eof] at front nonempty
  subst front
  have noMarker : ∀ t ∈ used ++ s.rest, t.kind ≠ .eof ∧ t.kind ≠ .error := fun t inside =>
    ⟨unended t inside, sound t (List.mem_append_left _ inside)⟩
  rw [cursor, List.append_assoc]
  rcases used.eq_nil_or_concat' with rfl | ⟨before, u, rfl⟩
  · -- Nothing was taken, and so there is a token at the cursor.
    obtain ⟨t, behind, same⟩ := List.exists_cons_of_ne_nil nonempty
    have rest : s.rest = t :: behind := same
    have last : (s.errorHere expected).last = t := by simp [errorHere, taken, current, rest]
    have found : (s.errorHere expected).found = t := by simp [errorHere, rest]
    have sound := noMarker t (by simp [rest])
    rw [rest]
    constructor
    case last =>
      rw [last]
      rfl
    case found => exact ⟨t, rfl, fun _ => found, fun impossible => absurd impossible sound.1⟩
    case lastSound => rwa [last]
    case foundSound => rwa [found]
  · have last : (s.errorHere expected).last = u := by simp [errorHere, taken]
    have lastSound := noMarker u (by simp)
    have beforeCursor : (before ++ [u] ++ (s.rest ++ [marker]))[(before ++ [u]).length - 1]? =
        some u := by simp
    cases rest : s.rest with
    | nil =>
        have found : (s.errorHere expected).found = u := by simp [errorHere, rest, taken]
        rw [rest] at beforeCursor
        constructor
        case last => rwa [last]
        case found =>
          refine ⟨marker, by simp, fun more => absurd eof more, fun _ => ⟨by simp, ?_⟩⟩
          rwa [found]
        case lastSound => rwa [last]
        case foundSound => rwa [found]
    | cons t behind =>
        have found : (s.errorHere expected).found = t := by simp [errorHere, rest]
        have sound := noMarker t (by simp [rest])
        rw [rest] at beforeCursor
        constructor
        case last => rwa [last]
        case found =>
          exact ⟨t, by simp, fun _ => found, fun impossible => absurd impossible sound.1⟩
        case lastSound => rwa [last]
        case foundSound => rwa [found]

/-- **The error of a program that was asked for names the tokens at the cursor.** -/
theorem ask_program_names {tokens : List Token} {nextId : NodeId} {e : SyntaxError}
    {s : Session} (ends : EndsWithOnly .eof .error tokens)
    (asked : (ofTokens tokens nextId).ask .program = (.error e, s)) :
    e.NamesAt tokens s.cursor := by
  obtain ⟨expected, rest, made, reply, rfl, rfl⟩ := ask_program_eq_error.mp asked
  obtain ⟨used, front⟩ := Goal.program.parse_left (ofTokens tokens nextId).rest
  rw [Goal.parse, Reply.left_map, reply] at front
  refine errorHere_names (advances_advanceTo front) ends ?_ expected
  intro empty
  have gives := program_nil
  rw [← empty, reply] at gives
  exact gives.elim

end Session

/-! ## The one diagnostic -/

/-- What a verdict is about stands in front of a text. -/
def Verdict.PointsAt : Verdict → Bytes → Prop
  | lexicalError e, text => e.fault.StandsAt text
  | syntaxError e, text => e.found.lexeme ≠ [] ∧ e.found.lexeme <+: text
  | accepted _, _ | unloaded _, _ => False

theorem Verdict.PointsAt.ne_nil {v : Verdict} {text : Bytes} (points : v.PointsAt text) :
    text ≠ [] := by
  cases v with
  | lexicalError e => exact LexicalFault.StandsAt.ne_nil points
  | syntaxError e => exact List.IsPrefix.ne_nil points.2 points.1
  | accepted root => exact points.elim
  | unloaded failure => exact points.elim

/-- What an analysis without a tree is about stands at a place in its text, and that is where
its one diagnostic is located. -/
theorem analyze_pointsAt {file : FileId} {text : Bytes} {nextId : NodeId}
    (failed : (analyze file text nextId).1.verdict.root? = none) :
    ∃ d front rest, (analyze file text nextId).1.verdict.diagnostics = [d] ∧
      text = front ++ rest ∧ (analyze file text nextId).1.verdict.PointsAt rest ∧
      d.location = (Scanner.ofText file []).locateBehind front := by
  have stands : Scanner.StandsBehind file [] (Scanner.ofText file text) := ⟨rfl, rfl⟩
  have ends := (Scanner.ofText file text).tokenize_ends
  rcases analyze_cases file text nextId with
    ⟨e, error, same⟩ | ⟨_, root, s, _, same⟩ | ⟨sound, e, s, asked, same⟩
  · obtain ⟨front, rest, parts, points, located⟩ := stands.fault error
    rw [same]
    exact ⟨e.diagnostic, front, rest, rfl, parts, points, located⟩
  · rw [same] at failed
    cases failed
  · rw [sound] at ends
    have names := Session.ask_program_names ends asked
    obtain ⟨front, rest, parts, located, isLexeme⟩ := stands.token names.found_mem
    have spelled := isLexeme names.foundSound.1 names.foundSound.2
    rw [same]
    exact ⟨e.diagnostic, front, e.found.lexeme ++ rest, rfl, parts,
      ⟨spelled.ne_nil, List.prefix_append ..⟩, located⟩

/-- A syntax error of an analysis is that of the session over its tokens, and names those at the
cursor that the session is left with. -/
theorem analyze_names {file : FileId} {text : Bytes} {nextId : NodeId} {e : SyntaxError}
    (isError : (analyze file text nextId).1.verdict.syntaxError? = some e) :
    let tokens := (analyze file text nextId).1.tokens
    let asked := (Session.ofTokens tokens nextId).ask .program
    asked.1 = .error e ∧ e.NamesAt tokens asked.2.cursor := by
  have ends := (Scanner.ofText file text).tokenize_ends
  rcases analyze_cases file text nextId with
    ⟨_, _, same⟩ | ⟨_, _, _, _, same⟩ | ⟨sound, e', s, asked, same⟩
  · rw [same] at isError
    cases isError
  · rw [same] at isError
    cases isError
  · rw [same] at isError ⊢
    obtain rfl := Option.some.inj isError
    rw [sound] at ends
    intro tokens session
    have answer : session = (.error e', s) := asked
    rw [answer]
    exact ⟨rfl, Session.ask_program_names ends asked⟩

/-- A location found behind the front of a short text counts that front. -/
theorem Scanner.locateBehind_behind {file : FileId} {front : Bytes}
    (short : front.length + 1 < UInt32.size) :
    Location.Behind file front ((Scanner.ofText file []).locateBehind front) :=
  ⟨rfl, Position.start_counts short⟩

/-- **A diagnostic is located at the text at fault.**  Let a text that is too short for its
lines and columns to wrap be analyzed in a batch without success.  Then there is one
diagnostic, and its line and column are those of a place in the text that is not its end, where
the verdict says what stands: the byte that was not expected, a number without digits behind
its point, the opener of a comment that is not closed, or the lexeme of the token at which the
parse failed.  Of a failed parse the error names the tokens at the cursor of the session, and
no markers. -/
theorem analyzeText_locates (b : Batch) (tracing : Bool) (source : SourceText)
    (short : source.text.length < UInt32.size - 1) :
    let r := (b.analyzeText tracing source).report
    let asked := (Session.ofTokens r.tokens b.nextId).ask .program
    ¬ r.succeeded →
      (∃ d o, r.verdict.diagnostics = [d] ∧ o < source.text.length ∧
        Location.Behind r.file (source.text.take o) d.location ∧
        r.verdict.PointsAt (source.text.drop o)) ∧
      ∀ e, r.verdict.syntaxError? = some e →
        asked.1 = .error e ∧ e.NamesAt r.tokens asked.2.cursor := by
  intro r asked failed
  have analyzed := analyzeText_analyzed b tracing source
  have report : r = (analyze r.file source.text b.nextId).1 := congrArg Prod.fst analyzed
  have treeless : r.verdict.root? = none := by
    rw [Report.succeeded_iff] at failed
    exact Option.not_isSome_iff_eq_none.mp failed
  refine ⟨?located, ?named⟩
  case located =>
    rw [report] at treeless
    obtain ⟨d, front, rest, only, parts, points, located⟩ := analyze_pointsAt treeless
    rw [← report] at only points
    have inside : 0 < rest.length := List.length_pos_iff.mpr points.ne_nil
    have total : source.text.length = front.length + rest.length := by
      rw [parts, List.length_append]
    refine ⟨d, front.length, only, by omega, ?_, ?_⟩
    · rw [located, parts, List.take_left]
      exact Scanner.locateBehind_behind (by omega)
    · rw [parts, List.drop_left]
      exact points
  case named =>
    intro e isError
    rw [report] at isError
    have names := analyze_names isError
    rwa [← report] at names

/-- A declaration that the source ends in the middle of is reported at its last token, the name
on the second line. -/
theorem analyzeText_locates_before_end :
    let source : SourceText := ⟨ascii "int\n a", ascii "a.bg", none⟩
    let name : Token := ⟨.identifier, ascii "a", ⟨1, 2, 2⟩⟩
    let e : SyntaxError := ⟨.tokenAfter .semicolon .variableDeclaration, name, name⟩
    let r := (Batch.start.analyzeText false source).report
    source.text.length < UInt32.size - 1 ∧ ¬ r.succeeded ∧
      (∃ d o, r.verdict.diagnostics = [d] ∧ o < source.text.length ∧
        Location.Behind r.file (source.text.take o) d.location ∧
        r.verdict.PointsAt (source.text.drop o)) ∧
      r.verdict.syntaxError? = some e ∧ e.NamesAt r.tokens 2 := by
  intro source name e r
  have short : source.text.length < UInt32.size - 1 := by decide +kernel
  have failed : ¬ r.succeeded := by decide +kernel
  obtain ⟨located, named⟩ := analyzeText_locates .start false source short failed
  have error : r.verdict.syntaxError? = some e := by decide +kernel
  have cursor : ((Session.ofTokens r.tokens Batch.start.nextId).ask .program).2.cursor = 2 := by
    decide +kernel
  obtain ⟨_, names⟩ := named e error
  rw [cursor] at names
  exact ⟨short, failed, located, error, names⟩

end BlockSyntax
