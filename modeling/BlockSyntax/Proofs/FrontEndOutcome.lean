import BlockSyntax.FrontEnd
import BlockSyntax.Proofs.Endings
import BlockSyntax.Proofs.ParserHistory

/-!
# How the front end ends

The front end ends in one of three ways.  The text is a program, and there is a tree and
nothing to report; or a lexeme is at fault, and the text was not parsed at all; or the parse
failed.  The parts of the result are filled in one by one, and that they fit together is what
is shown here: the log holds an error behind the loop over the tokens exactly when the last
of them is an error token (`Scanner.collect_eq`), and behind the parse exactly when there is
no tree (`Parser.Shows.request`).

So the front end makes of a text what its analysis reports (`Batch.parseSource_eq`), and the
three ways are told apart by the parts of the result (`parseSource_outcome`).
-/

set_option autoImplicit false

namespace BlockSyntax

/-! ## The loop over the tokens -/

/-- The loop takes the tokens up to the first end marker or fault, and reports a fault. -/
theorem Scanner.collect_eq (s : Scanner) (log : List Diagnostic) :
    s.collect log =
      (s.tokenize.tokens, log ++ (s.tokenize.error?.map LexicalError.diagnostic).toList) := by
  fun_induction tokenize s with
  | case1 s t after shorter found following ih =>
      obtain ⟨notEof, notError⟩ := kind_of_token found
      have goesOn : ¬ stopsAt s.next.tokenFound.kind := by
        rw [found]
        simp [stopsAt, Scanned.tokenFound, notEof, notError]
      rw [collect, dif_neg goesOn, found]
      simp [Scanned.tokenFound, Scanned.error?, Scanned.after, ih, following]
  | case2 s t e after found =>
      have stops : stopsAt s.next.tokenFound.kind := by
        rw [found]
        simp [stopsAt, Scanned.tokenFound, kind_of_fault found]
      rw [collect, dif_pos stops, found]
      rfl
  | case3 s t after found =>
      have stops : stopsAt s.next.tokenFound.kind := by
        rw [found]
        simp [stopsAt, Scanned.tokenFound, kind_of_finish found]
      rw [collect, dif_pos stops, found]
      rfl

/-! ## The front end and the analysis -/

/-- What an analysis reports, part by part. -/
def Analysis.frontEnd (a : Analysis) : FrontEnd where
  batch := a.batch
  result := {
    diagnostics := a.report.verdict.diagnostics
    file := a.report.file
    tokens := a.report.tokens
    program? := a.report.verdict.root?
    syntaxError? := a.report.verdict.syntaxError? }
  stderr := a.stderr

namespace FrontEnd

variable {f : FrontEnd} {tracing : Bool}

theorem lex_eq (f : FrontEnd) (text : Bytes) :
    let lexed := (Scanner.ofText f.result.file text).tokenize
    f.lex text =
      { f with
        result := { f.result with
          tokens := lexed.tokens
          diagnostics := f.result.diagnostics ++
            (lexed.error?.map LexicalError.diagnostic).toList } } := by
  intro lexed
  rw [lex, Scanner.collect_eq]

/-- The parser makes and reports what the session answers and reports. -/
theorem parse_eq {answer : Except SyntaxError Node} {s : Session}
    (asked : (Session.ofTokens f.result.tokens f.batch.nextId).ask .program = (answer, s)) :
    f.parse.1.error? = Session.failure? answer ∧
      f.parse.2 =
        { f with
          batch.nextId := s.nextId
          result := { f.result with
            program? := answer.toOption
            diagnostics := f.result.diagnostics ++
              ((Session.failure? answer).map SyntaxError.diagnostic).toList } } := by
  have start := Parser.shows_ofTokens f.result.tokens f.batch.nextId f.result.diagnostics
  obtain ⟨made, shows⟩ := start.request .program
  have recorded := (Session.ask_step (.ofTokens f.result.tokens f.batch.nextId) .program).2
  rw [asked] at made shows recorded
  have recorded : s.error? = Session.failure? answer := recorded.trans Option.none_or
  have log := shows.log
  rw [Session.diagnostics, recorded] at log
  refine ⟨shows.error.trans recorded, ?_⟩
  unfold parse
  simp only [made, shows.nextId, log]

/-- Behind the second phase there is a tree, or an error is recorded and reported. -/
theorem finish_eq {answer : Except SyntaxError Node} {s : Session}
    (asked : (Session.ofTokens f.result.tokens f.batch.nextId).ask .program = (answer, s)) :
    let ended : FrontEnd := {
      batch := { f.batch with nextId := s.nextId }
      result := { f.result with
        program? := answer.toOption
        syntaxError? := (Session.failure? answer).or f.result.syntaxError?
        diagnostics := f.result.diagnostics ++
          ((Session.failure? answer).map SyntaxError.diagnostic).toList }
      stderr := (f.trace tracing "Phase 2: Parsing").stderr }
    f.finish tracing = ended.trace tracing (if answer.isOk then "Done" else "Parsing failed") := by
  intro ended
  have parsed := parse_eq (f := f.trace tracing "Phase 2: Parsing") asked
  unfold finish
  revert parsed
  rcases (f.trace tracing "Phase 2: Parsing").parse with ⟨parser, g⟩
  rintro ⟨recorded, rfl⟩
  cases answer with
  | ok root => rfl
  | error e =>
      have recorded : parser.error? = some e := recorded
      simp only [recorded]
      rfl

/-- What the phases make of a text whose file is settled. -/
theorem run_eq (b : Batch) (file : FileId) (stderr : Bytes) (tracing : Bool) (text : Bytes) :
    run ⟨b, { Result.empty with file := file }, stderr⟩ tracing text =
      let analysis := b.analyzeIn tracing file text
      Analysis.frontEnd { analysis with stderr := stderr ++ analysis.stderr } := by
  let entered : FrontEnd := ⟨b, { Result.empty with file := file }, stderr⟩
  have lexed := lex_eq (entered.trace tracing "Phase 1: Lexing") text
  have inFile : (entered.trace tracing "Phase 1: Lexing").result.file = file := rfl
  rw [inFile] at lexed
  unfold run
  rw [lexed]
  rcases analyze_cases file text b.nextId with
    ⟨e, error, same⟩ | ⟨sound, root, s, asked, same⟩ | ⟨sound, e, s, asked, same⟩
  · simp only [Batch.analyzeIn, same, error]
    refine (if_pos Nat.one_pos).trans (congrArg (FrontEnd.mk _ _) ?_)
    cases tracing <;> simp [entered, trace, Verdict.trace, Verdict.phases]
  · simp only [Batch.analyzeIn, same, sound]
    refine (if_neg (Nat.lt_irrefl 0)).trans ((finish_eq asked).trans ?_)
    refine congrArg (FrontEnd.mk _ _) ?_
    cases tracing <;>
      simp [entered, trace, Verdict.trace, Verdict.phases, Except.isOk, Except.toBool]
  · simp only [Batch.analyzeIn, same, sound]
    refine (if_neg (Nat.lt_irrefl 0)).trans ((finish_eq asked).trans ?_)
    refine congrArg (FrontEnd.mk _ _) ?_
    cases tracing <;>
      simp [entered, trace, Verdict.trace, Verdict.phases, Except.isOk, Except.toBool]

end FrontEnd

/-- **The front end makes of a text what its analysis reports**, and leaves the same behind. -/
theorem Batch.parseSource_eq (b : Batch) (tracing : Bool) (source : SourceText) :
    b.parseSource tracing source = (b.analyzeText tracing source).frontEnd := by
  unfold parseSource analyzeText FrontEnd.enter
  cases source.file? with
  | some file => exact FrontEnd.run_eq b file [] tracing source.text
  | none => exact FrontEnd.run_eq _ _ _ tracing source.text

/-! ## The three outcomes -/

/-- The ways in which the front end ends. -/
inductive Outcome where
  /-- There is a tree. -/
  | success
  /-- A lexeme is at fault. -/
  | lexical
  /-- The parse failed. -/
  | syntactic
  deriving DecidableEq

namespace FrontEnd.Result

/-- The result for a text that is a program. -/
structure IsSuccess (r : Result) : Prop where
  /-- There is a tree. -/
  tree : r.program?.isSome
  /-- There is no syntax error. -/
  parsed : r.syntaxError? = none
  /-- Nothing is reported. -/
  silent : r.diagnostics = []
  /-- The stream ends with its only end marker. -/
  tokens : EndsWithOnly .eof .error r.tokens

/-- The result for a text with a lexeme at fault. -/
structure IsLexical (r : Result) : Prop where
  /-- There is no tree. -/
  treeless : r.program? = none
  /-- There is no syntax error. -/
  unparsed : r.syntaxError? = none
  /-- One error is reported. -/
  reported : ∃ message location, r.diagnostics = [⟨.error, ascii "B1001", message, location⟩]
  /-- The stream ends with its only error token. -/
  tokens : EndsWithOnly .error .eof r.tokens

/-- The result for a text of which the parse failed. -/
structure IsSyntactic (r : Result) : Prop where
  /-- There is no tree. -/
  treeless : r.program? = none
  /-- The syntax error is the one error reported. -/
  reported : ∃ e, r.syntaxError? = some e ∧
    r.diagnostics = [⟨.error, ascii "B2001", e.message, e.found.location⟩]
  /-- The stream ends with its only end marker. -/
  tokens : EndsWithOnly .eof .error r.tokens

end FrontEnd.Result

namespace Outcome

/-- The front end, which started with the given counter, has ended in the given way.  Without a
parse no identifier is drawn. -/
def Describes (nextId : NodeId) (f : FrontEnd) : Outcome → Prop
  | success => f.result.IsSuccess
  | lexical => f.result.IsLexical ∧ f.batch.nextId = nextId
  | syntactic => f.result.IsSyntactic

variable {nextId : NodeId} {f : FrontEnd} {o : Outcome}

theorem Describes.program?_isSome (describes : o.Describes nextId f) :
    f.result.program?.isSome ↔ o = .success := by
  cases o with
  | success => exact iff_of_true describes.tree rfl
  | lexical => exact iff_of_false (by simp [describes.1.treeless]) nofun
  | syntactic => exact iff_of_false (by simp [describes.treeless]) nofun

theorem Describes.syntaxError?_isSome (describes : o.Describes nextId f) :
    f.result.syntaxError?.isSome ↔ o = .syntactic := by
  cases o with
  | success => exact iff_of_false (by simp [describes.parsed]) nofun
  | lexical => exact iff_of_false (by simp [describes.1.unparsed]) nofun
  | syntactic =>
      obtain ⟨e, error, _⟩ := describes.reported
      exact iff_of_true (by simp [error]) rfl

/-- The front end ends in one way only. -/
theorem Describes.unique {o' : Outcome} (first : o.Describes nextId f)
    (second : o'.Describes nextId f) : o = o' := by
  have tree := first.program?_isSome.symm.trans second.program?_isSome
  have error := first.syntaxError?_isSome.symm.trans second.syntaxError?_isSome
  cases o <;> cases o' <;> simp_all

/-- Without a tree and without a syntax error a lexeme is at fault. -/
theorem Describes.lexical_iff (describes : o.Describes nextId f) :
    (f.result.program? = none ∧ f.result.syntaxError? = none) ↔ o = .lexical := by
  rw [← Option.not_isSome_iff_eq_none, ← Option.not_isSome_iff_eq_none,
    describes.program?_isSome, describes.syntaxError?_isSome]
  cases o <;> simp

/-- A text has succeeded exactly when it has a tree: an error is reported in both other cases. -/
theorem Describes.succeeded_iff (describes : o.Describes nextId f) :
    f.result.succeeded ↔ f.result.program?.isSome := by
  rw [FrontEnd.Result.succeeded, Bool.and_eq_true]
  refine and_iff_right_of_imp fun tree => ?_
  obtain rfl := describes.program?_isSome.mp tree
  rw [FrontEnd.Result.errorCount, describes.silent]
  rfl

end Outcome

/-- What the parts of an analysis say of how it ended. -/
theorem Analysis.frontEnd_outcome {a : Analysis} {text : Bytes} {nextId : NodeId}
    (analyzed : (a.report, a.batch.nextId) = analyze a.report.file text nextId) :
    ∃ o : Outcome, o.Describes nextId a.frontEnd := by
  have ends := (Scanner.ofText a.report.file text).tokenize_ends
  obtain ⟨⟨file, tokens, verdict⟩, batch, stderr⟩ := a
  rcases analyze_cases file text nextId with
    ⟨e, error, same⟩ | ⟨sound, root, s, asked, same⟩ | ⟨sound, e, s, asked, same⟩
  · rw [error] at ends
    obtain ⟨⟨rfl, rfl⟩, counter⟩ := by simpa using analyzed.trans same
    exact ⟨.lexical, ⟨rfl, rfl, ⟨e.fault.message, e.location, rfl⟩, ends⟩, counter⟩
  · rw [sound] at ends
    obtain ⟨⟨rfl, rfl⟩, _⟩ := by simpa using analyzed.trans same
    exact ⟨.success, rfl, rfl, rfl, ends⟩
  · rw [sound] at ends
    obtain ⟨⟨rfl, rfl⟩, _⟩ := by simpa using analyzed.trans same
    exact ⟨.syntactic, rfl, ⟨e, rfl, rfl⟩, ends⟩

/-- **How the front end ends.**  On every text, from every batch, it ends in exactly one of
three ways: with a tree, with a lexical error that leaves the counter alone, or with a syntax
error.  It has succeeded exactly when there is a tree, and there is neither a tree nor a
syntax error exactly when a lexeme is at fault.  All of it is what the analysis of the text
reports. -/
theorem parseSource_outcome (b : Batch) (tracing : Bool) (source : SourceText) :
    let f := b.parseSource tracing source
    (∃! o : Outcome, o.Describes b.nextId f) ∧
      (f.result.succeeded ↔ f.result.program?.isSome) ∧
      ((f.result.program? = none ∧ f.result.syntaxError? = none) ↔
        Outcome.lexical.Describes b.nextId f) ∧
      f = (b.analyzeText tracing source).frontEnd := by
  intro f
  have same : f = (b.analyzeText tracing source).frontEnd := b.parseSource_eq tracing source
  obtain ⟨o, describes⟩ := Analysis.frontEnd_outcome (analyzeText_analyzed b tracing source)
  rw [← same] at describes
  refine ⟨⟨o, describes, fun o' other => other.unique describes⟩, describes.succeeded_iff, ?_, same⟩
  rw [describes.lexical_iff]
  exact ⟨fun lexical => lexical ▸ describes, describes.unique⟩

end BlockSyntax
