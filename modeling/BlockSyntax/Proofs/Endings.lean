import BlockSyntax.Analysis
import BlockSyntax.Proofs.Coverage
import BlockSyntax.Proofs.History

/-!
# How a stream and an analysis end

A stream of tokens ends where the scanner stops, and the scanner stops at the first end marker
or fault.  So a stream ends with its only error token if a lexeme is at fault, and with its
only end marker otherwise (`Scanner.tokenize_ends`).

An analysis goes through its steps in one of three ways, which its report shows
(`analyze_cases`).
-/

set_option autoImplicit false

namespace BlockSyntax

/-! ## How a stream ends -/

/-- The last token of a stream is the only one of a kind, and none is of the other kind. -/
structure EndsWithOnly (last other : TokenKind) (tokens : List Token) : Prop where
  /-- The last token, and no other, is of the kind. -/
  ends : ∃ front t, tokens = front ++ [t] ∧ t.kind = last ∧ ∀ u ∈ front, u.kind ≠ last
  /-- No token is of the other kind. -/
  without : ∀ t ∈ tokens, t.kind ≠ other

theorem EndsWithOnly.one {last other : TokenKind} {t : Token} (kind : t.kind = last)
    (differ : last ≠ other) : EndsWithOnly last other [t] := by
  refine ⟨⟨[], t, rfl, kind, nofun⟩, ?_⟩
  intro u inside
  rw [List.mem_singleton.mp inside, kind]
  exact differ

theorem EndsWithOnly.cons {last other : TokenKind} {t : Token} {tokens : List Token}
    (notLast : t.kind ≠ last) (notOther : t.kind ≠ other)
    (behind : EndsWithOnly last other tokens) : EndsWithOnly last other (t :: tokens) := by
  obtain ⟨⟨front, u, rfl, kind, only⟩, without⟩ := behind
  refine ⟨⟨t :: front, u, rfl, kind, ?_⟩, ?_⟩
  · exact List.forall_mem_cons.mpr ⟨notLast, only⟩
  · exact List.forall_mem_cons.mpr ⟨notOther, without⟩

namespace Scanner

section Steps

variable {s after : Scanner} {t : Token}

theorem kind_of_token {shorter} (found : s.next = .token t after shorter) :
    t.kind ≠ .eof ∧ t.kind ≠ .error := by
  obtain ⟨gap, behind, _, finds⟩ := s.next_finds
  rw [found] at finds
  cases finds with
  | token _ longest sound _ => exact ⟨longest.isLexeme.kind_ne_eof, sound⟩

theorem kind_of_fault {error : LexicalError} (found : s.next = .fault t error after) :
    t.kind = .error := by
  obtain ⟨gap, behind, _, finds⟩ := s.next_finds
  rw [found] at finds
  cases finds with
  | unclosed _ | fault _ _ _ => rfl

theorem kind_of_finish (found : s.next = .finish t after) : t.kind = .eof := by
  obtain ⟨gap, behind, _, finds⟩ := s.next_finds
  rw [found] at finds
  cases finds with
  | finish => rfl

end Steps

/-- **A stream ends with its only error token if there is an error, and with its only end
marker otherwise.** -/
theorem tokenize_ends (s : Scanner) :
    match s.tokenize.error? with
    | some _ => EndsWithOnly .error .eof s.tokenize.tokens
    | none => EndsWithOnly .eof .error s.tokenize.tokens := by
  fun_induction tokenize s with
  | case1 s t after shorter found following ih =>
      obtain ⟨notEof, notError⟩ := kind_of_token found
      show match after.tokenize.error? with
        | some _ => EndsWithOnly .error .eof (t :: after.tokenize.tokens)
        | none => EndsWithOnly .eof .error (t :: after.tokenize.tokens)
      split at ih
      case h_1 => exact ih.cons notError notEof
      case h_2 => exact ih.cons notEof notError
  | case2 s t e after found => exact .one (kind_of_fault found) (by decide)
  | case3 s t after found => exact .one (kind_of_finish found) (by decide)

theorem reports_eq (s : Scanner) :
    s.reports = (s.tokenize.error?.map LexicalError.diagnostic).toList := by
  fun_induction tokenize s with
  | case1 s t after shorter found following ih =>
      rw [reports, found]
      exact ih
  | case2 s t e after found =>
      rw [reports, found]
      rfl
  | case3 s t after found =>
      rw [reports, found]
      rfl

end Scanner

/-! ## Analyses -/

/-- A text has succeeded exactly when it has a tree: an error is reported otherwise. -/
theorem Report.succeeded_iff (r : Report) : r.succeeded ↔ r.verdict.root?.isSome := by
  rw [Report.succeeded, Bool.and_eq_true]
  refine and_iff_left_of_imp fun tree => ?_
  cases same : r.verdict with
  | accepted root => rfl
  | _ =>
      rw [same] at tree
      cases tree

/-- The report on a text by the steps of its analysis. -/
theorem analyze_cases (file : FileId) (text : Bytes) (nextId : NodeId) :
    let scanner := Scanner.ofText file text
    let session := Session.ofTokens scanner.tokenize.tokens nextId
    (∃ e, scanner.tokenize.error? = some e ∧
      analyze file text nextId = (⟨file, scanner.tokenize.tokens, .lexicalError e⟩, nextId)) ∨
    (scanner.tokenize.error? = none ∧ ∃ root s, session.ask .program = (.ok root, s) ∧
      analyze file text nextId = (⟨file, scanner.tokenize.tokens, .accepted root⟩, s.nextId)) ∨
    (scanner.tokenize.error? = none ∧ ∃ e s, session.ask .program = (.error e, s) ∧
      analyze file text nextId = (⟨file, scanner.tokenize.tokens, .syntaxError e⟩, s.nextId)) := by
  intro scanner session
  unfold analyze
  cases error : scanner.tokenize.error? with
  | some e => exact .inl ⟨e, rfl, by simp only [scanner, error]⟩
  | none =>
      cases asked : session.ask .program with
      | mk answer s =>
          cases answer with
          | ok root =>
              refine .inr (.inl ⟨rfl, root, s, rfl, ?_⟩)
              simp only [scanner, error, session, asked]
          | error e =>
              refine .inr (.inr ⟨rfl, e, s, rfl, ?_⟩)
              simp only [scanner, error, session, asked]

theorem analyze_file (file : FileId) (text : Bytes) (nextId : NodeId) :
    (analyze file text nextId).1.file = file := by
  rcases analyze_cases file text nextId with
    ⟨_, _, same⟩ | ⟨_, _, _, _, same⟩ | ⟨_, _, _, _, same⟩ <;> rw [same]

/-- A text of a batch is analyzed in a file, and numbered from the counter of the batch. -/
theorem analyzeText_analyzed (b : Batch) (tracing : Bool) (source : SourceText) :
    let a := b.analyzeText tracing source
    (a.report, a.batch.nextId) = analyze a.report.file source.text b.nextId := by
  have inFile : ∀ (b : Batch) (file : FileId),
      ((b.analyzeIn tracing file source.text).report,
        (b.analyzeIn tracing file source.text).batch.nextId) =
      analyze (b.analyzeIn tracing file source.text).report.file source.text b.nextId := by
    intro b file
    have report : (b.analyzeIn tracing file source.text).report =
        (analyze file source.text b.nextId).1 := rfl
    rw [report, analyze_file]
    rfl
  unfold Batch.analyzeText
  cases source.file? with
  | some file => exact inFile b file
  | none => exact inFile _ _

end BlockSyntax
