import BlockSyntax.Analysis
import BlockSyntax.Grammar.Routines

/-!
# The front end step by step

The front end fills in the parts of a result one after the other: the file, the tokens and
what the scanner reports, the tree and what the parser reports, and the syntax error.  None
of the parts follows from the others.  The scanner and the parser report to one log; the
loop over the tokens ends by the kind of a token, and whether there is anything to parse is
decided by the errors in the log.

The analysis in `BlockSyntax.Analysis` is the same one as seen from outside: a report that
holds how the analysis ended.
-/

set_option autoImplicit false

namespace BlockSyntax

/-! ## Tokens -/

namespace Scanner

/-- The loop over the tokens ends behind a token of this kind. -/
def stopsAt (k : TokenKind) : Bool := k = .eof || k = .error

/-- A step that the loop does not end behind takes at least one byte. -/
theorem length_rest_next {s : Scanner} (goesOn : ¬ stopsAt s.next.tokenFound.kind) :
    s.next.after.rest.length < s.rest.length := by
  revert goesOn
  unfold next
  split
  case h_1 => exact fun goesOn => absurd rfl goesOn
  case h_2 => exact fun goesOn => absurd rfl goesOn
  case h_3 p first behind passed =>
    have fewer := Gap.length_rest_pass .between s.position s.rest
    rw [passed] at fewer
    have shorter := Nat.lt_of_lt_of_le (Lexeme.length_rest_read first behind) fewer
    dsimp only
    split <;> exact fun _ => shorter

/-- The tokens up to the first end marker or error token, and the log behind what their steps
have reported. -/
def collect (s : Scanner) (log : List Diagnostic) : List Token × List Diagnostic :=
  let log := log ++ (s.next.error?.map LexicalError.diagnostic).toList
  if _ : stopsAt s.next.tokenFound.kind then ([s.next.tokenFound], log)
  else
    let (tokens, log) := s.next.after.collect log
    (s.next.tokenFound :: tokens, log)
termination_by s.rest.length
decreasing_by exact length_rest_next ‹_›

end Scanner

/-! ## Results -/

namespace FrontEnd

/-- What the front end makes of a text. -/
structure Result where
  /-- What was reported. -/
  diagnostics : List Diagnostic
  /-- The number of the file. -/
  file : FileId
  /-- The tokens. -/
  tokens : List Token
  /-- The tree of the program. -/
  program? : Option Node
  /-- Why the tokens are not those of a program. -/
  syntaxError? : Option SyntaxError

namespace Result

/-- The result in which nothing is filled in. -/
def empty : Result := ⟨[], 0, [], none, none⟩

/-- How many errors were reported. -/
def errorCount (r : Result) : Nat := Diagnostic.count .error r.diagnostics

/-- There is a tree and no error. -/
def succeeded (r : Result) : Bool := r.errorCount = 0 && r.program?.isSome

end Result

end FrontEnd

/-! ## The phases -/

/-- The front end at work: what its texts share, the result so far, and what was written to the
error stream. -/
structure FrontEnd where
  /-- The registered files and the counter. -/
  batch : Batch
  /-- The result. -/
  result : FrontEnd.Result
  /-- What was written. -/
  stderr : Bytes

namespace FrontEnd

/-- Settles the file of the text, which is registered unless it comes with a number. -/
def enter (f : FrontEnd) (source : SourceText) : FrontEnd :=
  match source.file? with
  | some file => { f with result.file := file }
  | none =>
    let registered := f.batch.registry.add source.path
    { batch := { f.batch with registry := registered.registry }
      result := { f.result with file := registered.id }
      stderr := f.stderr ++ registered.complaint }

/-- Writes a line for a phase, if phases are traced. -/
def trace (f : FrontEnd) (tracing : Bool) (phase : String) : FrontEnd :=
  let line := if tracing then ascii "[begend] " ++ ascii phase ++ [lineFeed] else []
  { f with stderr := f.stderr ++ line }

/-- Takes the text apart into tokens. -/
def lex (f : FrontEnd) (text : Bytes) : FrontEnd :=
  let (tokens, log) := (Scanner.ofText f.result.file text).collect f.result.diagnostics
  { f with result := { f.result with tokens := tokens, diagnostics := log } }

/-- Parses the tokens as a program; gives the parser too. -/
def parse (f : FrontEnd) : Parser × FrontEnd :=
  let parser := Parser.ofTokens f.result.tokens f.batch.nextId f.result.diagnostics
  let (root?, parser) := parser.request .program
  (parser, { f with
    batch.nextId := parser.nextId
    result := { f.result with program? := root?, diagnostics := parser.log } })

/-- Goes through the second phase. -/
def finish (f : FrontEnd) (tracing : Bool) : FrontEnd :=
  let (parser, f) := (f.trace tracing "Phase 2: Parsing").parse
  if f.result.program?.isNone then
    trace { f with result.syntaxError? := parser.error? } tracing "Parsing failed"
  else f.trace tracing "Done"

/-- Goes through the phases; the second is left out if the first has reported an error. -/
def run (f : FrontEnd) (tracing : Bool) (text : Bytes) : FrontEnd :=
  let f := (f.trace tracing "Phase 1: Lexing").lex text
  if 0 < f.result.errorCount then f.trace tracing "Lexing failed" else f.finish tracing

end FrontEnd

/-- Runs the front end on a text. -/
def Batch.parseSource (b : Batch) (tracing : Bool) (source : SourceText) : FrontEnd :=
  (FrontEnd.enter ⟨b, .empty, []⟩ source).run tracing source.text

end BlockSyntax
