import BlockSyntax.Grammar.Session
import BlockSyntax.Source.Loading
import BlockSyntax.Token.Scanner

/-!
# Analysis of source texts

A source text is taken apart into tokens and, if they have no fault, parsed as a
program.  The report says which file the text is in, which tokens it has, and how the
analysis ended: with the numbered tree of a program, with a lexical error, with a syntax
error, or without a text when its file could not be loaded.

Texts are analyzed one after the other in a batch, which shares the registry of files
and the counter that nodes are numbered from.  Nothing else passes from one text to the
next.
-/

set_option autoImplicit false

namespace BlockSyntax

/-! ## Reports -/

/-- How an analysis ended. -/
inductive Verdict where
  /-- The text is a program, with the given tree. -/
  | accepted (root : Node)
  /-- A lexeme is at fault. -/
  | lexicalError (e : LexicalError)
  /-- The tokens are not those of a program. -/
  | syntaxError (e : SyntaxError)
  /-- There is no text. -/
  | unloaded (failure : LoadFailure)

namespace Verdict

/-- The tree of a program. -/
def root? : Verdict → Option Node
  | accepted root => some root
  | _ => none

/-- The syntax error. -/
def syntaxError? : Verdict → Option SyntaxError
  | syntaxError e => some e
  | _ => none

/-- What is reported: nothing about a program, and one error otherwise. -/
def diagnostics : Verdict → List Diagnostic
  | accepted _ => []
  | lexicalError e => [e.diagnostic]
  | syntaxError e => [e.diagnostic]
  | unloaded failure => [failure.diagnostic]

/-- The phases an analysis went through, with its end. -/
def phases : Verdict → List Bytes
  | accepted _ => [ascii "Phase 1: Lexing", ascii "Phase 2: Parsing", ascii "Done"]
  | lexicalError _ => [ascii "Phase 1: Lexing", ascii "Lexing failed"]
  | syntaxError _ => [ascii "Phase 1: Lexing", ascii "Phase 2: Parsing", ascii "Parsing failed"]
  | unloaded _ => []

/-- The lines that trace an analysis. -/
def trace (v : Verdict) : Bytes :=
  v.phases.flatMap fun phase => ascii "[begend] " ++ phase ++ [lineFeed]

end Verdict

/-- The report on a source text. -/
structure Report where
  /-- The number of its file, zero when there is no text. -/
  file : FileId
  /-- Its tokens. -/
  tokens : List Token
  /-- How the analysis ended. -/
  verdict : Verdict

/-- The text is a program. -/
def Report.succeeded (r : Report) : Bool :=
  r.verdict.root?.isSome && Diagnostic.count .error r.verdict.diagnostics = 0

/-- Analyzes a text of the given file, numbering nodes from `nextId`; gives the counter
afterwards too. -/
def analyze (file : FileId) (text : Bytes) (nextId : NodeId) : Report × NodeId :=
  let lexed := (Scanner.ofText file text).tokenize
  match lexed.error? with
  | some e => (⟨file, lexed.tokens, .lexicalError e⟩, nextId)
  | none =>
    match (Session.ofTokens lexed.tokens nextId).ask .program with
    | (.ok root, s) => (⟨file, lexed.tokens, .accepted root⟩, s.nextId)
    | (.error e, s) => (⟨file, lexed.tokens, .syntaxError e⟩, s.nextId)

/-! ## Batches -/

/-- What the texts of a batch share. -/
structure Batch where
  /-- The registered files. -/
  registry : Registry
  /-- The identifier of the next node. -/
  nextId : NodeId
  deriving DecidableEq

/-- The batch before its first text. -/
def Batch.start : Batch := ⟨.empty, Session.firstId⟩

/-- A text to be analyzed, with the path it is registered under or the number of the
file it is in. -/
structure SourceText where
  /-- The text. -/
  text : Bytes
  /-- The path, used when there is no file number. -/
  path : Bytes
  /-- The number of the file, if it is registered already. -/
  file? : Option FileId
  deriving DecidableEq

/-- The path of a text that comes without one. -/
def SourceText.defaultPath : Bytes := ascii "<input>"

/-- What the analysis of one text in a batch leaves. -/
structure Analysis where
  /-- The report. -/
  report : Report
  /-- The batch afterwards. -/
  batch : Batch
  /-- What is written to the error stream. -/
  stderr : Bytes

namespace Batch

/-- Analyzes a text in a registered file. -/
def analyzeIn (b : Batch) (tracing : Bool) (file : FileId) (text : Bytes) : Analysis :=
  let (report, nextId) := analyze file text b.nextId
  ⟨report, { b with nextId := nextId }, if tracing then report.verdict.trace else []⟩

/-- Analyzes a text.  One without a file number is registered first; a path for which no
number is left is in no file. -/
def analyzeText (b : Batch) (tracing : Bool) (source : SourceText) : Analysis :=
  match source.file? with
  | some file => b.analyzeIn tracing file source.text
  | none =>
    let registered := b.registry.add source.path
    let analysis := { b with registry := registered.registry }.analyzeIn tracing registered.id
      source.text
    { analysis with stderr := registered.complaint ++ analysis.stderr }

/-- Loads the text found at a path and analyzes it. -/
def analyzeFile (b : Batch) (tracing : Bool) (path : Bytes) (found : Found) : Analysis :=
  let loading := b.registry.load path found
  let loaded := { b with registry := loading.registry }
  match loading.outcome with
  | .error failure => ⟨⟨0, [], .unloaded failure⟩, loaded, loading.complaint⟩
  | .ok (text, file) =>
    let analysis := loaded.analyzeIn tracing file text
    { analysis with stderr := loading.complaint ++ analysis.stderr }

/-! ### Histories -/

/-- What happens in a batch: a path is registered, or a text is analyzed. -/
inductive Event where
  | registered (path : Bytes)
  | analyzed (tracing : Bool) (source : SourceText)

/-- The batch after an event. -/
def after (b : Batch) : Event → Batch
  | .registered path => { b with registry := (b.registry.add path).registry }
  | .analyzed tracing source => (b.analyzeText tracing source).batch

/-- What is analyzed in a batch: a text, or what is found at a path. -/
inductive Input where
  | text (tracing : Bool) (source : SourceText)
  | file (tracing : Bool) (path : Bytes) (found : Found)

/-- The analysis of an input. -/
def analyzed (b : Batch) : Input → Analysis
  | .text tracing source => b.analyzeText tracing source
  | .file tracing path found => b.analyzeFile tracing path found

/-- The batch after some inputs. -/
def run (b : Batch) (inputs : List Input) : Batch :=
  inputs.foldl (fun b input => (b.analyzed input).batch) b

/-- The analyses of inputs, one after the other. -/
def analyses (b : Batch) : List Input → List Analysis
  | [] => []
  | input :: inputs => b.analyzed input :: (b.analyzed input).batch.analyses inputs

end Batch

end BlockSyntax
