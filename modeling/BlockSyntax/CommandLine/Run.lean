import BlockSyntax.Analysis
import BlockSyntax.CommandLine.Options
import BlockSyntax.CommandLine.Texts
import BlockSyntax.Tree.Json
import BlockSyntax.Tree.Outline

/-!
# Running the command

The command analyzes its files one after the other as one batch.  For each it prints the
tokens and the outline of the tree and writes the tree as JSON, as far as the options ask
for it, or it reports why there is no tree; no failure stops the files behind it.  All
files write their JSON to the same path, and a file is looked at only when its turn
comes, so it may hold what an earlier one wrote.  The run succeeds when every file was a
program whose outputs were written.

What the command does to the world goes through a `Host`: finding a source text, storing
a text, and writing to the two output streams.  `World.hostWith` is the host over a file
system held as a value, in which not every path need be open to the command, and the real
one is in `BlockSyntax.Main`.
-/

set_option autoImplicit false

namespace BlockSyntax.CommandLine

/-! ## Hosts -/

/-- The effects of the command. -/
structure Host (m : Type → Type) where
  /-- Asks for the source text at a path. -/
  find : Bytes → m Found
  /-- Stores a text at a path, and says whether that could be done. -/
  store : Bytes → Bytes → m Bool
  /-- Writes to the output stream. -/
  out : Bytes → m Unit
  /-- Writes to the error stream. -/
  err : Bytes → m Unit

/-- A file system and what was written to the two streams. -/
structure World where
  /-- The files. -/
  files : FileSystem
  /-- What was written to the output stream. -/
  stdout : Bytes
  /-- What was written to the error stream. -/
  stderr : Bytes
  deriving DecidableEq

/-- The paths that may be opened, whatever is there. -/
structure Rights where
  /-- The paths that may be opened for reading. -/
  reads : Bytes → Bool
  /-- The paths that may be opened for writing. -/
  writes : Bytes → Bool

namespace Rights

/-- All paths may be opened. -/
def all : Rights := ⟨fun _ => true, fun _ => true⟩

/-- What is there when a path is opened for reading. -/
def opened (rights : Rights) (fs : FileSystem) (path : Bytes) : Opened :=
  if rights.reads path then fs.opened path else .failed

/-- Writes a text to a path, if it may be opened for that. -/
def store (rights : Rights) (fs : FileSystem) (path text : Bytes) : Option FileSystem :=
  if rights.writes path then fs.store path text else none

end Rights

/-- The host that acts on a world as far as the rights go. -/
def World.hostWith (rights : Rights) : Host (StateM World) where
  find path := fun w => ((rights.opened w.files path).found, w)
  store path text := fun w =>
    match rights.store w.files path text with
    | some files => (true, { w with files := files })
    | none => (false, w)
  out text := fun w => ((), { w with stdout := w.stdout ++ text })
  err text := fun w => ((), { w with stderr := w.stderr ++ text })

/-- The host that acts on a world with all rights. -/
def World.host : Host (StateM World) := World.hostWith .all

/-! ## One file -/

/-- A line that heads a section of the output. -/
def sectionHead (title name : Bytes) : Bytes :=
  ascii "=== " ++ title ++ name ++ ascii " ===" ++ [lineFeed]

/-- The tokens of a text, if they are to be printed. -/
def tokenSection (o : Options) (name : Bytes) (tokens : List Token) : Bytes :=
  if o.printTokens then sectionHead (ascii "TOKENS for: ") name ++ Token.table tokens else []

/-- The outline of a tree, if it is to be printed. -/
def treeSection (o : Options) (name : Bytes) (root : Node) : Bytes :=
  if o.printTree then
    lineFeed :: sectionHead (ascii "SYNTAX TREE for: ") name ++ root.outline
  else []

/-- What is said about a lexical error. -/
def lexicalReport (name printed : Bytes) : Bytes :=
  ascii "Lexical error in '" ++ name ++ ascii "':" ++ [lineFeed] ++ printed

/-- What is said about a syntax error. -/
def syntaxReport (name : Bytes) (e : SyntaxError) : Bytes :=
  ascii "Syntax error in '" ++ name ++ ascii "': " ++ e.message ++ [lineFeed]
    ++ ascii "Last consumed token: " ++ e.last.describe ++ [lineFeed]
    ++ ascii "Token at error site: " ++ e.found.describe ++ [lineFeed]

variable {m : Type → Type} [Monad m] (host : Host m)

/-- Writes the JSON of a tree, if it is to be written; says whether that went well. -/
def writeTree (o : Options) (root : Node) : m Bool := do
  if o.writeJson then
    let stored ← host.store o.jsonPath (root.renderJson o.layout ++ [lineFeed])
    if stored then
      host.out (lineFeed :: sectionHead (ascii "AST written to ") o.jsonPath)
    else
      host.err (ascii "error: unable to write " ++ o.jsonPath ++ [lineFeed])
    return stored
  else return true

/-- Shows the analysis of a text under a name; says whether the text was a program whose
outputs were written. -/
def present (o : Options) (name : Bytes) (a : Analysis) : m Bool := do
  host.err a.stderr
  let printed := Diagnostic.renderAll a.batch.registry.path a.report.verdict.diagnostics
  match a.report.verdict with
  | .unloaded _ =>
    host.err printed
    return false
  | .lexicalError _ =>
    host.err (lexicalReport name printed)
    host.out [lineFeed]
    return false
  | .syntaxError e =>
    host.out (tokenSection o name a.report.tokens)
    host.err (syntaxReport name e)
    host.out [lineFeed]
    return false
  | .accepted root =>
    host.out (tokenSection o name a.report.tokens ++ treeSection o name root)
    let written ← writeTree host o root
    host.out [lineFeed]
    return written

/-! ## All files -/

/-- Analyzes and shows files in order; says whether all went well. -/
def runFiles (o : Options) (tracing : Bool) : List Bytes → Batch → m Bool
  | [], _ => return true
  | path :: paths, batch => do
    let found ← host.find path
    let analysis := batch.analyzeFile tracing path found
    let good ← present host o path analysis
    let rest ← runFiles o tracing paths analysis.batch
    return good && rest

/-- Analyzes and shows the files of the options, or the built-in program when there are
none. -/
def run (o : Options) (tracing : Bool) : m Bool :=
  if o.files.isEmpty then
    present host o inlineName
      (Batch.start.analyzeText tracing ⟨inlineProgram, inlineName, none⟩)
  else runFiles host o tracing o.files .start

/-- Does what the arguments ask for and gives the exit status.  A variable of the
environment can ask for a trace as well. -/
def execute (environmentTraces : Bool) (arguments : List Bytes) : m UInt32 := do
  match Request.of arguments with
  | .help =>
    host.err usage
    return 0
  | .version =>
    host.out version
    return 0
  | .unknownOption text =>
    host.err (ascii "error: unknown option '" ++ text ++ ascii "'" ++ [lineFeed, lineFeed]
      ++ usage)
    return 1
  | .missingOperand =>
    host.err (ascii "error: --json requires an output path" ++ [lineFeed, lineFeed] ++ usage)
    return 1
  | .run o =>
    let good ← run host o (o.tracing || environmentTraces)
    return if good then 0 else 1

/-- The exit status of a run in a world, and the world afterwards. -/
def World.execute (w : World) (environmentTraces : Bool) (arguments : List Bytes) :
    UInt32 × World :=
  CommandLine.execute World.host environmentTraces arguments w

end BlockSyntax.CommandLine
