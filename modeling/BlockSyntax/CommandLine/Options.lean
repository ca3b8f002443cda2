import BlockSyntax.Json.Basic

/-!
# The arguments of the command

Arguments are read from the left.  One that starts with a hyphen is an option, the one
behind `--json` is its operand whatever it looks like, and every other argument is a
file.  The first argument that asks for the help text or the version, is not known, or
lacks its operand decides what happens; the arguments behind it are not read.  Otherwise
the command runs, each setting being that of the last option for it.
-/

set_option autoImplicit false

namespace BlockSyntax.CommandLine

/-- What a run of the command does. -/
structure Options where
  /-- The files to analyze, in order. -/
  files : List Bytes
  /-- Print the tokens. -/
  printTokens : Bool
  /-- Print the outline of the tree. -/
  printTree : Bool
  /-- Write the tree as JSON. -/
  writeJson : Bool
  /-- Where to write it. -/
  jsonPath : Bytes
  /-- How to lay it out. -/
  layout : Json.Layout
  /-- Trace the phases of the analysis. -/
  tracing : Bool
  deriving DecidableEq

/-- The options when none are given. -/
def Options.default : Options where
  files := []
  printTokens := true
  printTree := true
  writeJson := true
  jsonPath := ascii "program.json"
  layout := .pretty
  tracing := false

/-- A setting that an option changes on its own. -/
inductive Setting where
  /-- Print the tokens or not. -/
  | tokens (on : Bool)
  /-- Print the outline or not. -/
  | tree (on : Bool)
  /-- Write no JSON. -/
  | noJson
  /-- Write JSON on one line. -/
  | compact
  /-- Trace the phases. -/
  | trace
  deriving DecidableEq

/-- Applies a setting. -/
def Setting.apply (o : Options) : Setting → Options
  | tokens on => { o with printTokens := on }
  | tree on => { o with printTree := on }
  | noJson => { o with writeJson := false }
  | compact => { o with layout := .compact }
  | trace => { o with tracing := true }

/-- What an argument is, when it is not an operand. -/
inductive Argument where
  /-- It asks for the help text. -/
  | help
  /-- It asks for the version. -/
  | version
  /-- It changes a setting. -/
  | setting (s : Setting)
  /-- It says where to write JSON, with the next argument as its operand. -/
  | json
  /-- It looks like an option but is none. -/
  | unknown
  /-- It is a file. -/
  | file
  deriving DecidableEq

/-- The options by their spelling. -/
def Argument.options : List (Bytes × Argument) :=
  [(ascii "-h", .help), (ascii "--help", .help), (ascii "--version", .version),
   (ascii "--tokens", .setting (.tokens true)), (ascii "--no-tokens", .setting (.tokens false)),
   (ascii "--tree", .setting (.tree true)), (ascii "--no-tree", .setting (.tree false)),
   (ascii "--json", .json), (ascii "--no-json", .setting .noJson),
   (ascii "--compact", .setting .compact), (ascii "--trace", .setting .trace)]

/-- What an argument is. -/
def Argument.of (text : Bytes) : Argument :=
  match options.lookup text with
  | some a => a
  | none => if text.head? = some (byte '-') then .unknown else .file

/-- What the arguments ask for. -/
inductive Request where
  /-- The help text. -/
  | help
  /-- The version. -/
  | version
  /-- An option that does not exist. -/
  | unknownOption (text : Bytes)
  /-- An option whose operand is missing. -/
  | missingOperand
  /-- A run. -/
  | run (options : Options)
  deriving DecidableEq

/-- Reads arguments on top of the options found so far. -/
def Request.read (o : Options) : List Bytes → Request
  | [] => .run o
  | text :: rest =>
    match Argument.of text, rest with
    | .help, _ => .help
    | .version, _ => .version
    | .unknown, _ => .unknownOption text
    | .json, [] => .missingOperand
    | .json, path :: rest => read { o with jsonPath := path, writeJson := true } rest
    | .setting s, rest => read (s.apply o) rest
    | .file, rest => read { o with files := o.files ++ [text] } rest

/-- What a list of arguments asks for. -/
def Request.of (arguments : List Bytes) : Request := read .default arguments

end BlockSyntax.CommandLine
