import BlockSyntax.Text.Bytes

/-!
# The fixed texts of the command

The help text, the version, and the program that is analyzed when no file is given.
-/

set_option autoImplicit false

namespace BlockSyntax.CommandLine

/-- Lines of ASCII text. -/
def linesOf (texts : List String) : Bytes := texts.flatMap fun text => ascii text ++ [lineFeed]

/-- The help text. -/
def usage : Bytes :=
  linesOf
    ["begendc v0.1.0 - Begend front end",
     "",
     "Usage: begendc [options] [file...]",
     "",
     "Each file is lexed and parsed on its own; an error in one file does",
     "not stop the others. Without files a built-in demo program is used.",
     "",
     "Options:",
     "  --tokens                       Print the token stream (default)",
     "  --no-tokens                    Do not print the token stream",
     "  --tree                         Print the syntax tree (default)",
     "  --no-tree                      Do not print the syntax tree",
     "  --json PATH                    Write the JSON tree to PATH",
     "                                 (default: program.json)",
     "  --no-json                      Do not write JSON",
     "  --compact                      Write single-line JSON",
     "  --trace                        Trace frontend phases on stderr",
     "  -h, --help                     Show this help message",
     "  --version                      Show version information",
     "",
     "Examples:",
     "  begendc                                   Run the demo program",
     "  begendc a.bg b.bg --no-tokens             Print trees only",
     "  begendc prog.bg --json out.json --compact Compact JSON to out.json",
     "",
     "Environment:",
     "  BEGEND_DEBUG_PARSE             Same as --trace when set"]

/-- The version text. -/
def version : Bytes :=
  linesOf ["begendc v0.1.0", "Begend front end: tokens, syntax tree and JSON"]

/-- The name that stands for the path of the built-in program. -/
def inlineName : Bytes := ascii "(inline)"

/-- The built-in program. -/
def inlineProgram : Bytes :=
  linesOf
    ["int a; real r; bool ok;",
     "5 -> a; 2.5 -> r; true -> ok;",
     "if (a < 10 and not (r >= 2.0)) print(1); else print(0);"]

end BlockSyntax.CommandLine
