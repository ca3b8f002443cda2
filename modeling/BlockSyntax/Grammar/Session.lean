import BlockSyntax.Diagnostic
import BlockSyntax.Grammar.Program
import BlockSyntax.Tree.Numbering

/-!
# Parsing sessions

A session holds the tokens of a source and can be asked for a program, a statement or
an expression any number of times.  Each request goes on where the one before stopped,
whether it succeeded or not, and numbers the tree it finds from the session's counter.
A request that fails moves the counter behind the nodes it had completed.

The tokens of a session are those in front of the first end marker; if there is no end
marker one is supplied, at the location of the last token.  The end marker itself is
never taken.

The first failure of a session is remembered as its syntax error; later failures leave
no trace.  A syntax error names two tokens: the last one taken, or the first of the
source when none was; and the one at which the parse failed, or the last one taken when
it failed at the end.
-/

set_option autoImplicit false

namespace BlockSyntax

/-- Why and where a parse failed. -/
structure SyntaxError where
  /-- What was expected. -/
  expected : Expectation
  /-- The last token taken. -/
  last : Token
  /-- The token that was not expected. -/
  found : Token
  deriving DecidableEq

/-- The message of a syntax error. -/
def SyntaxError.message (e : SyntaxError) : Bytes := e.expected.message

/-- The diagnostic that reports a syntax error. -/
def SyntaxError.diagnostic (e : SyntaxError) : Diagnostic :=
  .error (ascii "B2001") e.message e.found.location

/-- The tokens of a source with a cursor among them, the counter that trees are numbered
from, and the first failure. -/
structure Session where
  /-- The tokens taken, the last one first. -/
  taken : List Token
  /-- The tokens still to be taken. -/
  rest : List Token
  /-- The end marker behind them. -/
  marker : Token
  /-- The identifier of the next node. -/
  nextId : NodeId
  /-- The first failure. -/
  error? : Option SyntaxError
  deriving DecidableEq

/-- What a session can be asked for. -/
inductive Goal where
  | program
  | statement
  | expression
  deriving DecidableEq

/-- Reads what is asked for and gives the walk that numbers it. -/
def Goal.parse (tokens : List Token) : Goal → Reply (Numbered Node) (tokens.length + 1)
  | program => (BlockSyntax.program tokens).map Program.number
  | statement => ((BlockSyntax.statement tokens).map Stmt.number).widen (length_le_succ tokens)
  | expression => ((BlockSyntax.expression tokens).map Expr.number).widen (length_le_succ tokens)

namespace Session

/-- The end marker supplied behind tokens without one. -/
def suppliedMarker (tokens : List Token) : Token :=
  ⟨.eof, [], (tokens.getLast?.map (·.location)).getD .unknown⟩

/-- The session at the first of the given tokens. -/
def ofTokens (tokens : List Token) (nextId : NodeId) : Session where
  taken := []
  rest := tokens.takeWhile (·.kind ≠ .eof)
  marker := (tokens.find? (·.kind = .eof)).getD (suppliedMarker tokens)
  nextId := nextId
  error? := none

/-- The first identifier of a counter of its own. -/
def firstId : NodeId := 1

/-- The token under the cursor, which may be the end marker. -/
def current (s : Session) : Token := s.rest.headD s.marker

/-- The session after taking tokens until the given ones are left. -/
def advanceTo (s : Session) (rest : List Token) : Session :=
  { s with
    taken := (s.rest.take (s.rest.length - rest.length)).reverse ++ s.taken
    rest := rest }

/-- The syntax error for a failure at the cursor. -/
def errorHere (s : Session) (expected : Expectation) : SyntaxError where
  expected := expected
  last := s.taken.headD s.current
  found := s.rest.headD (s.taken.headD s.marker)

/-- Remembers a failure at the cursor unless there was one before. -/
def fail (s : Session) (expected : Expectation) : Session :=
  { s with error? := s.error?.or (some (s.errorHere expected)) }

/-- Asks for a program, a statement or an expression: its tree, or why there is none. -/
def ask (s : Session) (goal : Goal) : Except SyntaxError Node × Session :=
  match goal.parse s.rest with
  | .ok numbering rest _ _ =>
    let (root, nextId) := numbering s.nextId
    (.ok root, { s.advanceTo rest with nextId := nextId })
  | .fail expected rest made =>
    let reached := s.advanceTo rest
    (.error (reached.errorHere expected),
      { reached.fail expected with nextId := s.nextId + made.toUInt64 })

/-- The diagnostics a session has reported: one for its first failure. -/
def diagnostics (s : Session) : List Diagnostic := (s.error?.map SyntaxError.diagnostic).toList

/-- What happens to a session: it is asked for something, or its counter is moved by others
that number from it. -/
inductive Event where
  | ask (goal : Goal)
  | moved (nextId : NodeId)

/-- The session after an event. -/
def after (s : Session) : Event → Session
  | .ask goal => (s.ask goal).2
  | .moved nextId => { s with nextId := nextId }

end Session

end BlockSyntax
