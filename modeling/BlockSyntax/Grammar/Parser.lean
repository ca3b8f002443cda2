import BlockSyntax.Grammar.Session

/-!
# Parsers step by step

A parser holds the tokens of a source, of which the last is an end marker, and a cursor
among them.  Its routines take tokens one after the other, draw identifiers as soon as
nodes are complete, and go back to their callers with what they have made or with
nothing.  That a routine makes nothing and that the parser records an error are two
things: a routine has to do both where it fails, and its callers only pass on that
nothing was made.

An error is recorded with the token taken last and the token at the cursor, and it is
written to a log of diagnostics, which the parser may share with others.  Once an error
is recorded no other is, but nothing keeps a parser from being asked again.

The parser of `BlockSyntax.Grammar.Session` is the same one as seen from outside: what a
request makes and what it leaves.
-/

set_option autoImplicit false

namespace BlockSyntax

/-! ## Tokens -/

/-- The tokens of a source with an end marker behind them.  There may be others in front
of it. -/
structure TokenStream where
  /-- The tokens in front of the last one. -/
  front : List Token
  /-- The last token. -/
  marker : Token
  /-- It is an end marker. -/
  ends : marker.kind = .eof

namespace TokenStream

/-- All tokens. -/
def tokens (s : TokenStream) : List Token := s.front ++ [s.marker]

/-- The given tokens, with an end marker behind them if the last of them is none. -/
def complete (tokens : List Token) : TokenStream :=
  let supplied : TokenStream := ⟨tokens, Session.suppliedMarker tokens, rfl⟩
  match tokens.getLast? with
  | some last => if ends : last.kind = .eof then ⟨tokens.dropLast, last, ends⟩ else supplied
  | none => supplied

/-- The token at an index, which is the last one from the end of the stream on. -/
def get (s : TokenStream) (index : Nat) : Token := s.front.getD index s.marker

end TokenStream

/-! ## Parsers -/

/-- A parser. -/
structure Parser where
  /-- The tokens. -/
  stream : TokenStream
  /-- The index of the next token. -/
  cursor : Nat
  /-- The token taken last. -/
  last? : Option Token
  /-- The identifier of the next node. -/
  nextId : NodeId
  /-- The error that is recorded. -/
  error? : Option SyntaxError
  /-- What was reported. -/
  log : List Diagnostic

namespace Parser

/-- The parser at the first of the given tokens. -/
def ofTokens (tokens : List Token) (nextId : NodeId) (log : List Diagnostic) : Parser where
  stream := .complete tokens
  cursor := 0
  last? := none
  nextId := nextId
  error? := none
  log := log

/-- The token at an offset from the cursor. -/
def peek (p : Parser) (offset : Nat) : Token := p.stream.get (p.cursor + offset)

/-- The next token is an end marker. -/
def atEnd (p : Parser) : Bool := (p.peek 0).kind = .eof

/-- The tokens from the cursor to the next end marker. -/
def rest (p : Parser) : List Token :=
  (p.stream.front.drop p.cursor).takeWhile (·.kind ≠ .eof)

/-- The parser behind the next token; an end marker is not passed. -/
def advance (p : Parser) : Parser :=
  if p.atEnd then p else { p with cursor := p.cursor + 1, last? := some (p.peek 0) }

/-- The syntax error for a failure at the cursor. -/
def errorHere (p : Parser) (expected : Expectation) : SyntaxError where
  expected := expected
  last := p.last?.getD (p.stream.get 0)
  found := if p.atEnd && 0 < p.cursor then p.stream.get (p.cursor - 1) else p.peek 0

/-- Records an error at the cursor and reports it, unless one is recorded already. -/
def fail (p : Parser) (expected : Expectation) : Parser :=
  if p.error?.isSome then p
  else
    let e := p.errorHere expected
    { p with error? := some e, log := p.log ++ [e.diagnostic] }

/-- Draws the next identifier. -/
def draw (p : Parser) : NodeId × Parser := (p.nextId, { p with nextId := p.nextId + 1 })

end Parser

/-! ## Routines -/

/-- A routine of a parser, which may make nothing. -/
abbrev Parse := OptionT (StateM Parser)

namespace Parse

variable {α κ σ : Type}

/-- Looks at the kind of the token at an offset from the cursor. -/
def kindAt (offset : Nat) : Parse TokenKind := do return ((← get).peek offset).kind

/-- Takes the next token. -/
def advance : Parse Token := do
  let next := (← get).peek 0
  modify Parser.advance
  return next

/-- Takes the next token if its kind passes a test. -/
def acceptIf (test : TokenKind → Bool) : Parse (Option Token) := do
  if test (← kindAt 0) then return some (← advance) else return none

/-- Takes the next token if it is of a kind; says whether it was. -/
def accept (k : TokenKind) : Parse Bool := do return (← acceptIf (· = k)).isSome

/-- Records an error. -/
def error (expected : Expectation) : Parse Unit := modify (·.fail expected)

/-- Takes the next token if its kind passes a test, and fails otherwise. -/
def expectIf (test : TokenKind → Bool) (expected : Expectation) : Parse Token := do
  match ← acceptIf test with
  | some next => return next
  | none =>
    error expected
    failure

/-- Takes a token of a kind. -/
def expect (k : TokenKind) (expected : Expectation) : Parse Token := expectIf (· = k) expected

/-! ### Nodes -/

/-- A terminal with the next identifier. -/
def terminal (label : String) (t : Token) : Parse Node := do
  return .terminal (← modifyGet Parser.draw) (ascii label) t

/-- A list with the next identifier. -/
def list (label : String) (items : List Node) : Parse Node := do
  return .list (← modifyGet Parser.draw) (ascii label) items

/-- A list with the next identifier, or no node when there is nothing in it. -/
def listUnlessEmpty (label : String) (items : List Node) : Parse (List Node) := do
  if items.isEmpty then return [] else return [← list label items]

/-- A construct with the next identifier. -/
def construct (form : Construct) (parts : List Node) : Parse Node := do
  return .construct (← modifyGet Parser.draw) form parts

/-! ### Recursion and loops -/

/-- Runs a routine that calls itself.  Every call has to stand behind a token that was taken
since the call around it, and makes nothing otherwise; so the tokens bound the recursion. -/
def runRecursive (body : (κ → Parse α) → κ → Parse α) (argument : κ) (p : Parser) :
    Option α × Parser :=
  (body (fun inner => OptionT.mk fun q =>
    if _ : q.rest.length < p.rest.length then runRecursive body inner q else (none, q))
    argument).run p
termination_by p.rest.length

/-- A routine that calls itself. -/
def recursive (body : (κ → Parse α) → κ → Parse α) (argument : κ) : Parse α :=
  OptionT.mk (runRecursive body argument)

/-- A loop that carries a value from one round to the next, until a round has none for the
next. -/
def loop (round : σ → Parse (Option σ)) : σ → Parse σ :=
  recursive fun again value => do
    match ← round value with
    | some next => again next
    | none => return value

/-- The nodes that the rounds of a loop make, until a round makes none. -/
def collect (round : Parse (Option Node)) : Parse (List Node) :=
  loop (fun nodes => do return (← round).map fun node => nodes ++ [node]) []

/-- Items behind others, one and then another behind every comma. -/
def separatedFrom (item : Parse Node) : List Node → Parse (List Node) :=
  recursive fun again nodes => do
    let nodes := nodes ++ [← item]
    if ← accept .comma then again nodes else return nodes

/-- Items with commas between them. -/
def separated (item : Parse Node) : Parse (List Node) := separatedFrom item []

end Parse

end BlockSyntax
