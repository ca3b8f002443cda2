import BlockSyntax.Grammar.Expectation
import BlockSyntax.Token.Basic

/-!
# Replies of a parser

A parser reads a list of tokens, which ends where the source ends.  Its reply is a
value with the tokens behind it, or what it expected with the tokens from the one at
which it failed.  Both say how many nodes of the tree were completed, because nodes
are numbered from a counter that a failed parse moves as well.

The type of a reply carries a bound on the tokens that are left, so that parsers can
be written by recursion: a parser that takes a token from a list of `n` replies in
`Reply α n`, where fewer than `n` are left; a parser that may take none replies in
`Reply α (n + 1)`.  Parsers that call others on shorter lists take them as arguments of
type `Below n α`, and a grammar ties itself together in one recursive definition.

Two loops cover all repetition in the grammar: `whileNext`, which goes on as long as
the next token invites it, and `separated`, which goes on behind every comma.
-/

set_option autoImplicit false

namespace BlockSyntax

/-! ## Fewer tokens

The facts below are stated over lists so that the grammars can name them: a bound in a
reply is then a lemma applied to what is left, and no definition carries a proof of its
own for it. -/

section Length

variable {us vs ws xs : List Token}

theorem length_le_succ (us : List Token) : us.length ≤ us.length + 1 := Nat.le_succ _

theorem length_lt_succ (us : List Token) : us.length < us.length + 1 := Nat.lt_succ_self _

/-- What two parsers leave, one behind the other. -/
theorem length_lt_two (first : vs.length < us.length) (second : ws.length < vs.length) :
    ws.length < us.length := Nat.lt_trans second first

/-- What three parsers leave, one behind the other. -/
theorem length_lt_three (first : vs.length < us.length) (second : ws.length < vs.length)
    (third : xs.length < ws.length) : xs.length < us.length :=
  length_lt_two (length_lt_two first second) third

theorem length_lt_of_le {n : Nat} (bounded : us.length ≤ n) (shorter : vs.length < us.length) :
    vs.length < n := Nat.lt_of_lt_of_le shorter bounded

end Length

/-! ## Replies -/

/-- What a parser replies: fewer than `n` tokens are left behind a value. -/
inductive Reply (α : Type) (n : Nat) where
  /-- A value, the tokens behind it, and the number of nodes completed. -/
  | ok (value : α) (rest : List Token) (made : Nat) (shorter : rest.length < n)
  /-- What was expected instead of the first token of `rest`, or of the end. -/
  | fail (expected : Expectation) (rest : List Token) (made : Nat)

/-- A parser for the lists with fewer than `n` tokens, which takes at least one. -/
abbrev Below (n : Nat) (α : Type) :=
  (tokens : List Token) → tokens.length < n → Reply α tokens.length

namespace Reply

variable {α β : Type} {m n : Nat}

/-- Counts nodes completed before. -/
def after (before : Nat) : Reply α n → Reply α n
  | ok v rest made h => ok v rest (before + made) h
  | fail e rest made => fail e rest (before + made)

/-- Goes on behind a value; a failure stays as it is. -/
def bind (r : Reply α m)
    (next : α → (rest : List Token) → rest.length < m → Reply β n) : Reply β n :=
  match r with
  | ok v rest made h => (next v rest h).after made
  | fail e rest made => fail e rest made

/-- Counts a node completed at the end of a value. -/
def node (r : Reply α n) : Reply α n :=
  match r with
  | ok v rest made h => ok v rest (made + 1) h
  | fail e rest made => fail e rest made

/-- Changes the value. -/
def map (f : α → β) : Reply α n → Reply β n
  | ok v rest made h => ok (f v) rest made h
  | fail e rest made => fail e rest made

/-- Forgets part of the bound. -/
def widen (h : m ≤ n) : Reply α m → Reply α n
  | ok v rest made shorter => ok v rest made (Nat.lt_of_lt_of_le shorter h)
  | fail e rest made => fail e rest made

end Reply

/-! ## Single tokens -/

/-- The kind of the next token; the end has the kind of the end marker. -/
def nextKind : List Token → TokenKind
  | [] => .eof
  | t :: _ => t.kind

/-- Takes a token whose kind passes a test. -/
def takeIf (test : TokenKind → Bool) (expected : Expectation) :
    (tokens : List Token) → Reply Token tokens.length
  | [] => .fail expected [] 0
  | t :: rest =>
    if test t.kind then .ok t rest 0 (Nat.lt_succ_self _) else .fail expected (t :: rest) 0

/-- Takes a reserved word or mark that has only one place to be. -/
def take (k : TokenKind) (tokens : List Token) : Reply Token tokens.length :=
  takeIf (· = k) (.token k) tokens

/-- Takes a reserved word or mark behind a part of a construct. -/
def takeAfter (k : TokenKind) (part : Part) (tokens : List Token) : Reply Token tokens.length :=
  takeIf (· = k) (.tokenAfter k part) tokens

/-- Takes a name, which becomes a terminal. -/
def takeName (role : NameRole) (tokens : List Token) : Reply Token tokens.length :=
  (takeIf (· = .identifier) (.name role) tokens).node

/-- Takes the reserved word of a type, which becomes a terminal. -/
def takeType (tokens : List Token) : Reply Token tokens.length :=
  (takeIf TokenKind.isType .typeName tokens).node

/-- Takes a token of a kind if it is next. -/
def skip (k : TokenKind) (tokens : List Token) : Reply Bool (tokens.length + 1) :=
  if nextKind tokens = k then (take k tokens).map (fun _ => true) |>.widen (length_le_succ tokens)
  else .ok false tokens 0 (length_lt_succ tokens)

/-! ## Repetition -/

/-- Reads items as long as the next token invites one. -/
def whileNext {α : Type} (invites : TokenKind → Bool) (tokens : List Token)
    (item : Below (tokens.length + 1) α) : Reply (List α) (tokens.length + 1) :=
  if invites (nextKind tokens) then
    (item tokens (length_lt_succ tokens)).bind fun a rest _ =>
    (whileNext invites rest fun us _ => item us (by omega)).bind fun as rest _ =>
    .ok (a :: as) rest 0 (by omega)
  else .ok [] tokens 0 (length_lt_succ tokens)
termination_by tokens.length

/-- Reads one item and another behind every comma. -/
def separated {α : Type} (tokens : List Token) (item : Below (tokens.length + 1) α) :
    Reply (List α) tokens.length :=
  (item tokens (length_lt_succ tokens)).bind fun a rest _ =>
  if nextKind rest = .comma then
    (take .comma rest).bind fun _ rest _ =>
    (separated rest fun us _ => item us (by omega)).bind fun as rest _ =>
    .ok (a :: as) rest 0 (by omega)
  else .ok [a] rest 0 (by assumption)
termination_by tokens.length

/-- Reads items separated by commas, or none when the closing mark comes at once.  The
closing mark is left. -/
def separatedUpTo {α : Type} (close : TokenKind) (tokens : List Token)
    (item : Below (tokens.length + 1) α) : Reply (List α) (tokens.length + 1) :=
  if nextKind tokens = close then .ok [] tokens 0 (length_lt_succ tokens)
  else (separated tokens item).widen (length_le_succ tokens)

end BlockSyntax
