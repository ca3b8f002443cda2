import BlockSyntax.Diagnostic
import BlockSyntax.Token.Basic
import BlockSyntax.Token.Gap
import BlockSyntax.Token.Lexeme

/-!
# From bytes to tokens

A scanner stands at a position in a source text and holds the bytes that are still to be
read.  One step first passes over the gap in front of the next token and then reads a
lexeme.  It has one of three results: a token, after which fewer bytes are left; a fault,
which also has a token, of the kind `error`; or the end marker, at the end of the text.

A scanner can be asked again after a fault and after the end.  After a fault it goes on
behind the bytes that were at fault, and at the end it stays there.
-/

set_option autoImplicit false

namespace BlockSyntax

/-! ## Errors -/

/-- A fault and the location of its first byte. -/
structure LexicalError where
  /-- What is wrong. -/
  fault : LexicalFault
  /-- Where it starts. -/
  location : Location
  deriving DecidableEq

/-- The diagnostic that reports a lexical error. -/
def LexicalError.diagnostic (e : LexicalError) : Diagnostic :=
  .error (ascii "B1001") e.fault.message e.location

/-! ## Single steps -/

/-- A place in a source text and the bytes from there on. -/
structure Scanner where
  /-- The file the text is in. -/
  file : FileId
  /-- The position of the next byte. -/
  position : Position
  /-- The bytes still to be read. -/
  rest : Bytes
  deriving DecidableEq

/-- What one step of a scanner with `n` bytes left finds. -/
inductive Scanned (n : Nat) where
  /-- A token that is not at fault. -/
  | token (token : Token) (after : Scanner) (shorter : after.rest.length < n)
  /-- An error token and what is wrong. -/
  | fault (token : Token) (error : LexicalError) (after : Scanner)
  /-- The end marker. -/
  | finish (token : Token) (after : Scanner)

namespace Scanned

variable {n : Nat}

/-- The token of a step, which every result has. -/
def tokenFound : Scanned n → Token
  | token t _ _ | fault t _ _ | finish t _ => t

/-- The scanner behind the token. -/
def after : Scanned n → Scanner
  | token _ s _ | fault _ _ s | finish _ s => s

/-- The error of a step that finds a fault. -/
def error? : Scanned n → Option LexicalError
  | fault _ e _ => some e
  | _ => none

end Scanned

namespace Scanner

/-- The scanner at the start of a text. -/
def ofText (file : FileId) (text : Bytes) : Scanner := ⟨file, .start, text⟩

/-- A position in the scanner's file as a location. -/
def locate (s : Scanner) (p : Position) : Location := ⟨s.file, p.line, p.column⟩

/-- One step: the gap, then the longest lexeme or the end. -/
def next (s : Scanner) : Scanned s.rest.length :=
  match passed : Gap.pass .between s.position s.rest with
  | .unclosed opener final =>
    .fault ⟨.error, [], s.locate final⟩ ⟨.unclosedComment, s.locate opener⟩
      { s with position := final, rest := [] }
  | .closed p [] => .finish ⟨.eof, [], s.locate p⟩ { s with position := p, rest := [] }
  | .closed p (first :: behind) =>
    let found := Lexeme.read first behind
    let after := { s with position := p.advance found.text, rest := found.rest }
    let token : Token := ⟨found.kind, found.text, s.locate p⟩
    match found.fault with
    | some fault => .fault token ⟨fault, s.locate p⟩ after
    | none =>
      .token token after <| by
        have := Gap.length_rest_pass .between s.position s.rest
        rw [passed] at this
        exact Nat.lt_of_lt_of_le (Lexeme.length_rest_read first behind) this

end Scanner

/-! ## Whole texts -/

/-- The tokens up to the first end marker or fault, which is the last of them, with
the error if it is a fault and the scanner behind it. -/
structure Lexed where
  /-- The tokens. -/
  tokens : List Token
  /-- The error of the last token. -/
  error? : Option LexicalError
  /-- The scanner behind the last token. -/
  after : Scanner
  deriving DecidableEq

/-- Takes steps until the end marker or a fault. -/
def Scanner.tokenize (s : Scanner) : Lexed :=
  match s.next with
  | .token t after _ =>
    let following := after.tokenize
    { following with tokens := t :: following.tokens }
  | .fault t e after => ⟨[t], some e, after⟩
  | .finish t after => ⟨[t], none, after⟩
termination_by s.rest.length

namespace Scanner

/-- What the steps of a scanner report until the end marker or a fault. -/
def reports (s : Scanner) : List Diagnostic :=
  match s.next with
  | .token _ after _ => after.reports
  | .fault _ e _ => [e.diagnostic]
  | .finish _ _ => []
termination_by s.rest.length

/-! ## Requests -/

/-- The scanner after a number of steps. -/
def stepped (s : Scanner) : Nat → Scanner
  | 0 => s
  | n + 1 => (s.stepped n).next.after

/-- What a scanner is asked for. -/
inductive Request where
  /-- The next token. -/
  | token
  /-- The tokens up to the next end marker or fault. -/
  | stream
  deriving DecidableEq

/-- What a scanner answers. -/
structure Answer where
  /-- The tokens that are returned. -/
  tokens : List Token
  /-- What is reported meanwhile. -/
  reported : List Diagnostic
  /-- The scanner behind the tokens. -/
  after : Scanner

/-- The answer to a request. -/
def ask (s : Scanner) : Request → Answer
  | .token =>
    ⟨[s.next.tokenFound], (s.next.error?.map LexicalError.diagnostic).toList, s.next.after⟩
  | .stream =>
    ⟨s.tokenize.tokens, (s.tokenize.error?.map LexicalError.diagnostic).toList, s.tokenize.after⟩

/-- The answers to requests that are made one after the other. -/
def answers (s : Scanner) : List Request → List Answer
  | [] => []
  | request :: requests => s.ask request :: (s.ask request).after.answers requests

end Scanner

end BlockSyntax
