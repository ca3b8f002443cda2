import BlockSyntax.Token.Kind

/-!
# Reserved words

Twenty-one words cannot be used as names.  They are kept in a table sorted by
spelling, and a word is looked up by halving the table: the search finds the first
entry that does not come before the word, and the word is reserved when that entry
is spelled like it.  Spellings are compared byte by byte.
-/

set_option autoImplicit false

namespace BlockSyntax

/-! ## Searching a sorted table -/

/-- The first index from `lo` up to `hi` whose entry is not `before` what is looked
for, when the entries that are come first; `hi` when all of them are. -/
def firstNotBefore {α : Type} (before : α → Bool) (table : Array α) (lo hi : Nat)
    (inside : hi ≤ table.size) : Nat :=
  if nonempty : lo < hi then
    have bound : (lo + hi) / 2 < table.size := by omega
    if before table[(lo + hi) / 2] then
      firstNotBefore before table ((lo + hi) / 2 + 1) hi inside
    else
      firstNotBefore before table lo ((lo + hi) / 2) (by omega)
  else lo
termination_by hi - lo

/-! ## The table -/

namespace Reserved

/-- A reserved word and the kind of token it makes. -/
structure Entry where
  /-- The spelling. -/
  word : Bytes
  /-- The kind of the token. -/
  kind : TokenKind
  deriving DecidableEq

/-- The reserved words in ascending order.  The two truth values make the same kind
of token. -/
def table : Array Entry :=
  #[⟨ascii "and", .kwAnd⟩, ⟨ascii "begin", .kwBegin⟩, ⟨ascii "bool", .kwBool⟩,
    ⟨ascii "else", .kwElse⟩, ⟨ascii "end", .kwEnd⟩, ⟨ascii "enum", .kwEnum⟩,
    ⟨ascii "false", .boolLiteral⟩, ⟨ascii "for", .kwFor⟩, ⟨ascii "from", .kwFrom⟩,
    ⟨ascii "function", .kwFunction⟩, ⟨ascii "goes", .kwGoes⟩, ⟨ascii "if", .kwIf⟩,
    ⟨ascii "int", .kwInt⟩, ⟨ascii "not", .kwNot⟩, ⟨ascii "or", .kwOr⟩,
    ⟨ascii "print", .kwPrint⟩, ⟨ascii "read", .kwRead⟩, ⟨ascii "real", .kwReal⟩,
    ⟨ascii "return", .kwReturn⟩, ⟨ascii "to", .kwTo⟩, ⟨ascii "true", .boolLiteral⟩]

/-- The kind of a word, if it is reserved. -/
def kind? (word : Bytes) : Option TokenKind :=
  let i := firstNotBefore (fun e : Entry => e.word < word) table 0 table.size (Nat.le_refl _)
  table[i]?.bind fun e => if e.word = word then some e.kind else none

end Reserved

end BlockSyntax
