import BlockSyntax.Proofs.Scanning

/-!
# Tokens cover their text

Scanning loses nothing.  A text is spread over gaps and the lexemes of its tokens, one behind
the other, and each token is located at its first byte (`Spread`).  The stream ends in one of
three ways: at the end of the text with the end marker, behind a lexeme at fault, or with an
empty error at the end of the text when the last gap runs into a block comment that is not
closed.

**Every text is spread over its tokens** (`tokenize_spreads`), and no line or column wraps on
the way as long as the text is shorter than the greatest word.
-/

set_option autoImplicit false

namespace BlockSyntax

/-- The text behind the given bytes of the file is spread over gaps and tokens. -/
inductive Spread (file : FileId) : Bytes → Bytes → List Token → Prop where
  /-- A gap and the lexeme of a token, and more behind it. -/
  | token {before gap rest : Bytes} {t : Token} {tokens : List Token}
      (fills : Gap.Fills gap (t.lexeme ++ rest)) (nonempty : t.lexeme ≠ [])
      (goesOn : t.kind ≠ .eof ∧ t.kind ≠ .error)
      (place : Location.Behind file (before ++ gap) t.location)
      (more : Spread file (before ++ (gap ++ t.lexeme)) rest tokens) :
      Spread file before (gap ++ (t.lexeme ++ rest)) (t :: tokens)
  /-- A gap and a lexeme at fault, which ends the stream. -/
  | fault {before gap rest : Bytes} {t : Token} (fills : Gap.Fills gap (t.lexeme ++ rest))
      (nonempty : t.lexeme ≠ []) (error : t.kind = .error)
      (place : Location.Behind file (before ++ gap) t.location) :
      Spread file before (gap ++ (t.lexeme ++ rest)) [t]
  /-- A gap and a block comment that is not closed.  The error is at the end of the text. -/
  | unclosed {before gap comment : Bytes} {t : Token} (fills : Gap.Fills gap comment)
      (unclosed : Gap.Unclosed comment) (empty : t.lexeme = []) (error : t.kind = .error)
      (place : Location.Behind file (before ++ (gap ++ comment)) t.location) :
      Spread file before (gap ++ comment) [t]
  /-- A gap and the end of the text. -/
  | finish {before gap : Bytes} {t : Token} (fills : Gap.Fills gap []) (empty : t.lexeme = [])
      (ended : t.kind = .eof) (place : Location.Behind file (before ++ gap) t.location) :
      Spread file before gap [t]

namespace Scanner

/-- A scanner locates what it finds, as long as the text is shorter than the greatest word. -/
theorem StandsBehind.locateBehind {file : FileId} {before : Bytes} {s : Scanner}
    (stands : StandsBehind file before s) {passed : Bytes}
    (fits : (before ++ passed).length + 1 < UInt32.size) :
    Location.Behind file (before ++ passed) (s.locateBehind passed) := by
  refine ⟨stands.inFile, ?_⟩
  have counts := Position.start_counts fits
  rw [Position.advance_append, ← stands.position] at counts
  exact counts

/-! ## The tokens by the first step -/

section Tokenize

variable {s after : Scanner} {t : Token}

theorem tokenize_token {shorter} (found : s.next = .token t after shorter) :
    s.tokenize.tokens = t :: after.tokenize.tokens := by
  rw [tokenize, found]

theorem tokenize_fault {error : LexicalError} (found : s.next = .fault t error after) :
    s.tokenize.tokens = [t] := by
  rw [tokenize, found]

theorem tokenize_finish (found : s.next = .finish t after) : s.tokenize.tokens = [t] := by
  rw [tokenize, found]

end Tokenize

/-- What a scanner has left is spread over the tokens it makes of it. -/
theorem StandsBehind.spread {file : FileId} {before : Bytes} {s : Scanner}
    (stands : StandsBehind file before s)
    (fits : (before ++ s.rest).length + 1 < UInt32.size) :
    Spread file before s.rest s.tokenize.tokens := by
  induction hn : s.rest.length using Nat.strongRecOn generalizing s before with
  | ind n ih =>
      obtain ⟨gap, behind, split, finds⟩ := s.next_finds
      generalize hnext : s.next = found at finds
      have parts : before ++ s.rest = before ++ gap ++ behind := by
        rw [split.parts, List.append_assoc]
      have gapFits : (before ++ gap).length + 1 < UInt32.size := by
        rw [parts, List.length_append] at fits
        omega
      cases finds with
      | finish =>
          rw [tokenize_finish hnext, split.parts, List.append_nil]
          exact .finish split.fills rfl rfl (stands.locateBehind gapFits)
      | unclosed unclosed =>
          rw [tokenize_fault hnext, split.parts]
          refine .unclosed split.fills unclosed rfl rfl (stands.locateBehind ?_)
          rwa [← split.parts]
      | @fault lexeme rest _ _ longest =>
          let t : Token := ⟨.error, lexeme, s.locateBehind gap⟩
          have place : Location.Behind file (before ++ gap) t.location :=
            stands.locateBehind gapFits
          rw [tokenize_fault hnext, split.parts]
          exact .fault (t := t) split.fills longest.isLexeme.ne_nil rfl place
      | @token lexeme rest kind _ longest sound shorter =>
          let t : Token := ⟨kind, lexeme, s.locateBehind gap⟩
          have place : Location.Behind file (before ++ gap) t.location :=
            stands.locateBehind gapFits
          have fits' : (before ++ (gap ++ lexeme) ++ rest).length + 1 < UInt32.size := by
            rw [parts] at fits
            simpa using fits
          have following : Spread file (before ++ (gap ++ t.lexeme)) rest
              (s.behind (gap ++ lexeme) rest).tokenize.tokens :=
            ih rest.length (hn ▸ shorter) (stands.behind (gap ++ lexeme) rest) fits' rfl
          rw [tokenize_token hnext, split.parts]
          exact .token (t := t) split.fills longest.isLexeme.ne_nil
            ⟨longest.isLexeme.kind_ne_eof, sound⟩ place following

end Scanner

/-- **A text is spread over its tokens**: they come in order and do not overlap, only gaps are
between them, and they are located where they are.  No line and no column wraps. -/
theorem tokenize_spreads (file : FileId) (text : Bytes) (short : text.length < UInt32.size - 1) :
    Spread file [] text (Scanner.ofText file text).tokenize.tokens ∧
      ∀ front, front <+: text → Position.Counts front (Position.start.advance front) := by
  have fits : text.length + 1 < UInt32.size := by omega
  have start : Scanner.StandsBehind file [] (Scanner.ofText file text) := ⟨rfl, rfl⟩
  refine ⟨start.spread fits, ?_⟩
  intro front inFront
  exact Position.start_counts (Nat.lt_of_le_of_lt (Nat.succ_le_succ inFront.length_le) fits)

/-- A number, a line feed and a block comment that is not closed. -/
theorem tokenize_spreads_unclosed :
    (ascii "7\n /*").length < UInt32.size - 1 ∧
      Spread 3 [] (ascii "7\n /*")
        [⟨.intLiteral, ascii "7", ⟨3, 1, 1⟩⟩, ⟨.error, [], ⟨3, 2, 4⟩⟩] ∧
      ∀ front, front <+: ascii "7\n /*" →
        Position.Counts front (Position.start.advance front) := by
  have short : (ascii "7\n /*").length < UInt32.size - 1 := by decide
  have tokens : (Scanner.ofText 3 (ascii "7\n /*")).tokenize.tokens =
      [⟨.intLiteral, ascii "7", ⟨3, 1, 1⟩⟩, ⟨.error, [], ⟨3, 2, 4⟩⟩] := by
    rw [Scanner.tokenize_token rfl, Scanner.tokenize_fault rfl]
    rfl
  exact ⟨short, tokens ▸ tokenize_spreads 3 (ascii "7\n /*") short⟩

end BlockSyntax
