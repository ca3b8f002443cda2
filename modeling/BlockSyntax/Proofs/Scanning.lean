import BlockSyntax.Proofs.Lexemes
import BlockSyntax.Proofs.Positions
import BlockSyntax.Token.Scanner

/-!
# What one step of a scanner finds

A step passes over the longest gap in front of what is left and then finds one of four things:
the end of the text, a block comment that is not closed, a token, or a lexeme at fault
(`Scanner.Finds`).  The lexeme is the longest that is there, and its kind, its bytes, its
location and the position behind it are those of that match: this holds for every scanner
(`Scanner.next_finds`), whatever the bytes are.

The scanners reached from the start of a text by taking steps are places in that text: what a
scanner has left is the end of the text, and its position is that behind the rest of it
(`Scanner.stepped_inside`).
-/

set_option autoImplicit false

namespace BlockSyntax

open Lexeme

namespace Scanner

/-! ## Single steps -/

/-- The scanner behind some bytes, with the given ones left. -/
def behind (s : Scanner) (passed rest : Bytes) : Scanner :=
  ⟨s.file, s.position.advance passed, rest⟩

/-- The location of the byte behind some bytes. -/
def locateBehind (s : Scanner) (passed : Bytes) : Location :=
  s.locate (s.position.advance passed)

/-- What a step finds when the given gap is in front of the given bytes. -/
inductive Finds (s : Scanner) (gap : Bytes) : Bytes → Scanned s.rest.length → Prop where
  /-- Nothing remains. -/
  | finish : Finds s gap [] (.finish ⟨.eof, [], s.locateBehind gap⟩ (s.behind gap []))
  /-- A block comment is not closed.  Its token is empty and stands at the end of the text. -/
  | unclosed {comment : Bytes} (unclosed : Gap.Unclosed comment) :
      Finds s gap comment
        (.fault ⟨.error, [], s.locateBehind (gap ++ comment)⟩
          ⟨.unclosedComment, s.locateBehind gap⟩ (s.behind (gap ++ comment) []))
  /-- The longest lexeme is not at fault. -/
  | token {lexeme rest : Bytes} {kind : TokenKind} (closed : ¬ Gap.Unclosed (lexeme ++ rest))
      (longest : LongestMatch (lexeme ++ rest) lexeme kind) (sound : kind ≠ .error)
      (shorter : (s.behind (gap ++ lexeme) rest).rest.length < s.rest.length) :
      Finds s gap (lexeme ++ rest)
        (.token ⟨kind, lexeme, s.locateBehind gap⟩ (s.behind (gap ++ lexeme) rest) shorter)
  /-- The longest lexeme is at fault. -/
  | fault {lexeme rest : Bytes} {fault : LexicalFault}
      (closed : ¬ Gap.Unclosed (lexeme ++ rest))
      (longest : LongestMatch (lexeme ++ rest) lexeme .error) (faulty : Faulty lexeme fault) :
      Finds s gap (lexeme ++ rest)
        (.fault ⟨.error, lexeme, s.locateBehind gap⟩ ⟨fault, s.locateBehind gap⟩
          (s.behind (gap ++ lexeme) rest))

/-! ### The step by what is behind the gap -/

section Steps

variable {s : Scanner} {p opener : Position} {first : UInt8} {rest : Bytes}

theorem next_of_unclosed (passed : Gap.pass .between s.position s.rest = .unclosed opener p) :
    s.next =
      .fault ⟨.error, [], s.locate p⟩ ⟨.unclosedComment, s.locate opener⟩ ⟨s.file, p, []⟩ := by
  rw [next]
  split <;> rename_i found <;> cases passed.symm.trans found
  rfl

theorem next_of_nil (passed : Gap.pass .between s.position s.rest = .closed p []) :
    s.next = .finish ⟨.eof, [], s.locate p⟩ ⟨s.file, p, []⟩ := by
  rw [next]
  split <;> rename_i found <;> cases passed.symm.trans found
  rfl

theorem next_of_sound (passed : Gap.pass .between s.position s.rest = .closed p (first :: rest))
    (sound : (read first rest).fault = none) :
    ∃ shorter, s.next = .token ⟨(read first rest).kind, (read first rest).text, s.locate p⟩
      ⟨s.file, p.advance (read first rest).text, (read first rest).rest⟩ shorter := by
  rw [next]
  split <;> rename_i found <;> cases passed.symm.trans found
  dsimp only
  split
  · rename_i faulty
    rw [sound] at faulty
    cases faulty
  · have within := Gap.length_rest_pass .between s.position s.rest
    rw [passed] at within
    exact ⟨Nat.lt_of_lt_of_le (length_rest_read first rest) within, rfl⟩

theorem next_of_faulty {fault : LexicalFault}
    (passed : Gap.pass .between s.position s.rest = .closed p (first :: rest))
    (faulty : (read first rest).fault = some fault) :
    s.next = .fault ⟨(read first rest).kind, (read first rest).text, s.locate p⟩
      ⟨fault, s.locate p⟩ ⟨s.file, p.advance (read first rest).text, (read first rest).rest⟩ := by
  rw [next]
  split <;> rename_i found <;> cases passed.symm.trans found
  dsimp only
  split
  · rename_i faulty'
    cases faulty.symm.trans faulty'
    rfl
  · rename_i sound
    cases faulty.symm.trans sound

end Steps

/-- **A step finds what is behind the longest gap**, and if that is a lexeme, the longest. -/
theorem next_finds (s : Scanner) :
    ∃ gap behind, Gap.Split s.rest gap behind ∧ Finds s gap behind s.next := by
  obtain ⟨gap, behind, split⟩ := Gap.exists_split s.rest
  refine ⟨gap, behind, split, ?_⟩
  by_cases unclosed : Gap.Unclosed behind
  · rw [next_of_unclosed (split.pass_unclosed unclosed s.position)]
    exact .unclosed unclosed
  · have passed := split.pass_closed unclosed s.position
    cases behind with
    | nil =>
        rw [next_of_nil passed]
        exact .finish
    | cons first rest =>
        have longest := read_longest first rest
        have cut := read_append first rest
        rcases read_fault_cases first rest with ⟨none, sound⟩ | ⟨fault, some, kind, faulty⟩
        · obtain ⟨shorter, found⟩ := next_of_sound passed none
          rw [found]
          generalize read first rest = l at *
          rw [← cut] at longest unclosed ⊢
          rw [← Position.advance_append] at shorter ⊢
          exact .token unclosed longest sound shorter
        · rw [next_of_faulty passed some]
          generalize read first rest = l at *
          rw [← cut] at longest unclosed ⊢
          rw [kind] at longest ⊢
          rw [← Position.advance_append]
          exact .fault unclosed longest faulty

namespace Finds

variable {s : Scanner} {gap behind : Bytes} {found : Scanned s.rest.length}

/-- The end marker is found exactly when nothing remains. -/
theorem eof_iff (finds : Finds s gap behind found) :
    found.tokenFound.kind = .eof ↔ behind = [] := by
  cases finds with
  | finish => exact iff_of_true rfl rfl
  | unclosed unclosed =>
      obtain ⟨body, rfl, _⟩ := unclosed
      exact iff_of_false nofun (List.cons_ne_nil _ _)
  | token _ longest =>
      exact iff_of_false longest.isLexeme.kind_ne_eof
        (List.append_ne_nil_of_left_ne_nil longest.isLexeme.ne_nil _)
  | fault _ longest =>
      exact iff_of_false nofun (List.append_ne_nil_of_left_ne_nil longest.isLexeme.ne_nil _)

/-- An error without bytes is found exactly when a block comment is not closed. -/
theorem unclosed_iff (finds : Finds s gap behind found) :
    (found.tokenFound.kind = .error ∧ found.tokenFound.lexeme = []) ↔ Gap.Unclosed behind := by
  cases finds with
  | finish =>
      refine iff_of_false nofun ?_
      intro unclosed
      obtain ⟨_, impossible, _⟩ := unclosed
      cases impossible
  | unclosed unclosed => exact iff_of_true ⟨rfl, rfl⟩ unclosed
  | token closed longest => exact iff_of_false (fun empty => longest.isLexeme.ne_nil empty.2) closed
  | fault closed longest => exact iff_of_false (fun empty => longest.isLexeme.ne_nil empty.2) closed

/-- The scanner behind is further on in the same text. -/
theorem after_eq (finds : Finds s gap behind found) :
    ∃ passed, gap ++ behind = passed ++ found.after.rest ∧
      found.after = s.behind passed found.after.rest := by
  cases finds with
  | finish => exact ⟨gap, rfl, rfl⟩
  | unclosed _ => exact ⟨_, (List.append_nil _).symm, rfl⟩
  | token => exact ⟨_, (List.append_assoc ..).symm, rfl⟩
  | fault => exact ⟨_, (List.append_assoc ..).symm, rfl⟩

end Finds

/-! ## Steps from the start of a text -/

/-- The scanner stands behind the given bytes of the file. -/
structure StandsBehind (file : FileId) (before : Bytes) (s : Scanner) : Prop where
  /-- It is in the file. -/
  inFile : s.file = file
  /-- Its position is that of the byte behind the given ones. -/
  position : s.position = Position.start.advance before

theorem StandsBehind.behind {file : FileId} {before : Bytes} {s : Scanner}
    (stands : StandsBehind file before s) (passed rest : Bytes) :
    StandsBehind file (before ++ passed) (s.behind passed rest) := by
  refine ⟨stands.inFile, ?_⟩
  rw [Position.advance_append, ← stands.position]
  rfl

/-- **One step** takes some bytes from the front of those left and stands behind them. -/
theorem StandsBehind.next {file : FileId} {before : Bytes} {s : Scanner}
    (stands : StandsBehind file before s) :
    ∃ passed, s.rest = passed ++ s.next.after.rest ∧
      StandsBehind file (before ++ passed) s.next.after := by
  obtain ⟨gap, behind, split, finds⟩ := s.next_finds
  obtain ⟨passed, cut, after⟩ := finds.after_eq
  refine ⟨passed, split.parts.trans cut, ?_⟩
  rw [after]
  exact stands.behind passed _

/-- **Every scanner that is reached stands at a place in the text**, behind some of its bytes
and with the others left. -/
theorem stepped_stands (file : FileId) (text : Bytes) (n : Nat) :
    ∃ before, text = before ++ ((ofText file text).stepped n).rest ∧
      StandsBehind file before ((ofText file text).stepped n) := by
  induction n with
  | zero => exact ⟨[], rfl, rfl, rfl⟩
  | succ n ih =>
      obtain ⟨before, parts, stands⟩ := ih
      rw [stepped]
      obtain ⟨passed, cut, stands'⟩ := stands.next
      refine ⟨before ++ passed, ?_, stands'⟩
      rw [List.append_assoc, ← cut]
      exact parts

/-- **Scanning is longest match.**  A scanner that is reached by any number of steps stands at
a place in the text.  Its next step passes over the longest gap there is.  Behind it the step
finds the end marker exactly when nothing remains, an empty error exactly when a block comment
is not closed, and otherwise the longest lexeme. -/
theorem stepped_finds (file : FileId) (text : Bytes) (n : Nat) :
    let s := (ofText file text).stepped n
    ∃ before gap behind, text = before ++ s.rest ∧ StandsBehind file before s ∧
      Gap.Split s.rest gap behind ∧ Finds s gap behind s.next ∧
      (s.next.tokenFound.kind = .eof ↔ behind = []) ∧
      (s.next.tokenFound.kind = .error ∧ s.next.tokenFound.lexeme = [] ↔
        Gap.Unclosed behind) := by
  intro s
  obtain ⟨before, parts, stands⟩ := stepped_stands file text n
  obtain ⟨gap, behind, split, finds⟩ := s.next_finds
  exact ⟨before, gap, behind, parts, stands, split, finds, finds.eof_iff, finds.unclosed_iff⟩

end Scanner

end BlockSyntax
