import BlockSyntax.Proofs.Seams
import BlockSyntax.Proofs.TokenStream

/-!
# Texts glued at a line feed

The tokens of two texts with a line feed between them are those of the first text without its
end marker and then those of the second on lower lines (`tokenize_glued`).  Nothing that is read
from the first text depends on what follows its line, and when it has been read to its end
without a fault, the scanner is behind the line feed and between comments: only the line of its
position tells that there was a first text (`Scanner.tokenize_thenLine`).

Scanning does not look at lines, so that from a lower line the same is found on lower lines
(`Scanner.tokenize_below`).
-/

set_option autoImplicit false

namespace BlockSyntax

/-! ## On lower lines -/

section Below

variable (lines : Nat)

/-- The same column on a lower line. -/
def Position.below (p : Position) : Position := { p with line := p.line + UInt32.ofNat lines }

/-- The same column on a lower line. -/
def Location.below (l : Location) : Location := { l with line := l.line + UInt32.ofNat lines }

/-- The same token on a lower line. -/
def Token.below (t : Token) : Token := { t with location := t.location.below lines }

/-- The same error on a lower line. -/
def LexicalError.below (e : LexicalError) : LexicalError :=
  { e with location := e.location.below lines }

/-- The same diagnostic on a lower line. -/
def Diagnostic.below (d : Diagnostic) : Diagnostic := { d with location := d.location.below lines }

/-- The same place in a gap on lower lines. -/
def Gap.Place.below : Gap.Place → Gap.Place
  | .between => .between
  | .line => .line
  | .block opener => .block (opener.below lines)

/-- The same gap on lower lines. -/
def Gap.below : Gap → Gap
  | .closed p rest => .closed (p.below lines) rest
  | .unclosed opener p => .unclosed (opener.below lines) (p.below lines)

/-- The same scanner on a lower line. -/
def Scanner.below (s : Scanner) : Scanner := { s with position := s.position.below lines }

/-- The same stream on lower lines. -/
def Lexed.below (l : Lexed) : Lexed :=
  ⟨l.tokens.map (Token.below lines), l.error?.map (LexicalError.below lines), l.after.below lines⟩

end Below

namespace Position

variable {lines : Nat}

theorem step_below (p : Position) (b : UInt8) :
    (p.below lines).step b = (p.step b).below lines := by
  rw [step, step]
  split
  · rw [below, below, UInt32.add_assoc, UInt32.add_comm (UInt32.ofNat lines), UInt32.add_assoc]
  · rfl

theorem advance_below (p : Position) (text : Bytes) :
    (p.below lines).advance text = (p.advance text).below lines := by
  induction text generalizing p with
  | nil => rfl
  | cons b text ih => rw [advance_cons, advance_cons, step_below, ih]

/-- Moving over a text moves down by its line feeds. -/
theorem advance_line (p : Position) (text : Bytes) :
    (p.advance text).line = p.line + UInt32.ofNat (text.count lineFeed) := by
  induction text generalizing p with
  | nil => exact (UInt32.add_zero p.line).symm
  | cons b text ih =>
      rw [advance_cons, ih, step]
      split
      case isTrue feed =>
        rw [feed, List.count_cons_self, UInt32.ofNat_add, UInt32.add_assoc,
          UInt32.add_comm (UInt32.ofNat _)]
        rfl
      case isFalse other => rw [List.count_cons_of_ne other]

/-- Behind a text and a line feed a new line starts. -/
theorem start_advance_lineFeed (text : Bytes) :
    (start.advance text).step lineFeed = start.below (1 + text.count lineFeed) := by
  rw [step, if_pos rfl, advance_line, below, UInt32.ofNat_add, UInt32.add_assoc,
    UInt32.add_comm (UInt32.ofNat _)]
  rfl

end Position

theorem Gap.pass_below {lines : Nat} (place : Place) (p : Position) (text : Bytes) :
    pass (place.below lines) (p.below lines) text = (pass place p text).below lines := by
  fun_induction pass place p text with
  | case1 p text ih =>
      rw [← ih, ← Position.step_below, ← Position.step_below]
      rfl
  | case2 p text ih =>
      rw [← ih, ← Position.step_below, ← Position.step_below]
      rfl
  | case3 p b text noLine noBlock blank ih =>
      rw [← ih, ← Position.step_below]
      exact pass_blank _ text blank
  | case4 p b text noLine noBlock noBlank =>
      show pass .between (p.below lines) (b :: text) = _
      rw [pass, if_neg noBlank]
      · rfl
      · exact noLine
      · exact noBlock
  | case5 p b text ih =>
      rw [← ih, ← Position.step_below]
      show pass _ _ text = pass _ _ text
      split
      case isTrue => rfl
      case isFalse => rfl
  | case6 opener p text ih =>
      rw [← ih, ← Position.step_below, ← Position.step_below]
      rfl
  | case7 opener p b text stays ih =>
      rw [← ih, ← Position.step_below]
      show pass (.block _) _ (b :: text) = _
      rw [pass]
      · rfl
      · exact stays
  | case8 opener p => rfl
  | case9 place p notBlock =>
      cases place with
      | between => rfl
      | line => rfl
      | block opener => exact absurd rfl (notBlock opener)

namespace Scanner

theorem pass_below {lines : Nat} {s : Scanner} {gap : Gap}
    (passed : Gap.pass .between s.position s.rest = gap) :
    Gap.pass .between (s.below lines).position (s.below lines).rest = gap.below lines :=
  passed ▸ Gap.pass_below .between s.position s.rest

theorem behindLexeme_below {lines : Nat} (s : Scanner) (p : Position) (l : Lexeme) :
    (s.below lines).behindLexeme (p.below lines) l = (s.behindLexeme p l).below lines := by
  rw [behindLexeme, Position.advance_below]
  rfl

/-- **Scanning from a lower line finds the same on lower lines.** -/
theorem tokenize_below {lines : Nat} (s : Scanner) :
    (s.below lines).tokenize = s.tokenize.below lines := by
  induction s using lexeme_induction with
  | unclosed s opener p passed =>
      rw [tokenize_of_unclosed passed, tokenize_of_unclosed (pass_below passed)]
      rfl
  | nil s p passed =>
      rw [tokenize_of_nil passed, tokenize_of_nil (pass_below passed)]
      rfl
  | faulty s p first rest l fault passed read faulty =>
      rw [tokenize_of_faulty passed read faulty, tokenize_of_faulty (pass_below passed) read faulty,
        behindLexeme_below]
      rfl
  | sound s p first rest l passed read sound ih =>
      rw [tokenize_of_sound passed read sound, tokenize_of_sound (pass_below passed) read sound,
        behindLexeme_below, ih]
      rfl

/-! ## More text behind a line feed -/

/-- The scanner with a line feed and more text behind its text. -/
def thenLine (more : Bytes) (s : Scanner) : Scanner := { s with rest := s.rest ++ lineFeed :: more }

/-- The scanner at the start of the line behind a text that has been read to its end. -/
def nextLine (more : Bytes) (s : Scanner) : Scanner :=
  ⟨s.file, s.tokenize.after.position.step lineFeed, more⟩

theorem tokenize_ne_nil (s : Scanner) : s.tokenize.tokens ≠ [] := by
  fun_induction tokenize s with
  | case1 => exact List.cons_ne_nil _ _
  | case2 => exact List.cons_ne_nil _ _
  | case3 => exact List.cons_ne_nil _ _

theorem pass_thenLine {more : Bytes} {s : Scanner} {gap : Gap}
    (passed : Gap.pass .between s.position s.rest = gap) :
    Gap.pass .between (s.thenLine more).position (s.thenLine more).rest = gap.thenLine more :=
  passed ▸ Gap.pass_lineFeed .between s.position s.rest more

/-- **A text that is read to its end is read alike in front of a line feed and more text**: its
end marker makes way for the tokens of the text behind it, which is read from the next line. -/
theorem tokenize_thenLine (more : Bytes) (s : Scanner) (sound : s.tokenize.error? = none) :
    (s.thenLine more).tokenize =
      (s.nextLine more).tokenize.withFront s.tokenize.tokens.dropLast := by
  induction s using lexeme_induction with
  | unclosed s opener p passed =>
      rw [tokenize_of_unclosed passed] at sound
      cases sound
  | nil s p passed =>
      rw [nextLine, tokenize_of_nil passed]
      exact tokenize_congr (pass_thenLine passed)
  | faulty s p first rest l fault passed read faulty =>
      rw [tokenize_of_faulty passed read faulty] at sound
      cases sound
  | sound s p first rest l passed read noFault ih =>
      have read' : Lexeme.read first (rest ++ lineFeed :: more) =
          l.followed (lineFeed :: more) := by
        rw [Lexeme.read_blank (by decide), read]
      have whole := tokenize_of_sound passed read noFault
      rw [whole] at sound
      have dropped : s.tokenize.tokens.dropLast =
          s.tokenAt p l :: (s.behindLexeme p l).tokenize.tokens.dropLast := by
        rw [whole]
        exact List.dropLast_cons_of_ne_nil (tokenize_ne_nil _)
      have next : s.nextLine more = (s.behindLexeme p l).nextLine more := by
        rw [nextLine, whole]
        rfl
      rw [tokenize_of_sound (pass_thenLine passed) read' noFault, dropped, next]
      exact congrArg (Lexed.withFront [s.tokenAt p l]) (ih sound)

/-- A scanner that has read a text to its end stands behind it. -/
theorem StandsBehind.position_after {file : FileId} {before : Bytes} {s : Scanner}
    (stands : StandsBehind file before s) (sound : s.tokenize.error? = none) :
    s.tokenize.after.position = Position.start.advance (before ++ s.rest) := by
  revert before
  fun_induction tokenize s with
  | case1 s t after shorter found following ih =>
      intro before stands
      obtain ⟨passed, cut, stands'⟩ := stands.next
      rw [found] at cut stands'
      rw [cut, ← List.append_assoc]
      exact ih sound stands'
  | case2 => cases sound
  | case3 s t after found =>
      intro before stands
      obtain ⟨passed, cut, stands'⟩ := stands.next
      have ended : s.next.tokenFound.kind = .eof := by
        rw [found]
        exact kind_of_finish found
      rw [(next_of_eof ended).2, List.append_nil] at cut
      rw [found] at stands'
      rw [cut]
      exact stands'.position

end Scanner

/-! ## Two texts -/

/-- Lines are added up as long as they do not wrap. -/
theorem Location.toNat_below {lines : Nat} {l : Location}
    (fits : l.line.toNat + lines < UInt32.size) :
    (l.below lines).line.toNat = l.line.toNat + lines := by
  have small : lines < UInt32.size := by omega
  rw [below, UInt32.toNat_add, UInt32.toNat_ofNat_of_lt' small]
  exact Nat.mod_eq_of_lt fits

/-- The line behind a short text is one of its lines. -/
theorem Scanner.toNat_line_le {file : FileId} {front rest text : Bytes} {l : Location}
    (short : text.length + 1 < UInt32.size) (parts : text = front ++ rest)
    (located : l = (ofText file []).locateBehind front) : l.line.toNat ≤ 1 + text.length := by
  have total := congrArg List.length parts
  rw [List.length_append] at total
  have behind : Location.Behind file front ((ofText file []).locateBehind front) :=
    locateBehind_behind (by omega)
  have counts : ((ofText file []).locateBehind front).line.toNat = 1 + front.count lineFeed :=
    behind.counts.line
  have count := List.count_le_length (a := lineFeed) (l := front)
  rw [located]
  omega

namespace Scanner

/-- A text whose stream ends with an end marker is read without a fault. -/
theorem sound_of_eof {s : Scanner} {front : List Token} {marker : Token}
    (ended : s.tokenize.tokens = front ++ [marker]) (eof : marker.kind = .eof) :
    s.tokenize.error? = none := by
  have ends := s.tokenize_ends
  cases error : s.tokenize.error? with
  | none => rfl
  | some e =>
      rw [error] at ends
      have inside : marker ∈ s.tokenize.tokens := by simp [ended]
      exact absurd eof (ends.without marker inside)

/-- **Texts on lines of their own are scanned one after the other.**  Let a text that is scanned
to its end marker be followed by a line feed and any other text, both so short that no line
wraps.  The tokens are those of the first text without the end marker and then those of the
second, and what is reported is what is reported for the second; these are on lines that are
lower by one and by the line feeds of the first text, and in the same columns. -/
theorem tokenize_glued (file : FileId) {first second : Bytes} {front : List Token} {marker : Token}
    (short : first.length + second.length < UInt32.size - 2)
    (ended : (ofText file first).tokenize.tokens = front ++ [marker]) (eof : marker.kind = .eof) :
    let lines := 1 + first.count lineFeed
    let alone := ofText file second
    let glued := ofText file (first ++ lineFeed :: second)
    glued.tokenize.tokens = front ++ alone.tokenize.tokens.map (Token.below lines) ∧
      glued.reports = alone.reports.map (Diagnostic.below lines) ∧
      (∀ t ∈ alone.tokenize.tokens,
        (t.below lines).location.line.toNat = t.location.line.toNat + lines) ∧
      (∀ d ∈ alone.reports,
        (d.below lines).location.line.toNat = d.location.line.toNat + lines) := by
  intro lines alone glued
  have sound := sound_of_eof ended eof
  have stands : StandsBehind file [] (ofText file first) := ⟨rfl, rfl⟩
  have standsAlone : StandsBehind file [] alone := ⟨rfl, rfl⟩
  have size : UInt32.size = 4294967296 := rfl
  have feeds := List.count_le_length (a := lineFeed) (l := first)
  have next : (ofText file first).nextLine second = alone.below lines := by
    rw [nextLine, stands.position_after sound, List.nil_append, Position.start_advance_lineFeed]
    rfl
  have whole : glued.tokenize = (alone.tokenize.below lines).withFront front := by
    have read := tokenize_thenLine second (ofText file first) sound
    rw [next, tokenize_below, ended, List.dropLast_concat] at read
    exact read
  have fits : ∀ {l : Location} {front rest : Bytes}, second = front ++ rest →
      l = (ofText file []).locateBehind front →
        (l.below lines).line.toNat = l.line.toNat + lines := by
    intro l front rest parts located
    have low := toNat_line_le (by omega) parts located
    exact Location.toNat_below (by omega)
  refine ⟨?tokens, ?reports, ?tokensFit, ?reportsFit⟩
  case tokens => rw [whole]; rfl
  case reports =>
    have error : ((alone.tokenize.below lines).withFront front).error? =
        alone.tokenize.error?.map (LexicalError.below lines) := rfl
    rw [reports_eq, reports_eq, whole, error]
    cases alone.tokenize.error? with
    | none => rfl
    | some e => rfl
  case tokensFit =>
    intro t inside
    obtain ⟨front, rest, parts, located, _⟩ := standsAlone.token inside
    exact fits parts located
  case reportsFit =>
    intro d inside
    rw [reports_eq] at inside
    obtain ⟨e, error, rfl⟩ : ∃ e, alone.tokenize.error? = some e ∧ e.diagnostic = d := by
      simpa using inside
    obtain ⟨front, rest, parts, _, located⟩ := standsAlone.fault error
    exact fits parts located

/-- A number with a comment behind it, and a mark with a comment that is not closed. -/
theorem tokenize_glued_comments :
    (ofText 3 (ascii "7 // /*" ++ lineFeed :: ascii "= /*")).tokenize.tokens =
        [⟨.intLiteral, ascii "7", ⟨3, 1, 1⟩⟩, ⟨.equal, ascii "=", ⟨3, 2, 1⟩⟩,
          ⟨.error, [], ⟨3, 2, 5⟩⟩] ∧
      (ofText 3 (ascii "7 // /*" ++ lineFeed :: ascii "= /*")).reports =
        [LexicalError.diagnostic ⟨.unclosedComment, ⟨3, 2, 3⟩⟩] := by
  have ended : (ofText 3 (ascii "7 // /*")).tokenize.tokens =
      [⟨.intLiteral, ascii "7", ⟨3, 1, 1⟩⟩] ++ [⟨.eof, [], ⟨3, 1, 8⟩⟩] := by
    rw [tokenize_token rfl, tokenize_finish rfl]
    rfl
  have alone : (ofText 3 (ascii "= /*")).tokenize =
      ⟨[⟨.equal, ascii "=", ⟨3, 1, 1⟩⟩, ⟨.error, [], ⟨3, 1, 5⟩⟩],
        some ⟨.unclosedComment, ⟨3, 1, 3⟩⟩, ⟨3, ⟨1, 5⟩, []⟩⟩ := by
    rw [tokenize_of_sound rfl rfl rfl, tokenize_of_unclosed rfl]
    rfl
  have short : (ascii "7 // /*").length + (ascii "= /*").length < UInt32.size - 2 := by decide
  obtain ⟨tokens, reports, _⟩ := tokenize_glued 3 short ended rfl
  rw [reports_eq (ofText 3 (ascii "= /*"))] at reports
  rw [alone] at tokens reports
  exact ⟨tokens, reports⟩

end Scanner

end BlockSyntax
