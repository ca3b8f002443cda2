import BlockSyntax.Proofs.Endings
import BlockSyntax.Proofs.Seams

/-!
# Lexemes between separators

A list of legal lexemes is laid out as a text by putting separators between them: blanks, line
comments with the line feed that ends them, and closed block comments, in any number and order
(`Separator`).  A separator that starts with a blank keeps two lexemes apart whatever they are
(`Spaced`): an operator and a slash in front of it would otherwise be one lexeme with what comes
next, or open a comment.

**Scanning such a text finds the lexemes it was laid out from** (`Scanner.tokenize_spaced`).  What
carries this from one lexeme to the next is that a lexeme with a blank or nothing behind it is
read to its end and no further (`Spelled.read_lexeme`), and that no gap is in front of it
(`Spelled.pass_lexeme`); what the comments say is never looked at.
-/

set_option autoImplicit false

namespace BlockSyntax

/-! ## Separators -/

instance : DecidablePred Gap.Open := fun text =>
  inferInstanceAs (Decidable (¬ [star, slash] <:+: text))

/-- Blanks and comments that are a gap whatever comes behind them. -/
inductive Separator : Bytes → Prop where
  | nil : Separator []
  | blank {b : UInt8} {gap : Bytes} (blank : Character.isBlank b) (more : Separator gap) :
      Separator (b :: gap)
  /-- A line comment and the line feed that ends it. -/
  | line {body gap : Bytes} (inside : lineFeed ∉ body) (more : Separator gap) :
      Separator (slash :: slash :: (body ++ lineFeed :: gap))
  /-- A block comment, up to the first star with a slash behind it. -/
  | block {body gap : Bytes} (closes : Gap.Open (body ++ [star])) (more : Separator gap) :
      Separator (slash :: star :: (body ++ star :: slash :: gap))

theorem Separator.fills {gap : Bytes} (separator : Separator gap) (rest : Bytes) :
    Gap.Fills gap rest := by
  induction separator with
  | nil => exact .nil
  | blank blank _ ih => exact .blank blank ih
  | line inside _ ih =>
      -- the comment is at the end of its line, and the line feed is a blank behind it
      refine .line inside ?_ (.blank (by decide) ih)
      intro b first
      exact (Option.some.inj first).symm
  | block closes _ ih => exact .block closes ih

/-! ## Legal lexemes -/

/-- A legal spelling of a kind of token: the spelling of a reserved word or of a mark, a name that
is not reserved, a number, or a truth value. -/
structure Spelled where
  /-- The kind of token. -/
  kind : TokenKind
  /-- Its bytes. -/
  lexeme : Bytes
  /-- The bytes are a lexeme of the kind. -/
  isLexeme : Lexeme.Matches lexeme kind
  /-- It is not at fault. -/
  sound : kind ≠ .error

/-- A text starts with a blank, or nothing is there. -/
def StartsBlank (text : Bytes) : Prop := ∀ b ∈ text.head?, Character.isBlank b

theorem startsBlank_cons {b : UInt8} (blank : Character.isBlank b) (text : Bytes) :
    StartsBlank (b :: text) := by
  intro c first
  exact Option.some.inj first ▸ blank

namespace Lexeme

variable {lexeme : Bytes} {kind : TokenKind} {b : UInt8}

/-- No legal lexeme starts with a blank, ... -/
theorem Matches.not_isBlank (isLexeme : Matches lexeme kind) (sound : kind ≠ .error)
    (first : b ∈ lexeme.head?) : ¬ Character.isBlank b := by
  intro blank
  have noWord : ¬ Character.startsWord b := by
    intro starts
    refine Character.not_continuesWord_of_isBlank blank ?_
    rw [Character.continuesWord, starts, Bool.true_or]
  have noDigit := Character.not_isDigit_of_isBlank blank
  rcases isLexeme.of_other first noWord noDigit with ⟨listed, rfl⟩ | ⟨_, rfl, _⟩
  · exact (Character.not_mem_mark_of_isBlank blank).2 kind listed (List.mem_of_mem_head? first)
  · exact sound rfl

/-- ... and the only one that starts with a slash is the slash. -/
theorem Matches.eq_slash (isLexeme : Matches lexeme kind)
    (first : slash ∈ lexeme.head?) : lexeme = [slash] := by
  rcases isLexeme.of_other first (by decide) (by decide) with ⟨listed, rfl⟩ | ⟨alone, _, _⟩
  · have all : ∀ k ∈ marks, slash ∈ k.spelling.head? → k.spelling = [slash] := by decide
    exact all kind listed first
  · exact alone

end Lexeme

namespace Spelled

variable (word : Spelled)

theorem exists_cons : ∃ first behind, word.lexeme = first :: behind :=
  List.exists_cons_of_ne_nil word.isLexeme.ne_nil

/-- A legal lexeme is the lexeme read from its own bytes. -/
theorem read_alone {first : UInt8} {behind : Bytes} (parts : word.lexeme = first :: behind) :
    Lexeme.read first behind = ⟨word.kind, word.lexeme, [], none⟩ := by
  have longest := Lexeme.read_longest first behind
  have cut := Lexeme.read_append first behind
  have faults := Lexeme.read_fault_cases first behind
  generalize Lexeme.read first behind = l at *
  rw [← parts] at longest cut
  have whole : word.lexeme = l.text ∧ word.kind = l.kind := by
    rcases longest.longest _ _ word.isLexeme (List.prefix_refl _) with shorter | same
    · exact absurd longest.inFront.length_le (Nat.not_le_of_lt shorter)
    · exact same
  have empty : l.rest = [] := by
    rw [← whole.1] at cut
    exact List.append_right_eq_self.mp cut
  have sound : l.fault = none := by
    rcases faults with ⟨none, _⟩ | ⟨_, _, error, _⟩
    · exact none
    · exact absurd (whole.2.trans error) word.sound
  rw [whole.1, whole.2, ← empty, ← sound]

/-- **A legal lexeme is read to its end and no further** in front of a blank. -/
theorem read_lexeme {first : UInt8} {behind rest : Bytes} (parts : word.lexeme = first :: behind)
    (stops : StartsBlank rest) :
    Lexeme.read first (behind ++ rest) = ⟨word.kind, word.lexeme, rest, none⟩ := by
  cases rest with
  | nil => rw [List.append_nil, word.read_alone parts]
  | cons b more =>
      rw [Lexeme.read_blank (stops b rfl), word.read_alone parts]
      rfl

/-- **No gap is in front of a legal lexeme.** -/
theorem pass_lexeme {rest : Bytes} (stops : StartsBlank rest) (p : Position) :
    Gap.pass .between p (word.lexeme ++ rest) = .closed p (word.lexeme ++ rest) := by
  obtain ⟨first, behind, parts⟩ := word.exists_cons
  have head : first ∈ word.lexeme.head? := by
    rw [parts]
    rfl
  rw [parts, List.cons_append, Gap.pass_between,
    if_neg (word.isLexeme.not_isBlank word.sound head)]
  -- a slash is the whole lexeme, and what is behind it is no second byte of an opener
  rintro ⟨rfl, second⟩
  have alone := word.isLexeme.eq_slash head
  rw [parts] at alone
  obtain ⟨_, rfl⟩ := List.cons.inj alone
  rcases second with slashes | star
  · exact absurd (stops _ slashes) (by decide)
  · exact absurd (stops _ star) (by decide)

end Spelled

/-! ## Texts with separators -/

/-- The text is the lexemes with a separator behind each of them that starts with a blank; behind
the last one there may be nothing. -/
inductive Spaced : List Spelled → Bytes → Prop where
  | nil : Spaced [] []
  | last (word : Spelled) : Spaced [word] word.lexeme
  | more (word : Spelled) {words : List Spelled} {b : UInt8} {gap text : Bytes}
      (blank : Character.isBlank b) (separator : Separator (b :: gap))
      (following : Spaced words text) : Spaced (word :: words) (word.lexeme ++ (b :: gap ++ text))

namespace Scanner

/-- Scanning finds just the given lexemes and then the end of the text. -/
structure Reads (s : Scanner) (words : List Spelled) : Prop where
  /-- The kinds and bytes of the tokens. -/
  tokens : s.tokenize.tokens.map (fun t => (t.kind, t.lexeme)) =
    words.map (fun word => (word.kind, word.lexeme)) ++ [(.eof, [])]
  /-- Nothing is at fault. -/
  sound : s.tokenize.error? = none

variable {file : FileId}

theorem reads_nil (p : Position) : Reads ⟨file, p, []⟩ [] := by
  have whole := tokenize_of_nil (s := ⟨file, p, []⟩) (p := p) rfl
  exact ⟨by rw [whole]; rfl, by rw [whole]⟩

/-- A lexeme in front of a blank is found in front of what is found behind it. -/
theorem Reads.cons {p : Position} {word : Spelled} {words : List Spelled} {rest : Bytes}
    (stops : StartsBlank rest) (behind : Reads ⟨file, p.advance word.lexeme, rest⟩ words) :
    Reads ⟨file, p, word.lexeme ++ rest⟩ (word :: words) := by
  have passed := word.pass_lexeme stops p
  obtain ⟨first, others, parts⟩ := word.exists_cons
  have read := word.read_lexeme parts stops
  have text : word.lexeme ++ rest = first :: (others ++ rest) := by rw [parts, List.cons_append]
  rw [text] at passed ⊢
  have whole := tokenize_of_sound (s := ⟨file, p, first :: (others ++ rest)⟩) passed read rfl
  constructor
  case tokens =>
    rw [whole]
    exact congrArg ((word.kind, word.lexeme) :: ·) behind.tokens
  case sound =>
    rw [whole]
    exact behind.sound

/-- A separator in front of a text changes nothing of what is found. -/
theorem Reads.separated {p : Position} {words : List Spelled} {gap text : Bytes}
    (separator : Separator gap) (behind : Reads ⟨file, p.advance gap, text⟩ words) :
    Reads ⟨file, p, gap ++ text⟩ words := by
  have same : (⟨file, p, gap ++ text⟩ : Scanner).tokenize =
      (⟨file, p.advance gap, text⟩ : Scanner).tokenize :=
    tokenize_congr ((separator.fills text).pass_append p)
  exact ⟨by rw [same]; exact behind.tokens, by rw [same]; exact behind.sound⟩

theorem reads_spaced {words : List Spelled} {text : Bytes} (spaced : Spaced words text)
    (p : Position) : Reads ⟨file, p, text⟩ words := by
  induction spaced generalizing p with
  | nil => exact reads_nil p
  | last word =>
      have found : Reads ⟨file, p, word.lexeme ++ []⟩ [word] := .cons nofun (reads_nil _)
      rwa [List.append_nil] at found
  | more word blank separator _ ih =>
      exact .cons (startsBlank_cons blank _) (.separated separator (ih _))

/-- **A text of legal lexemes with separators between them is scanned back to the lexemes**,
whatever the comments say, and nothing is reported. -/
theorem tokenize_spaced (file : FileId) {words : List Spelled} {lead text : Bytes}
    (leading : Separator lead) (spaced : Spaced words text) :
    let s := ofText file (lead ++ text)
    s.tokenize.tokens.map (fun t => (t.kind, t.lexeme)) =
        words.map (fun word => (word.kind, word.lexeme)) ++ [(.eof, [])] ∧
      s.tokenize.error? = none ∧ s.reports = [] := by
  intro s
  have found : Reads s words := .separated leading (reads_spaced spaced _)
  refine ⟨found.tokens, found.sound, ?_⟩
  rw [reports_eq, found.sound]
  rfl

/-- Comments with openers and closers in them, and marks that would be one without a blank. -/
theorem tokenize_spaced_marks :
    let s := ofText 3 (ascii "/*//*/< /***/= //*\n/\ttruth 7.5")
    s.tokenize.tokens.map (fun t => (t.kind, t.lexeme)) =
        [(.less, ascii "<"), (.equal, ascii "="), (.slash, ascii "/"), (.identifier, ascii "truth"),
          (.realLiteral, ascii "7.5"), (.eof, [])] ∧
      s.tokenize.error? = none ∧ s.reports = [] := by
  let less : Spelled := ⟨.less, ascii "<", .mark (by decide : Lexeme.IsMark .less), by decide⟩
  let equal : Spelled := ⟨.equal, ascii "=", .mark (by decide : Lexeme.IsMark .equal), by decide⟩
  let divides : Spelled := ⟨.slash, ascii "/", .mark (by decide : Lexeme.IsMark .slash), by decide⟩
  let truth : Spelled := ⟨.identifier, ascii "truth",
    .name (by decide) (by intro kind; cases kind <;> decide), by decide⟩
  have digits : ∀ b ∈ ascii "75", Lexeme.IsDigits [b] := by
    intro b listed
    have all : ∀ c ∈ ascii "75", Character.isDigit c := List.all_iff_forall_prop.mp (by decide)
    exact ⟨List.cons_ne_nil _ _, List.forall_mem_singleton.mpr (all b listed)⟩
  let real : Spelled := ⟨.realLiteral, ascii "7.5",
    .real (digits (byte '7') (by decide)) (digits (byte '5') (by decide)), by decide⟩
  have leading : Separator (ascii "/*//*/") :=
    .block (by decide : Gap.Open (ascii "//" ++ [star])) .nil
  have stars : Separator (ascii " /***/") :=
    .blank (by decide) (.block (by decide : Gap.Open (ascii "*" ++ [star])) .nil)
  have line : Separator (ascii " //*\n") :=
    .blank (by decide) (.line (by decide : lineFeed ∉ ascii "*") .nil)
  have blank : ∀ b ∈ ascii " \t", Separator [b] := by
    intro b listed
    have all : ∀ c ∈ ascii " \t", Character.isBlank c := List.all_iff_forall_prop.mp (by decide)
    exact .blank (all b listed) .nil
  have spaced : Spaced [less, equal, divides, truth, real]
      (ascii "< /***/= //*\n/\ttruth 7.5") :=
    .more less (by decide) stars <| .more equal (by decide) line <|
      .more divides (by decide) (blank _ (by decide)) <|
      .more truth (by decide) (blank _ (by decide)) (.last real)
  exact tokenize_spaced 3 leading spaced

end Scanner

end BlockSyntax
