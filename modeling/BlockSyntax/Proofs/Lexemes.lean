import BlockSyntax.Proofs.ReservedWords
import BlockSyntax.Token.Lexeme

/-!
# The lexical grammar

A lexeme is one of seven sorts of bytes, and its sort gives its kind (`Lexeme.Matches`): a
reserved word, a name, an integer, a real number, a number whose point has no digit behind
it, an operator or mark of punctuation, or a single byte that is none of these.  Which of
them start with which byte is what the scanner decides by: words start with a letter or an
underscore, numbers with a digit, and all others with some other byte.

**The lexeme read is the longest match** (`Lexeme.read_longest`): no other lexeme at the
start of the text is as long.  For words and numbers this is because they are read as far as
their bytes go on, and for marks because no mark stands in their table behind another one
that it starts with.
-/

set_option autoImplicit false

namespace BlockSyntax

/-! ## Classes of bytes -/

theorem Character.not_isDigit_of_startsWord {b : UInt8} (starts : startsWord b) :
    ¬ isDigit b := by
  simp only [startsWord, isLetter, isDigit, byte, Bool.or_eq_true, Bool.and_eq_true,
    decide_eq_true_eq, beq_iff_eq, UInt8.le_iff_toNat_le, ← UInt8.toNat_inj] at *
  simp at *
  omega

namespace Lexeme

/-- A letter or underscore, and then letters, underscores and digits. -/
def IsWord : Bytes → Prop
  | [] => False
  | b :: more => Character.startsWord b ∧ more.all Character.continuesWord

instance : DecidablePred IsWord
  | [] => inferInstanceAs (Decidable False)
  | b :: more =>
    inferInstanceAs (Decidable (Character.startsWord b ∧ more.all Character.continuesWord))

/-- Digits, and at least one of them. -/
structure IsDigits (text : Bytes) : Prop where
  /-- There is a digit. -/
  nonempty : text ≠ []
  /-- There is nothing else. -/
  digits : ∀ b ∈ text, Character.isDigit b

/-- The word is reserved: it is the spelling of the kind, or one of the truth values. -/
def IsReserved (word : Bytes) (kind : TokenKind) : Prop :=
  (IsWord word ∧ word = kind.spelling) ∨
    (kind = .boolLiteral ∧ (word = ascii "true" ∨ word = ascii "false"))

/-- The kind has one spelling, and that is not a word. -/
def IsMark (kind : TokenKind) : Prop := kind.spelling ≠ [] ∧ ¬ IsWord kind.spelling

instance (word : Bytes) (kind : TokenKind) : Decidable (IsReserved word kind) :=
  inferInstanceAs (Decidable (_ ∨ _))

instance : DecidablePred IsMark := fun kind =>
  inferInstanceAs (Decidable (kind.spelling ≠ [] ∧ ¬ IsWord kind.spelling))

/-- The bytes are a lexeme of the kind. -/
inductive Matches : Bytes → TokenKind → Prop where
  | reserved {word : Bytes} {kind : TokenKind} (isReserved : IsReserved word kind) :
      Matches word kind
  | name {word : Bytes} (isWord : IsWord word) (free : ∀ kind, ¬ IsReserved word kind) :
      Matches word .identifier
  | integer {whole : Bytes} (digits : IsDigits whole) : Matches whole .intLiteral
  | real {whole fraction : Bytes} (digits : IsDigits whole) (digits' : IsDigits fraction) :
      Matches (whole ++ point :: fraction) .realLiteral
  /-- A number whose point has no digit behind it. -/
  | pointed {whole : Bytes} (digits : IsDigits whole) : Matches (whole ++ [point]) .error
  | mark {kind : TokenKind} (isMark : IsMark kind) : Matches kind.spelling kind
  /-- A byte that starts no word and no number and is no mark. -/
  | other {b : UInt8} (noWord : ¬ Character.startsWord b) (noDigit : ¬ Character.isDigit b)
      (noMark : ∀ kind, IsMark kind → kind.spelling ≠ [b]) : Matches [b] .error

/-- A lexeme at the start of the text, and the longest one. -/
structure LongestMatch (text lexeme : Bytes) (kind : TokenKind) : Prop where
  /-- It is a lexeme. -/
  isLexeme : Matches lexeme kind
  /-- The text starts with it. -/
  inFront : lexeme <+: text
  /-- Every other lexeme that the text starts with is shorter. -/
  longest : ∀ other kind', Matches other kind' → other <+: text →
    other.length < lexeme.length ∨ (other = lexeme ∧ kind' = kind)

/-! ## Lexemes by their first byte -/

/-- The table of reserved words is complete. -/
theorem isReserved_iff {word : Bytes} {kind : TokenKind} :
    IsReserved word kind ↔ Reserved.kind? word = some kind := by
  rw [Reserved.kind?_eq_some_iff, ← Array.mem_toList_iff]
  constructor
  · intro isReserved
    rcases isReserved with ⟨isWord, rfl⟩ | ⟨rfl, rfl | rfl⟩
    · revert isWord
      cases kind <;> decide
    · decide
    · decide
  · intro entry
    exact (by decide : ∀ e ∈ Reserved.table.toList, IsReserved e.word e.kind) _ entry

theorem IsReserved.isWord {word : Bytes} {kind : TokenKind} (isReserved : IsReserved word kind) :
    IsWord word := by
  rcases isReserved with ⟨isWord, _⟩ | ⟨_, rfl | rfl⟩
  · exact isWord
  · decide
  · decide

theorem not_isReserved_iff {word : Bytes} :
    (∀ kind, ¬ IsReserved word kind) ↔ Reserved.kind? word = none := by
  simp only [isReserved_iff, ← Option.eq_none_iff_forall_ne_some]

/-- The table of marks is complete. -/
theorem mem_marks_iff {kind : TokenKind} : kind ∈ marks ↔ IsMark kind := by
  cases kind <;> decide

theorem IsWord.ne_nil {word : Bytes} (isWord : IsWord word) : word ≠ [] := by
  intro empty
  subst empty
  exact isWord

theorem IsWord.startsWord {word : Bytes} (isWord : IsWord word) :
    ∀ b ∈ word.head?, Character.startsWord b := by
  cases word with
  | nil => exact nofun
  | cons b more =>
      intro c first
      obtain rfl := Option.some.inj first
      exact isWord.1

theorem IsWord.continuesWord {word : Bytes} (isWord : IsWord word) :
    ∀ b ∈ word, Character.continuesWord b := by
  cases word with
  | nil => exact nofun
  | cons b more =>
      rw [List.forall_mem_cons]
      exact ⟨by rw [Character.continuesWord, isWord.1, Bool.true_or], List.all_eq_true.mp isWord.2⟩

theorem IsDigits.isDigit_head {whole : Bytes} (digits : IsDigits whole) (behind : Bytes) :
    ∀ b ∈ (whole ++ behind).head?, Character.isDigit b := by
  cases whole with
  | nil => exact absurd rfl digits.nonempty
  | cons c more =>
      intro b first
      obtain rfl := Option.some.inj first
      exact digits.digits c List.mem_cons_self

/-- A mark starts with a byte that starts neither a word nor a number. -/
theorem IsMark.head {kind : TokenKind} (isMark : IsMark kind) : ∀ b ∈ kind.spelling.head?,
    ¬ Character.startsWord b ∧ ¬ Character.isDigit b := by
  have neither : kind.spelling.head?.all
      fun b => ¬ Character.startsWord b ∧ ¬ Character.isDigit b := by
    revert isMark
    cases kind <;> decide
  intro b first
  rw [Option.mem_def.mp first] at neither
  exact of_decide_eq_true neither

namespace Matches

variable {lexeme : Bytes} {kind : TokenKind} {b : UInt8}

theorem ne_nil (isLexeme : Matches lexeme kind) : lexeme ≠ [] := by
  cases isLexeme with
  | reserved isReserved => exact isReserved.isWord.ne_nil
  | name isWord => exact isWord.ne_nil
  | integer digits => exact digits.nonempty
  | real digits => exact List.append_ne_nil_of_left_ne_nil digits.nonempty _
  | pointed digits => exact List.append_ne_nil_of_left_ne_nil digits.nonempty _
  | mark isMark => exact isMark.1
  | other => exact List.cons_ne_nil _ _

/-- No lexeme is an end marker. -/
theorem kind_ne_eof (isLexeme : Matches lexeme kind) : kind ≠ .eof := by
  cases isLexeme with
  | reserved isReserved =>
      intro ended
      subst ended
      rcases isReserved with ⟨isWord, rfl⟩ | ⟨truth, _⟩
      · exact isWord
      · cases truth
  | mark isMark =>
      intro ended
      subst ended
      exact isMark.1 rfl
  | _ => decide

/-- A lexeme takes the first byte of every text that it is in front of. -/
theorem head_of_prefix {behind : Bytes} (isLexeme : Matches lexeme kind)
    (inFront : lexeme <+: b :: behind) : b ∈ lexeme.head? := by
  obtain ⟨rest, same⟩ := inFront
  cases lexeme with
  | nil => exact absurd rfl isLexeme.ne_nil
  | cons c more =>
      obtain ⟨rfl, _⟩ := List.cons.inj same
      rfl

/-- What starts like a word is a word, and the table of reserved words decides its kind. -/
theorem of_startsWord (isLexeme : Matches lexeme kind) (first : b ∈ lexeme.head?)
    (starts : Character.startsWord b) :
    IsWord lexeme ∧ kind = (Reserved.kind? lexeme).getD .identifier := by
  have noDigit := Character.not_isDigit_of_startsWord starts
  cases isLexeme with
  | reserved isReserved =>
      refine ⟨isReserved.isWord, ?_⟩
      rw [isReserved_iff.mp isReserved, Option.getD_some]
  | name isWord free =>
      refine ⟨isWord, ?_⟩
      rw [not_isReserved_iff.mp free, Option.getD_none]
  | integer digits => exact absurd (digits.isDigit_head [] b (by simpa using first)) noDigit
  | real digits => exact absurd (digits.isDigit_head _ b first) noDigit
  | pointed digits => exact absurd (digits.isDigit_head _ b first) noDigit
  | mark isMark => exact absurd starts (isMark.head b first).1
  | other noWord =>
      obtain rfl := Option.some.inj first
      exact absurd starts noWord

/-- What starts like a number is a number. -/
theorem of_isDigit (isLexeme : Matches lexeme kind) (first : b ∈ lexeme.head?)
    (digit : Character.isDigit b) :
    ∃ whole, IsDigits whole ∧
      ((lexeme = whole ∧ kind = .intLiteral) ∨
        (lexeme = whole ++ [point] ∧ kind = .error) ∨
        ∃ fraction, IsDigits fraction ∧ lexeme = whole ++ point :: fraction ∧
          kind = .realLiteral) := by
  have noWord : ¬ Character.startsWord b := by
    intro starts
    exact Character.not_isDigit_of_startsWord starts digit
  cases isLexeme with
  | reserved isReserved => exact absurd (isReserved.isWord.startsWord b first) noWord
  | name isWord => exact absurd (isWord.startsWord b first) noWord
  | integer digits => exact ⟨_, digits, .inl ⟨rfl, rfl⟩⟩
  | real digits digits' => exact ⟨_, digits, .inr (.inr ⟨_, digits', rfl, rfl⟩)⟩
  | pointed digits => exact ⟨_, digits, .inr (.inl ⟨rfl, rfl⟩)⟩
  | mark isMark => exact absurd digit (isMark.head b first).2
  | other _ noDigit =>
      obtain rfl := Option.some.inj first
      exact absurd digit noDigit

/-- What starts like neither is a mark, or a single byte that is none. -/
theorem of_other (isLexeme : Matches lexeme kind) (first : b ∈ lexeme.head?)
    (noWord : ¬ Character.startsWord b) (noDigit : ¬ Character.isDigit b) :
    (kind ∈ marks ∧ lexeme = kind.spelling) ∨
      (lexeme = [b] ∧ kind = .error ∧ ∀ k ∈ marks, k.spelling ≠ [b]) := by
  simp only [mem_marks_iff]
  cases isLexeme with
  | reserved isReserved => exact absurd (isReserved.isWord.startsWord b first) noWord
  | name isWord => exact absurd (isWord.startsWord b first) noWord
  | integer digits => exact absurd (digits.isDigit_head [] b (by simpa using first)) noDigit
  | real digits => exact absurd (digits.isDigit_head _ b first) noDigit
  | pointed digits => exact absurd (digits.isDigit_head _ b first) noDigit
  | mark isMark => exact .inl ⟨isMark, rfl⟩
  | other _ _ noMark =>
      obtain rfl := Option.some.inj first
      exact .inr ⟨rfl, rfl, noMark⟩

end Matches

/-! ## The lexeme read is the longest -/

/-- Bytes that all go on at the start of a text are part of the longest stretch that does. -/
theorem prefix_takeWhile {keep : UInt8 → Bool} {front text : Bytes} (inFront : front <+: text)
    (kept : ∀ b ∈ front, keep b) : front <+: text.takeWhile keep := by
  obtain ⟨behind, rfl⟩ := inFront
  rw [List.takeWhile_append_of_pos kept]
  exact List.prefix_append _ _

/-- Of two texts one of which starts with the other the shorter is the other. -/
theorem shorter_or_eq {front text : Bytes} (inFront : front <+: text) :
    front.length < text.length ∨ front = text := by
  rcases Nat.lt_or_eq_of_le inFront.length_le with shorter | same
  · exact .inl shorter
  · exact .inr (inFront.eq_of_length same)

variable {first : UInt8} {behind : Bytes}

theorem word_longest (starts : Character.startsWord first) :
    LongestMatch (first :: behind) (word (first :: behind)).text (word (first :: behind)).kind := by
  have isWord : IsWord ((first :: behind).takeWhile Character.continuesWord) := by
    rw [List.takeWhile_cons_of_pos (by rw [Character.continuesWord, starts, Bool.true_or])]
    exact ⟨starts, List.all_takeWhile⟩
  refine ⟨?_, List.takeWhile_prefix _, ?_⟩
  · show Matches _ ((Reserved.kind? _).getD _)
    cases found : Reserved.kind? ((first :: behind).takeWhile Character.continuesWord) with
    | none => exact .name isWord (not_isReserved_iff.mpr found)
    | some kind => exact .reserved (isReserved_iff.mpr found)
  · intro other kind isLexeme inFront
    obtain ⟨isWord', rfl⟩ := isLexeme.of_startsWord (isLexeme.head_of_prefix inFront) starts
    rcases shorter_or_eq (prefix_takeWhile inFront isWord'.continuesWord) with shorter | same
    · exact .inl shorter
    · exact .inr ⟨same, by rw [same]; rfl⟩

/-- The digits at the start of a text that starts with one. -/
theorem isDigits_takeWhile (digit : Character.isDigit first) :
    IsDigits ((first :: behind).takeWhile Character.isDigit) := by
  refine ⟨?_, List.all_eq_true.mp List.all_takeWhile⟩
  rw [List.takeWhile_cons_of_pos digit]
  exact List.cons_ne_nil _ _

/-- Digits with something behind them that is no digit are all the digits there are. -/
theorem digits_of_prefix {whole behind text : Bytes} {b : UInt8} (digits : IsDigits whole)
    (noDigit : ¬ Character.isDigit b) (inFront : whole ++ b :: behind <+: text) :
    whole = text.takeWhile Character.isDigit ∧
      b :: behind <+: text.dropWhile Character.isDigit := by
  obtain ⟨rest, rfl⟩ := inFront
  rw [List.append_assoc, List.takeWhile_append_of_pos digits.digits,
    List.dropWhile_append_of_pos digits.digits, List.cons_append,
    List.takeWhile_cons_of_neg noDigit, List.dropWhile_cons_of_neg noDigit, List.append_nil]
  exact ⟨rfl, rest, rfl⟩

/-- The numbers at the start of a text, by what is behind its first digits. -/
theorem Matches.number_in_front {lexeme : Bytes} {kind : TokenKind}
    (isLexeme : Matches lexeme kind) (digit : Character.isDigit first)
    (inFront : lexeme <+: first :: behind) :
    (lexeme <+: (first :: behind).takeWhile Character.isDigit ∧ kind = .intLiteral) ∨
      ∃ fraction, lexeme = (first :: behind).takeWhile Character.isDigit ++ point :: fraction ∧
        point :: fraction <+: (first :: behind).dropWhile Character.isDigit ∧
        (fraction = [] ∧ kind = .error ∨ IsDigits fraction ∧ kind = .realLiteral) := by
  obtain ⟨whole, digits, ⟨rfl, rfl⟩ | ⟨rfl, rfl⟩ | ⟨fraction, digits', rfl, rfl⟩⟩ :=
    isLexeme.of_isDigit (isLexeme.head_of_prefix inFront) digit
  · exact .inl ⟨prefix_takeWhile inFront digits.digits, rfl⟩
  · obtain ⟨whole_eq, tail⟩ := digits_of_prefix digits (by decide) inFront
    exact .inr ⟨[], by rw [← whole_eq], tail, .inl ⟨rfl, rfl⟩⟩
  · obtain ⟨whole_eq, tail⟩ := digits_of_prefix digits (by decide) inFront
    exact .inr ⟨fraction, by rw [← whole_eq], tail, .inr ⟨digits', rfl⟩⟩

/-- What the digits of a fraction are at the start of is at the start of the others. -/
theorem IsDigits.prefix_fraction {fraction others tail : Bytes} (digits : IsDigits fraction)
    (tail_eq : tail = point :: others) (inTail : point :: fraction <+: tail) :
    fraction <+: others.takeWhile Character.isDigit := by
  rw [tail_eq, List.cons_prefix_cons] at inTail
  exact prefix_takeWhile inTail.2 digits.digits

theorem number_longest (digit : Character.isDigit first) :
    LongestMatch (first :: behind) (number (first :: behind)).text
      (number (first :: behind)).kind := by
  have cut : (first :: behind).takeWhile Character.isDigit ++
      (first :: behind).dropWhile Character.isDigit = first :: behind :=
    List.takeWhile_append_dropWhile
  have digits : IsDigits ((first :: behind).takeWhile Character.isDigit) :=
    isDigits_takeWhile digit
  rw [number]
  split
  · -- the digits end at a point
    rename_i others tail
    rw [tail] at cut
    have cut' : others.takeWhile Character.isDigit ++ others.dropWhile Character.isDigit = others :=
      List.takeWhile_append_dropWhile
    dsimp only
    split
    · rename_i noFraction
      refine ⟨.pointed digits, ⟨others, (List.append_assoc ..).trans cut⟩, ?_⟩
      intro other kind isLexeme inFront
      rcases isLexeme.number_in_front digit inFront with
        ⟨shorter, rfl⟩ | ⟨fraction, rfl, inTail, ⟨rfl, rfl⟩ | ⟨digits', rfl⟩⟩
      · left
        rw [List.length_append]
        exact Nat.lt_of_le_of_lt shorter.length_le (Nat.lt_succ_self _)
      · exact .inr ⟨rfl, rfl⟩
      · have empty := digits'.prefix_fraction tail inTail
        rw [List.isEmpty_iff.mp noFraction, List.prefix_nil] at empty
        exact absurd empty digits'.nonempty
    · rename_i someFraction
      have nonempty : others.takeWhile Character.isDigit ≠ [] := by
        simpa using someFraction
      refine ⟨.real digits ⟨nonempty, List.all_eq_true.mp List.all_takeWhile⟩,
        ⟨others.dropWhile Character.isDigit, ?_⟩, ?_⟩
      · rw [List.append_assoc, List.cons_append, cut']
        exact cut
      · intro other kind isLexeme inFront
        rcases isLexeme.number_in_front digit inFront with
          ⟨shorter, rfl⟩ | ⟨fraction, rfl, inTail, ⟨rfl, rfl⟩ | ⟨digits', rfl⟩⟩
        · left
          rw [List.length_append]
          exact Nat.lt_of_le_of_lt shorter.length_le (Nat.lt_add_of_pos_right (Nat.succ_pos _))
        · left
          simpa [List.length_pos_iff] using nonempty
        · rcases shorter_or_eq (digits'.prefix_fraction tail inTail) with shorter | same
          · left
            simpa using shorter
          · exact .inr ⟨by rw [same], rfl⟩
  · -- no point is behind the digits
    rename_i noPoint
    refine ⟨.integer digits, List.takeWhile_prefix _, ?_⟩
    intro other kind isLexeme inFront
    rcases isLexeme.number_in_front digit inFront with ⟨inDigits, rfl⟩ | ⟨fraction, _, inTail, _⟩
    · rcases shorter_or_eq inDigits with shorter | same
      · exact .inl shorter
      · exact .inr ⟨same, rfl⟩
    · obtain ⟨others, tail⟩ := inTail
      exact absurd tail.symm (noPoint _)

/-- No mark stands in the table behind one that it starts with. -/
theorem marks_order : marks.Pairwise fun k later => ¬ k.spelling <+: later.spelling := by
  decide

theorem mark_longest {k : TokenKind} (noWord : ¬ Character.startsWord first)
    (noDigit : ¬ Character.isDigit first)
    (found : marks.find? (·.spelling.isPrefixOf (first :: behind)) = some k) :
    LongestMatch (first :: behind) k.spelling k := by
  obtain ⟨foundInFront, earlier, later, order, notEarlier⟩ :=
    List.find?_eq_some_iff_append.mp found
  have inFront : k.spelling <+: first :: behind := List.isPrefixOf_iff_prefix.mp foundInFront
  have isMark : Matches k.spelling k := .mark (mem_marks_iff.mp (List.mem_of_find?_eq_some found))
  refine ⟨isMark, inFront, ?_⟩
  intro other kind isLexeme inFront'
  rcases isLexeme.of_other (isLexeme.head_of_prefix inFront') noWord noDigit with
    ⟨listed, rfl⟩ | ⟨rfl, rfl, noMark⟩
  · rw [order, List.mem_append, List.mem_cons] at listed
    rcases listed with before | rfl | after
    · have := notEarlier kind before
      rw [List.isPrefixOf_iff_prefix.mpr inFront'] at this
      exact absurd this (by decide)
    · exact .inr ⟨rfl, rfl⟩
    · -- a later mark that is no shorter would start with the one found
      left
      apply Nat.lt_of_not_le
      intro longer
      have pairs := order ▸ marks_order
      have notPrefix := List.rel_of_pairwise_cons (List.pairwise_append.mp pairs).2.1 after
      exact notPrefix (List.prefix_of_prefix_length_le inFront inFront' longer)
  · left
    rcases shorter_or_eq (List.prefix_of_prefix_length_le inFront' inFront
        (List.length_pos_iff.mpr isMark.ne_nil)) with shorter | same
    · exact shorter
    · exact absurd same.symm (noMark k (List.mem_of_find?_eq_some found))

theorem byte_longest (noWord : ¬ Character.startsWord first)
    (noDigit : ¬ Character.isDigit first)
    (missing : marks.find? (·.spelling.isPrefixOf (first :: behind)) = none) :
    LongestMatch (first :: behind) [first] .error := by
  have noMark : ∀ k ∈ marks, ¬ k.spelling <+: first :: behind := by
    intro k listed inFront
    exact List.find?_eq_none.mp missing k listed (List.isPrefixOf_iff_prefix.mpr inFront)
  refine ⟨.other noWord noDigit ?_, ⟨behind, rfl⟩, ?_⟩
  · intro k isMark same
    exact noMark k (mem_marks_iff.mpr isMark) (same ▸ ⟨behind, rfl⟩)
  · intro other kind isLexeme inFront
    rcases isLexeme.of_other (isLexeme.head_of_prefix inFront) noWord noDigit with
      ⟨listed, rfl⟩ | ⟨rfl, rfl, _⟩
    · exact absurd inFront (noMark kind listed)
    · exact .inr ⟨rfl, rfl⟩

/-- **The lexeme read is the longest** of all that the text starts with. -/
theorem read_longest (first : UInt8) (behind : Bytes) :
    LongestMatch (first :: behind) (read first behind).text (read first behind).kind := by
  rw [read]
  split
  · exact word_longest ‹_›
  split
  · exact number_longest ‹_›
  split
  · exact mark_longest ‹_› ‹_› ‹_›
  · exact byte_longest ‹_› ‹_› ‹_›

theorem number_append (text : Bytes) : (number text).text ++ (number text).rest = text := by
  have cut : text.takeWhile Character.isDigit ++ text.dropWhile Character.isDigit = text :=
    List.takeWhile_append_dropWhile
  rw [number]
  split
  · rename_i others tail
    rw [tail] at cut
    dsimp only
    split
    · exact (List.append_assoc ..).trans cut
    · dsimp only
      rw [List.append_assoc, List.cons_append, List.takeWhile_append_dropWhile]
      exact cut
  · exact cut

/-- **A text is cut at the end of the lexeme read.** -/
theorem read_append (first : UInt8) (behind : Bytes) :
    (read first behind).text ++ (read first behind).rest = first :: behind := by
  rw [read]
  split
  · exact List.takeWhile_append_dropWhile
  split
  · exact number_append _
  split
  · rename_i k found
    have inFront := List.find?_some found
    obtain ⟨rest, cut⟩ := List.isPrefixOf_iff_prefix.mp inFront
    dsimp only
    rw [← cut, List.drop_left]
  · rfl

/-! ## Lexemes at fault -/

/-- What is wrong with a lexeme at fault. -/
inductive Faulty : Bytes → LexicalFault → Prop where
  /-- The point of a number has no digit behind it. -/
  | number {whole : Bytes} (digits : IsDigits whole) : Faulty (whole ++ [point]) .malformedNumber
  /-- A byte is no lexeme. -/
  | byte {b : UInt8} : Faulty [b] (.unexpectedByte b)

theorem table_ne_error : ∀ e ∈ Reserved.table, e.kind ≠ .error := by
  decide

theorem marks_ne_error : ∀ k ∈ marks, k ≠ .error := by
  decide

theorem word_kind_ne_error (text : Bytes) : (word text).kind ≠ .error := by
  show (Reserved.kind? _).getD _ ≠ _
  cases found : Reserved.kind? (text.takeWhile Character.continuesWord) with
  | none => decide
  | some kind => exact table_ne_error _ (Reserved.kind?_eq_some_iff.mp found)

/-- **A lexeme is at fault exactly if its kind is `error`**, and the fault is what is wrong
with it. -/
theorem read_fault_cases (first : UInt8) (behind : Bytes) :
    ((read first behind).fault = none ∧ (read first behind).kind ≠ .error) ∨
      ∃ fault, (read first behind).fault = some fault ∧ (read first behind).kind = .error ∧
        Faulty (read first behind).text fault := by
  rw [read]
  split
  · exact .inl ⟨rfl, word_kind_ne_error _⟩
  split
  · rename_i noWord digit
    rw [number]
    split
    · dsimp only
      split
      · rename_i noFraction
        exact .inr ⟨.malformedNumber, rfl, rfl, .number (isDigits_takeWhile digit)⟩
      · exact .inl ⟨rfl, nofun⟩
    · exact .inl ⟨rfl, nofun⟩
  split
  · rename_i found
    exact .inl ⟨rfl, marks_ne_error _ (List.mem_of_find?_eq_some found)⟩
  · exact .inr ⟨_, rfl, rfl, .byte⟩

end Lexeme

end BlockSyntax
