import BlockSyntax.Proofs.Scanning
import Mathlib.Data.Bool.AllAny
import Mathlib.Data.List.Find

/-!
# In front of a blank

No lexeme has a blank in it, and none is told from another by a blank behind it.  So the lexeme
read in front of a blank is the lexeme read without it, whatever comes behind the blank
(`Lexeme.read_blank`).

A line feed ends a line comment as well, and only a block comment reaches over it.  So the gap
passed over in front of a line feed is the gap passed over without it (`Gap.pass_lineFeed`).

The tokens of a scanner depend on nothing but what is behind the gap in front of it
(`Scanner.tokenize_congr`); for each thing that can be there a lemma says how they start, and
`Scanner.lexeme_induction` has a case for it.
-/

set_option autoImplicit false

namespace BlockSyntax

/-! ## Blanks -/

namespace Character

variable {b : UInt8}

theorem isBlank_iff : isBlank b ↔ b ∈ ascii " \t\r\n" := by
  have listed : ascii " \t\r\n" = [byte ' ', byte '\t', byte '\r', lineFeed] := rfl
  rw [listed]
  simp only [isBlank, Bool.or_eq_true, beq_iff_eq, List.mem_cons, List.not_mem_nil, or_false,
    or_assoc]

theorem not_continuesWord_of_isBlank (blank : isBlank b) : ¬ continuesWord b := by
  have all : ∀ c ∈ ascii " \t\r\n", ¬ continuesWord c := List.all_iff_forall_prop.mp (by decide)
  exact all b (isBlank_iff.mp blank)

theorem not_isDigit_of_isBlank (blank : isBlank b) : ¬ isDigit b := by
  have all : ∀ c ∈ ascii " \t\r\n", ¬ isDigit c := List.all_iff_forall_prop.mp (by decide)
  exact all b (isBlank_iff.mp blank)

/-- A blank is no point and is in no mark. -/
theorem not_mem_mark_of_isBlank (blank : isBlank b) :
    b ≠ point ∧ ∀ k ∈ Lexeme.marks, b ∉ k.spelling := by
  have all : ∀ c ∈ ascii " \t\r\n", c ≠ point ∧ ∀ k ∈ Lexeme.marks, c ∉ k.spelling :=
    List.all_iff_forall_prop.mp (by decide)
  exact all b (isBlank_iff.mp blank)

end Character

/-! ## Stretches of one class -/

section Stretches

variable {keep : UInt8 → Bool} {b : UInt8} (stops : ¬ keep b) (text more : Bytes)
include stops

theorem takeWhile_stopped : (text ++ b :: more).takeWhile keep = text.takeWhile keep := by
  rw [List.takeWhile_append]
  split
  · rename_i whole
    rw [List.takeWhile_cons_of_neg stops, List.append_nil,
      (List.takeWhile_prefix keep).eq_of_length whole]
  · rfl

theorem dropWhile_stopped :
    (text ++ b :: more).dropWhile keep = text.dropWhile keep ++ b :: more := by
  rw [List.dropWhile_append]
  split
  · rename_i none
    rw [List.dropWhile_cons_of_neg stops, List.isEmpty_iff.mp none, List.nil_append]
  · rfl

end Stretches

/-- What does not have a byte in it is in front of that byte if it is in front of a text that
goes on with it. -/
theorem prefix_stopped {front text more : Bytes} {b : UInt8} (without : b ∉ front) :
    front <+: text ++ b :: more ↔ front <+: text := by
  constructor
  · intro inFront
    rcases List.prefix_or_prefix_of_prefix inFront (List.prefix_append text _) with
      short | ⟨beyond, rfl⟩
    · exact short
    · rw [List.prefix_append_right_inj] at inFront
      cases beyond with
      | nil => exact (List.append_nil text).symm ▸ List.prefix_refl text
      | cons c beyond =>
          obtain ⟨rfl, _⟩ := List.cons_prefix_cons.mp inFront
          exact absurd (List.mem_append_right text List.mem_cons_self) without
  · exact fun inFront => inFront.trans (List.prefix_append ..)

/-! ## Lexemes -/

namespace Lexeme

/-- The same lexeme with more text behind it. -/
def followed (more : Bytes) (l : Lexeme) : Lexeme := { l with rest := l.rest ++ more }

/-- A number by what is behind its first digits: a point, ... -/
theorem number_of_point {text behind : Bytes}
    (tail : text.dropWhile Character.isDigit = point :: behind) :
    number text =
      if (behind.takeWhile Character.isDigit).isEmpty then
        ⟨.error, text.takeWhile Character.isDigit ++ [point], behind, some .malformedNumber⟩
      else
        ⟨.realLiteral,
          text.takeWhile Character.isDigit ++ point :: behind.takeWhile Character.isDigit,
          behind.dropWhile Character.isDigit, none⟩ := by
  rw [number, tail]
  rfl

/-- ... or something else. -/
theorem number_of_other {text : Bytes}
    (noPoint : ∀ behind, text.dropWhile Character.isDigit ≠ point :: behind) :
    number text =
      ⟨.intLiteral, text.takeWhile Character.isDigit, text.dropWhile Character.isDigit, none⟩ := by
  rw [number]
  split
  · rename_i behind tail
    exact absurd tail (noPoint behind)
  · rfl

section Blank

variable {b : UInt8} (blank : Character.isBlank b) (text more : Bytes)
include blank

theorem word_blank : word (text ++ b :: more) = (word text).followed (b :: more) := by
  have stops := Character.not_continuesWord_of_isBlank blank
  rw [word, takeWhile_stopped stops, dropWhile_stopped stops]
  rfl

theorem number_blank : number (text ++ b :: more) = (number text).followed (b :: more) := by
  have stops := Character.not_isDigit_of_isBlank blank
  have whole := takeWhile_stopped stops text more
  have behindWhole := dropWhile_stopped stops text more
  by_cases pointed : ∃ behind, text.dropWhile Character.isDigit = point :: behind
  · obtain ⟨behind, tail⟩ := pointed
    rw [tail, List.cons_append] at behindWhole
    rw [number_of_point tail, number_of_point behindWhole, whole, takeWhile_stopped stops,
      dropWhile_stopped stops]
    split
    case isTrue => rfl
    case isFalse => rfl
  · have noPoint : ∀ behind, (text ++ b :: more).dropWhile Character.isDigit ≠ point :: behind := by
      rw [behindWhole]
      intro behind same
      cases tail : text.dropWhile Character.isDigit with
      | nil =>
          rw [tail] at same
          exact (Character.not_mem_mark_of_isBlank blank).1 (List.cons.inj same).1
      | cons c others =>
          rw [tail] at same
          obtain ⟨rfl, _⟩ := List.cons.inj same
          exact pointed ⟨others, tail⟩
    rw [number_of_other noPoint, number_of_other (not_exists.mp pointed), whole, behindWhole]
    rfl

/-- **A blank behind a text changes nothing of the lexeme in front of it**, and nothing behind
the blank does. -/
theorem read_blank (first : UInt8) (behind : Bytes) :
    read first (behind ++ b :: more) = (read first behind).followed (b :: more) := by
  have found : marks.find? (·.spelling.isPrefixOf (first :: (behind ++ b :: more))) =
      marks.find? (·.spelling.isPrefixOf (first :: behind)) := by
    refine List.find?_congr fun k listed => ?_
    rw [Bool.eq_iff_iff, List.isPrefixOf_iff_prefix, List.isPrefixOf_iff_prefix,
      ← List.cons_append]
    exact prefix_stopped ((Character.not_mem_mark_of_isBlank blank).2 k listed)
  rw [read, read, found]
  split
  · exact word_blank blank (first :: behind) more
  split
  · exact number_blank blank (first :: behind) more
  split
  · rename_i k some
    have isInFront := List.find?_some some
    have inFront := List.isPrefixOf_iff_prefix.mp isInFront
    rw [followed, ← List.cons_append, List.drop_append_of_le_length inFront.length_le]
  · rfl

end Blank

end Lexeme

/-! ## Gaps -/

namespace Gap

/-- What is found when a line feed and more text follow. -/
def thenLine (more : Bytes) : Gap → Gap
  | closed p [] => pass .between (p.step lineFeed) more
  | closed p (b :: rest) => closed p (b :: rest ++ lineFeed :: more)
  | unclosed opener p => pass (.block opener) (p.step lineFeed) more

/-- Another byte in front of a text that a line feed follows is in the text. -/
theorem head_stopped {text more : Bytes} {b : UInt8}
    (first : (text ++ lineFeed :: more).head? = some b) (other : b ≠ lineFeed) :
    ∃ others, text = b :: others := by
  cases text with
  | nil => exact absurd (Option.some.inj first).symm other
  | cons c others =>
      obtain rfl := Option.some.inj first
      exact ⟨others, rfl⟩

/-- **A line feed behind a text changes nothing of the gap in front of it**: only a gap that takes
the whole text goes on behind the line feed, and then between comments or in a block comment. -/
theorem pass_lineFeed (place : Place) (p : Position) (text more : Bytes) :
    pass place p (text ++ lineFeed :: more) = (pass place p text).thenLine more := by
  fun_induction pass place p text with
  | case1 p text ih => exact ih
  | case2 p text ih => exact ih
  | case3 p b text noLine noBlock blank ih =>
      rw [List.cons_append, pass_blank p _ blank]
      exact ih
  | case4 p b text noLine noBlock noBlank =>
      rw [List.cons_append, pass_between, if_neg noBlank]
      · rfl
      rintro ⟨first, line | block⟩
      · obtain ⟨others, second⟩ := head_stopped line (by decide)
        exact noLine others first second
      · obtain ⟨others, second⟩ := head_stopped block (by decide)
        exact noBlock others first second
  | case5 p b text ih => exact ih
  | case6 opener p text ih => exact ih
  | case7 opener p b text stays ih =>
      rw [List.cons_append, pass_inside]
      · exact ih
      rintro ⟨first, closes⟩
      obtain ⟨others, second⟩ := head_stopped closes (by decide)
      exact stays others first second
  | case8 opener p => rfl
  | case9 place p notBlock =>
      -- the gap takes the whole text, and the line feed is a blank that ends a line comment too
      cases place with
      | between => exact pass_blank p more (by decide)
      | line => rw [List.nil_append, pass_line_cons, if_pos rfl]; rfl
      | block opener => exact absurd rfl (notBlock opener)

end Gap

/-! ## Tokens by what is behind the gap -/

/-- The stream with other tokens in front. -/
def Lexed.withFront (front : List Token) (l : Lexed) : Lexed :=
  { l with tokens := front ++ l.tokens }

namespace Scanner

/-- The token that a lexeme makes at a position. -/
def tokenAt (s : Scanner) (p : Position) (l : Lexeme) : Token := ⟨l.kind, l.text, s.locate p⟩

/-- The scanner behind a lexeme at a position. -/
def behindLexeme (s : Scanner) (p : Position) (l : Lexeme) : Scanner :=
  ⟨s.file, p.advance l.text, l.rest⟩

section Tokens

variable {s : Scanner} {p opener : Position} {first : UInt8} {rest : Bytes} {l : Lexeme}

theorem tokenize_of_unclosed (passed : Gap.pass .between s.position s.rest = .unclosed opener p) :
    s.tokenize = ⟨[⟨.error, [], s.locate p⟩], some ⟨.unclosedComment, s.locate opener⟩,
      ⟨s.file, p, []⟩⟩ := by
  rw [tokenize, next_of_unclosed passed]

theorem tokenize_of_nil (passed : Gap.pass .between s.position s.rest = .closed p []) :
    s.tokenize = ⟨[⟨.eof, [], s.locate p⟩], none, ⟨s.file, p, []⟩⟩ := by
  rw [tokenize, next_of_nil passed]

theorem tokenize_of_sound (passed : Gap.pass .between s.position s.rest = .closed p (first :: rest))
    (read : Lexeme.read first rest = l) (sound : l.fault = none) :
    s.tokenize = (s.behindLexeme p l).tokenize.withFront [s.tokenAt p l] := by
  subst read
  obtain ⟨shorter, found⟩ := next_of_sound passed sound
  rw [tokenize, found]
  rfl

theorem tokenize_of_faulty {fault : LexicalFault}
    (passed : Gap.pass .between s.position s.rest = .closed p (first :: rest))
    (read : Lexeme.read first rest = l) (faulty : l.fault = some fault) :
    s.tokenize = ⟨[s.tokenAt p l], some ⟨fault, s.locate p⟩, s.behindLexeme p l⟩ := by
  subst read
  rw [tokenize, next_of_faulty passed faulty]
  rfl

/-- The scanner behind a lexeme has fewer bytes left. -/
theorem length_behindLexeme
    (passed : Gap.pass .between s.position s.rest = .closed p (first :: rest))
    (read : Lexeme.read first rest = l) : (s.behindLexeme p l).rest.length < s.rest.length := by
  subst read
  have within := Gap.length_rest_pass .between s.position s.rest
  rw [passed] at within
  exact Nat.lt_of_lt_of_le (Lexeme.length_rest_read first rest) within

/-- **Induction along a text**, by what is behind the gap in front of it: an open comment, nothing,
a lexeme at fault, or a sound lexeme and what is behind that. -/
@[elab_as_elim]
theorem lexeme_induction {motive : Scanner → Prop}
    (unclosed : ∀ s opener p, Gap.pass .between s.position s.rest = .unclosed opener p → motive s)
    (nil : ∀ s p, Gap.pass .between s.position s.rest = .closed p [] → motive s)
    (faulty : ∀ s p first rest l fault,
      Gap.pass .between s.position s.rest = .closed p (first :: rest) →
        Lexeme.read first rest = l → l.fault = some fault → motive s)
    (sound : ∀ s p first rest l,
      Gap.pass .between s.position s.rest = .closed p (first :: rest) →
        Lexeme.read first rest = l → l.fault = none → motive (s.behindLexeme p l) → motive s)
    (s : Scanner) : motive s := by
  induction hn : s.rest.length using Nat.strongRecOn generalizing s with
  | ind n ih =>
      cases passed : Gap.pass .between s.position s.rest with
      | unclosed opener p => exact unclosed s opener p passed
      | closed p behind =>
          cases behind with
          | nil => exact nil s p passed
          | cons first rest =>
              cases fault : (Lexeme.read first rest).fault with
              | some e => exact faulty s p first rest _ e passed rfl fault
              | none =>
                  have shorter := length_behindLexeme passed rfl
                  exact sound s p first rest _ passed rfl fault (ih _ (hn ▸ shorter) _ rfl)

/-- **The tokens depend on what is behind the gap alone.** -/
theorem tokenize_congr {file : FileId} {q q' : Position} {text text' : Bytes}
    (passed : Gap.pass .between q text = Gap.pass .between q' text') :
    (⟨file, q, text⟩ : Scanner).tokenize = (⟨file, q', text'⟩ : Scanner).tokenize := by
  cases same : Gap.pass .between q' text' with
  | unclosed opener p =>
      rw [tokenize_of_unclosed (s := ⟨file, q, text⟩) (passed.trans same),
        tokenize_of_unclosed (s := ⟨file, q', text'⟩) same]
      rfl
  | closed p behind =>
      cases behind with
      | nil =>
          rw [tokenize_of_nil (s := ⟨file, q, text⟩) (passed.trans same),
            tokenize_of_nil (s := ⟨file, q', text'⟩) same]
          rfl
      | cons first rest =>
          cases fault : (Lexeme.read first rest).fault with
          | none =>
              rw [tokenize_of_sound (s := ⟨file, q, text⟩) (passed.trans same) rfl fault,
                tokenize_of_sound (s := ⟨file, q', text'⟩) same rfl fault]
              rfl
          | some e =>
              rw [tokenize_of_faulty (s := ⟨file, q, text⟩) (passed.trans same) rfl fault,
                tokenize_of_faulty (s := ⟨file, q', text'⟩) same rfl fault]
              rfl

end Tokens

end Scanner

end BlockSyntax
