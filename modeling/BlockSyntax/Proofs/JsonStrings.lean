import BlockSyntax.Json.Quoted
import BlockSyntax.Proofs.JsonGrammar

/-!
# Quoted text is read back

Each byte is written so that a reader takes exactly what was written for it and gets the byte
back (`JsonValue.character?_escape`), whatever follows.  So a string literal ends at its own
closing quotation mark, and the text inside is the text that was quoted: this is a reading of it
(`JsonValue.characters_quoted`), and there is no other one (`JsonValue.Characters.unique`).

The reader that takes one character after the other up to the closing quotation mark finds the
strings of the grammar and no others (`JsonValue.string?_eq_some_iff`).
-/

set_option autoImplicit false

namespace BlockSyntax

namespace Json

/-! ## The bytes of a literal -/

/-- A byte that stands for itself in a string literal. -/
def Literal (b : UInt8) : Prop := 0x20 ≤ b ∧ b ≠ byte '"' ∧ b ≠ byte '\\'

instance : DecidablePred Literal := fun b =>
  inferInstanceAs (Decidable (0x20 ≤ b ∧ b ≠ byte '"' ∧ b ≠ byte '\\'))

theorem literal_hexDigit : ∀ n < 32,
    Literal (hexDigit (n.toUInt8 / 16)) ∧ Literal (hexDigit (n.toUInt8 % 16)) := by
  decide

/-- **A byte is written as itself, or as an escape**: a backslash, a byte of any sort, and bytes
that stand for themselves. -/
theorem escape_cases (b : UInt8) : (escape b = [b] ∧ Literal b) ∨
    ∃ letter digits, escape b = byte '\\' :: letter :: digits ∧ 0x20 ≤ letter ∧
      ∀ d ∈ digits, Literal d := by
  rw [escape]
  split
  · rename_i special
    rw [Bool.or_eq_true, decide_eq_true_eq, decide_eq_true_eq] at special
    refine .inr ⟨b, [], rfl, ?_, List.forall_mem_nil _⟩
    rcases special with rfl | rfl <;> decide
  iterate 5
    split
    · exact .inr ⟨_, [], rfl, by decide, List.forall_mem_nil _⟩
  rename_i ordinary _ _ _ _ _
  rw [Bool.or_eq_true, decide_eq_true_eq, decide_eq_true_eq, not_or] at ordinary
  split
  · rename_i control
    have digits := literal_hexDigit b.toNat control
    rw [Nat.toUInt8_eq, UInt8.ofNat_toNat] at digits
    refine .inr ⟨byte 'u', [byte '0', byte '0', hexDigit (b / 16), hexDigit (b % 16)], rfl,
      by decide, ?_⟩
    simp only [List.forall_mem_cons]
    exact ⟨by decide, by decide, digits.1, digits.2, List.forall_mem_nil _⟩
  · rename_i printable
    exact .inl ⟨rfl, UInt8.not_lt.mp printable, ordinary⟩

/-- No byte of a literal is below the blank. -/
theorem le_of_mem_quote {s : Bytes} : ∀ b ∈ quote s, 0x20 ≤ b := by
  have escaped : ∀ b ∈ s.flatMap escape, 0x20 ≤ b := by
    rw [List.forall_mem_flatMap]
    intro c _
    rcases escape_cases c with ⟨itself, literal⟩ | ⟨letter, digits, escape, low, literal⟩
    · rw [itself, List.forall_mem_singleton]
      exact literal.1
    · rw [escape, List.forall_mem_cons, List.forall_mem_cons]
      exact ⟨by decide, low, fun d inside => (literal d inside).1⟩
  rw [quote, List.forall_mem_cons, List.forall_mem_append, List.forall_mem_singleton]
  exact ⟨by decide, escaped, by decide⟩

end Json

namespace JsonValue

open Json

/-! ## One character -/

/-- The digits written for a control byte are those of its number. -/
theorem hexNumber?_control : ∀ n < 32,
    hexNumber? [byte '0', byte '0', hexDigit (n.toUInt8 / 16), hexDigit (n.toUInt8 % 16)] =
      some n := by
  decide

/-- A code unit below the surrogates is a code point. -/
theorem codePoint_of_lt {unit : Nat} (small : unit < 0xD800) (rest : Bytes) :
    codePoint unit rest = (unit, rest) :=
  if_neg fun high => Nat.not_lt.mpr high.1 small

theorem encode_of_lt {n : Nat} (small : n < 0x80) : encode n = [n.toUInt8] :=
  if_pos small

theorem escape?_control {b : UInt8} (control : b < 32) (rest : Bytes) :
    escape? (byte 'u' :: byte '0' :: byte '0' :: hexDigit (b / 16) :: hexDigit (b % 16) :: rest) =
      some ([b], rest) := by
  have small : b.toNat < 32 := control
  have digits := hexNumber?_control b.toNat small
  rw [Nat.toUInt8_eq, UInt8.ofNat_toNat] at digits
  rw [escape?, if_pos rfl, codeUnit?, digits, Option.map_some, Option.map_some]
  dsimp only
  rw [codePoint_of_lt (by omega), encode_of_lt (by omega), Nat.toUInt8_eq, UInt8.ofNat_toNat]

/-- **A reader takes what was written for a byte and gets the byte back.** -/
theorem character?_escape (b : UInt8) (rest : Bytes) :
    character? (escape b ++ rest) = some ([b], rest) := by
  -- a short escape is a fixed byte, for which both sides can be computed
  rw [escape]
  split
  · rename_i special
    rw [Bool.or_eq_true, decide_eq_true_eq, decide_eq_true_eq] at special
    rcases special with rfl | rfl <;> rfl
  iterate 5
    split
    · subst b
      rfl
  rename_i ordinary _ _ _ _ _
  rw [Bool.or_eq_true, decide_eq_true_eq, decide_eq_true_eq, not_or] at ordinary
  split
  · exact escape?_control ‹_› rest
  · rename_i printable
    have plain : ¬ (decide (b = byte '"') || decide (b < byte ' ')) = true := by
      rw [Bool.or_eq_true, decide_eq_true_eq, decide_eq_true_eq, not_or]
      exact ⟨ordinary.1, printable⟩
    rw [List.singleton_append, character?, if_neg plain, if_neg ordinary.2]

/-! ## Strings -/

/-- **A quoted text is read back**, up to its closing quotation mark. -/
theorem characters_quoted (text rest : Bytes) :
    Characters text (text.flatMap escape ++ byte '"' :: rest) rest := by
  induction text with
  | nil => exact .close
  | cons b text ih =>
      rw [List.flatMap_cons, List.append_assoc]
      exact .more (character?_escape b _) ih

/-! ## A reader of strings -/

/-- Four digits are taken for a code unit. -/
theorem length_of_codeUnit? {text rest : Bytes} {unit : Nat}
    (read : codeUnit? text = some (unit, rest)) : rest.length + 4 = text.length := by
  unfold codeUnit? at read
  split at read
  · obtain ⟨_, _, taken⟩ := Option.map_eq_some_iff.mp read
    obtain ⟨_, rfl⟩ := Prod.mk.inj taken
    rfl
  · cases read

/-- An escaped code unit is taken as a whole. -/
theorem length_of_escapedUnit? {text rest : Bytes} {unit : Nat}
    (read : escapedUnit? text = some (unit, rest)) : rest.length + 6 = text.length := by
  unfold escapedUnit? at read
  split at read
  · split at read
    · exact congrArg (· + 2) (length_of_codeUnit? read)
    · cases read
  · cases read

/-- A code point takes more of the text, or nothing. -/
theorem length_codePoint_le (unit : Nat) (rest : Bytes) :
    (codePoint unit rest).2.length ≤ rest.length := by
  unfold codePoint
  split
  · cases second : escapedUnit? rest with
    | none => exact Nat.le_refl _
    | some low =>
        have := length_of_escapedUnit? second
        dsimp only
        split
        · exact Nat.le.intro this
        · exact Nat.le_refl _
  · exact Nat.le_refl _

/-- What is behind a backslash takes something of the text. -/
theorem length_lt_of_escape? {text c rest : Bytes} (read : escape? text = some (c, rest)) :
    rest.length < text.length := by
  cases text with
  | nil => cases read
  | cons letter text =>
      rw [escape?] at read
      split at read
      · obtain ⟨⟨unit, behind⟩, digits, taken⟩ := Option.map_eq_some_iff.mp read
        obtain ⟨_, rfl⟩ := Prod.mk.inj taken
        have := length_of_codeUnit? digits
        have := length_codePoint_le unit behind
        rw [List.length_cons]
        omega
      · obtain ⟨_, _, taken⟩ := Option.map_eq_some_iff.mp read
        obtain ⟨_, rfl⟩ := Prod.mk.inj taken
        exact Nat.lt_succ_self _

/-- **A character takes something of the text.** -/
theorem length_lt_of_character? {text c rest : Bytes} (read : character? text = some (c, rest)) :
    rest.length < text.length := by
  cases text with
  | nil => cases read
  | cons b text =>
      rw [character?] at read
      split at read
      · cases read
      · split at read
        · exact Nat.lt_succ_of_lt (length_lt_of_escape? read)
        · obtain ⟨_, rfl⟩ := Prod.mk.inj (Option.some.inj read)
          exact Nat.lt_succ_self _

/-- Reads characters up to the closing quotation mark: gives the bytes that they stand for and the
text behind the mark. -/
def characters? (text : Bytes) : Option (Bytes × Bytes) :=
  match text with
  | [] => none
  | b :: rest =>
    if b = byte '"' then some ([], rest)
    else
      match first : character? (b :: rest) with
      | none => none
      | some (c, behind) =>
        have := length_lt_of_character? first
        (characters? behind).map fun (s, rest) => (c ++ s, rest)
termination_by text.length
decreasing_by assumption

/-- Reads a string: gives its text and what is behind it. -/
def string? : Bytes → Option (Bytes × Bytes)
  | [] => none
  | b :: behind => if b = byte '"' then characters? behind else none

/-- A quotation mark closes a string. -/
theorem character?_quote (rest : Bytes) : character? (byte '"' :: rest) = none := rfl

/-- The reader goes on behind a character. -/
theorem characters?_of_character? {text c behind : Bytes}
    (first : character? text = some (c, behind)) :
    characters? text = (characters? behind).map fun (s, rest) => (c ++ s, rest) := by
  cases text with
  | nil => cases first
  | cons b text =>
      have open' : b ≠ byte '"' := by
        rintro rfl
        rw [character?_quote] at first
        cases first
      rw [characters?, if_neg open']
      split
      · rename_i none
        cases none.symm.trans first
      · rename_i read
        obtain ⟨rfl, rfl⟩ := Prod.mk.inj (Option.some.inj (read.symm.trans first))
        rfl

/-- The reader finds what the grammar allows. -/
theorem characters?_eq_some_iff {text s rest : Bytes} :
    characters? text = some (s, rest) ↔ Characters s text rest := by
  constructor
  · intro read
    fun_induction characters? text generalizing s with
    | case1 => cases read
    | case2 behind =>
        obtain ⟨rfl, rfl⟩ := Prod.mk.inj (Option.some.inj read)
        exact .close
    | case3 => cases read
    | case4 b text _ c behind first _ ih =>
        obtain ⟨⟨s', rest'⟩, others, taken⟩ := Option.map_eq_some_iff.mp read
        obtain ⟨rfl, rfl⟩ := Prod.mk.inj taken
        exact .more first (ih others)
  · intro characters
    induction characters with
    | close => rw [characters?, if_pos rfl]
    | more first _ ih => rw [characters?_of_character? first, ih]; rfl

/-- **A string is read in one way only**: the text decides where it ends and what it is. -/
theorem Characters.unique {s s' front rest rest' : Bytes} (reads : Characters s front rest)
    (reads' : Characters s' front rest') : s = s' ∧ rest = rest' := by
  have same := (characters?_eq_some_iff.mpr reads).symm.trans (characters?_eq_some_iff.mpr reads')
  exact Prod.mk.inj (Option.some.inj same)

/-- **The reader finds the strings of the grammar.** -/
theorem string?_eq_some_iff {text s rest : Bytes} :
    string? text = some (s, rest) ↔ Reads (.text s) text rest := by
  constructor
  · intro read
    cases text with
    | nil => cases read
    | cons b behind =>
        rw [string?] at read
        split at read
        · subst b
          exact .text (characters?_eq_some_iff.mp read)
        · cases read
  · intro reads
    cases reads with
    | text characters => rw [string?, if_pos rfl, characters?_eq_some_iff.mpr characters]

/-! ## Literals and what is behind them -/

/-- A string literal is read up to its end. -/
theorem string?_quote (s rest : Bytes) : string? (quote s ++ rest) = some (s, rest) := by
  rw [string?_eq_some_iff, quote, List.cons_append, List.append_assoc]
  exact .text (characters_quoted s rest)

/-- **A string literal says itself where it ends.**  Whatever is behind it, a reader stops at its
end and gives back the text that was quoted, and the grammar allows no other reading.  No byte of
it is below the blank, and no literal is in front of another one, so different texts have
different literals. -/
theorem quote_delimits (s t rest : Bytes) :
    string? (quote s ++ rest) = some (s, rest) ∧
      (∀ s' rest', Reads (.text s') (quote s ++ rest) rest' ↔ s' = s ∧ rest' = rest) ∧
      (∀ b ∈ quote s, 0x20 ≤ b) ∧ (quote s = quote t ↔ s = t) ∧ (quote s <+: quote t ↔ s = t) := by
  have front : quote s <+: quote t → s = t := by
    rintro ⟨more, same⟩
    have read := string?_quote t []
    rw [List.append_nil, ← same, string?_quote] at read
    exact (Prod.mk.inj (Option.some.inj read)).1
  refine ⟨string?_quote s rest, ?only, le_of_mem_quote, ?distinct, ?prefixes⟩
  case only =>
    intro s' rest'
    rw [← string?_eq_some_iff, string?_quote, Option.some.injEq, Prod.mk.injEq, eq_comm,
      @eq_comm _ rest]
  case distinct =>
    exact ⟨fun same => front (same ▸ List.prefix_rfl), congrArg quote⟩
  case prefixes =>
    exact ⟨front, fun same => same ▸ List.prefix_rfl⟩

end JsonValue

end BlockSyntax
