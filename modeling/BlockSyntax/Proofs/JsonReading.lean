import BlockSyntax.Json.Basic
import BlockSyntax.Proofs.JsonStrings
import Mathlib.Data.Bool.AllAny

/-!
# Written JSON is read back

A value that is written, in either layout and at any depth, is the JSON text of that value and
of no other (`Json.isText_render`).  That the grammar reads it back is shown by going through
the value as the writer does (`Json.reads_write`).  That it reads nothing else needs to know
where each part ends: a first byte tells the sorts of values apart (`JsonValue.Reads.head`),
blanks end at the first byte that is none, and a number ends where no digit, point or exponent
follows (`JsonValue.NumberEnds`), which is the case in front of every bracket, comma and line
break.
-/

set_option autoImplicit false

namespace BlockSyntax

/-- Two stretches of one class with something else behind each are the same stretch. -/
theorem append_inj_of_class {p : UInt8 → Prop} {front front' rest rest' : Bytes}
    (all : ∀ b ∈ front, p b) (all' : ∀ b ∈ front', p b) (stops : ∀ b ∈ rest.head?, ¬ p b)
    (stops' : ∀ b ∈ rest'.head?, ¬ p b) (same : front ++ rest = front' ++ rest') :
    front = front' ∧ rest = rest' := by
  induction front generalizing front' with
  | nil =>
      cases front' with
      | nil => exact ⟨rfl, same⟩
      | cons b front' =>
          have first : rest.head? = some b := congrArg List.head? same
          exact absurd (all' b List.mem_cons_self) (stops b first)
  | cons b front ih =>
      cases front' with
      | nil =>
          have first : some b = rest'.head? := congrArg List.head? same
          exact absurd (all b List.mem_cons_self) (stops' b first.symm)
      | cons b' front' =>
          obtain ⟨rfl, others⟩ := List.cons.inj same
          rw [List.forall_mem_cons] at all all'
          obtain ⟨rfl, rfl⟩ := ih all.2 all'.2 others
          exact ⟨rfl, rfl⟩

theorem forall_head_cons {p : UInt8 → Prop} {b : UInt8} (first : p b) (text : Bytes) :
    ∀ c ∈ (b :: text).head?, p c := by
  intro c mem
  obtain rfl := Option.some.inj mem
  exact first

namespace JsonValue

/-! ## Blanks -/

instance : DecidablePred IsBlank := fun b => inferInstanceAs (Decidable (b ∈ ascii " \t\n\r"))

instance : DecidablePred IsDigit := fun b =>
  inferInstanceAs (Decidable (byte '0' ≤ b ∧ b ≤ byte '9'))

/-- The text does not start with a blank. -/
def NoBlank (text : Bytes) : Prop := ∀ b ∈ text.head?, ¬ IsBlank b

theorem noBlank_cons {b : UInt8} (other : ¬ IsBlank b) (text : Bytes) : NoBlank (b :: text) :=
  forall_head_cons other text

theorem blanks_refl (text : Bytes) : Blanks text text :=
  ⟨[], rfl, nofun⟩

theorem blanks_append {blanks : Bytes} (all : ∀ b ∈ blanks, IsBlank b) (rest : Bytes) :
    Blanks (blanks ++ rest) rest :=
  ⟨blanks, rfl, all⟩

theorem Blanks.unique {text rest rest' : Bytes} (reads : Blanks text rest)
    (reads' : Blanks text rest') (stops : NoBlank rest) (stops' : NoBlank rest') :
    rest = rest' := by
  obtain ⟨blanks, rfl, all⟩ := reads
  obtain ⟨blanks', same, all'⟩ := reads'
  exact (append_inj_of_class all all' stops stops' same).2

/-- Behind blanks there is one byte that is none. -/
theorem Blanks.byte_unique {b b' : UInt8} {blanks text rest : Bytes}
    (skips : Blanks (blanks ++ b :: text) (b' :: rest)) (all : ∀ c ∈ blanks, IsBlank c)
    (other : ¬ IsBlank b) (other' : ¬ IsBlank b') : b' = b ∧ rest = text :=
  List.cons.inj (skips.unique (blanks_append all _) (noBlank_cons other' rest)
    (noBlank_cons other text))

/-- No blanks are in front of a byte that is none. -/
theorem Blanks.byte_here {b b' : UInt8} {text rest : Bytes}
    (skips : Blanks (b :: text) (b' :: rest))
    (other : ¬ IsBlank b) (other' : ¬ IsBlank b') : b' = b ∧ rest = text :=
  @Blanks.byte_unique b b' [] text rest skips nofun other other'

/-! ## Numbers -/

/-- A number that ends in front of the text cannot go on there. -/
def NumberEnds (text : Bytes) : Prop :=
  ∀ b ∈ text.head?, ¬ IsDigit b ∧ b ≠ byte '.' ∧ b ∉ ascii "eE"

theorem Whole.isDigit {n : Nat} {used : Bytes} (whole : Whole n used) : ∀ b ∈ used, IsDigit b := by
  cases whole with
  | zero => exact List.forall_mem_singleton.mpr (by decide)
  | digits first _ more => exact List.forall_mem_cons.mpr ⟨first, more⟩

theorem Whole.numeral_eq {n : Nat} {used : Bytes} (whole : Whole n used) : numeral used = n := by
  cases whole with
  | zero => rfl
  | digits => rfl

theorem whole_decimal (n : Nat) : Whole n (decimal n) := by
  obtain ⟨d, ds, digits, zero⟩ := decimal_head n
  have all := isDigit_of_mem_decimal (n := n)
  have value := numeral_decimal n
  rw [digits] at all value ⊢
  rw [List.forall_mem_cons] at all
  by_cases first : d = byte '0'
  · obtain ⟨rfl, rfl⟩ := zero first
    rw [first]
    exact .zero
  · have whole := Whole.digits all.1 first all.2
    rwa [value] at whole

theorem number_decimal (n : Nat) : Number n (decimal n) := by
  have magnitude := Magnitude.mk (whole_decimal n) .none .none
  simpa using Number.positive magnitude

theorem exponentLetter_not_isDigit : ∀ letter ∈ ascii "eE", ¬ IsDigit letter :=
  List.all_iff_forall_prop.mp (by decide)

/-- No digit is behind the whole part of a number. -/
theorem Magnitude.stops {f : ℚ} {e : ℤ} {fraction exponent rest : Bytes}
    (isFraction : Fraction f fraction) (isExponent : Exponent e exponent)
    (ends : NumberEnds rest) : ∀ b ∈ (fraction ++ exponent ++ rest).head?, ¬ IsDigit b := by
  cases isFraction with
  | digits => exact forall_head_cons (by decide) _
  | none =>
      cases isExponent with
      | none => exact fun b first => (ends b first).1
      | positive isLetter => exact forall_head_cons (exponentLetter_not_isDigit _ isLetter) _
      | negative isLetter => exact forall_head_cons (exponentLetter_not_isDigit _ isLetter) _

/-- A written number is read as itself when no number goes on behind it. -/
theorem Number.unique_decimal {n : Nat} {q : ℚ} {used rest after : Bytes}
    (number : Number q used) (same : used ++ rest = decimal n ++ after) (ends : NumberEnds after)
    (ends' : NumberEnds rest) : q = n ∧ rest = after := by
  cases number with
  | negative magnitude =>
      obtain ⟨d, ds, digits, _⟩ := decimal_head n
      have digit : IsDigit d := isDigit_of_mem_decimal (n := n) d (digits ▸ List.mem_cons_self)
      rw [digits] at same
      obtain ⟨rfl, _⟩ := List.cons.inj same
      exact absurd digit (by decide)
  | positive magnitude =>
      cases magnitude with
      | @mk n' f e whole fraction exponent isWhole isFraction isExponent =>
          rw [List.append_assoc] at same
          obtain ⟨rfl, behind⟩ := append_inj_of_class isWhole.isDigit isDigit_of_mem_decimal
            (Magnitude.stops isFraction isExponent ends') (fun b first => (ends b first).1) same
          cases isFraction with
          | digits => exact absurd rfl (ends (byte '.') (behind ▸ rfl)).2.1
          | none =>
              cases isExponent with
              | none =>
                  have value : n' = n := isWhole.numeral_eq.symm.trans (numeral_decimal n)
                  refine ⟨?_, behind⟩
                  rw [value]
                  simp
              | positive isLetter => exact absurd isLetter (ends _ (behind ▸ rfl)).2.2
              | negative isLetter => exact absurd isLetter (ends _ (behind ▸ rfl)).2.2

/-! ## The first byte of a value -/

/-- The bytes that a value can start with. -/
def StartsWith : JsonValue → UInt8 → Prop
  | null, b => b = byte 'n'
  | bool _, b => b = byte 't' ∨ b = byte 'f'
  | number _, b => b = byte '-' ∨ IsDigit b
  | text _, b => b = byte '"'
  | array _, b => b = byte '['
  | object _, b => b = byte '\x7b'

theorem Whole.head {n : Nat} {whole : Bytes} (isWhole : Whole n whole) (rest : Bytes) :
    ∃ b, (whole ++ rest).head? = some b ∧ IsDigit b := by
  cases isWhole with
  | zero => exact ⟨_, rfl, by decide⟩
  | digits first => exact ⟨_, rfl, first⟩

/-- **A value starts with a byte of its sort.** -/
theorem Reads.head {v : JsonValue} {front rest : Bytes} (reads : Reads v front rest) :
    ∃ b, front.head? = some b ∧ v.StartsWith b := by
  cases reads with
  | null => exact ⟨_, rfl, rfl⟩
  | true => exact ⟨_, rfl, .inl rfl⟩
  | false => exact ⟨_, rfl, .inr rfl⟩
  | number isNumber =>
      cases isNumber with
      | negative => exact ⟨_, rfl, .inl rfl⟩
      | positive magnitude =>
          obtain ⟨isWhole, _, _⟩ := magnitude
          rw [List.append_assoc]
          obtain ⟨b, first, digit⟩ := isWhole.head (_ ++ rest)
          exact ⟨b, first, .inr digit⟩
  | text => exact ⟨_, rfl, rfl⟩
  | emptyArray => exact ⟨_, rfl, rfl⟩
  | array => exact ⟨_, rfl, rfl⟩
  | emptyObject => exact ⟨_, rfl, rfl⟩
  | object => exact ⟨_, rfl, rfl⟩

theorem Reads.startsWith {v : JsonValue} {b : UInt8} {text rest : Bytes}
    (reads : Reads v (b :: text) rest) : v.StartsWith b := by
  obtain ⟨c, first, starts⟩ := reads.head
  obtain rfl := Option.some.inj first
  exact starts

/-- No value starts with a blank or a closing bracket. -/
theorem StartsWith.not_blank_not_close {v : JsonValue} {b : UInt8} (starts : v.StartsWith b) :
    ¬ IsBlank b ∧ b ∉ ascii "]\x7d" := by
  have noDigit : ∀ b, IsBlank b ∨ b ∈ ascii "]\x7d" → ¬ IsDigit b := by
    intro b mem
    have both : ∀ b ∈ ascii " \t\n\r" ++ ascii "]\x7d", ¬ IsDigit b :=
      List.all_iff_forall_prop.mp (by decide)
    exact both b (List.mem_append.mpr mem)
  cases v with
  | number =>
      rcases starts with rfl | digit
      · decide
      · exact ⟨fun blank => noDigit b (.inl blank) digit, fun close => noDigit b (.inr close) digit⟩
  | bool =>
      rcases starts with rfl | rfl
      · decide
      · decide
  | _ =>
      rw [StartsWith] at starts
      subst starts
      decide

theorem Reads.noBlank {v : JsonValue} {front rest : Bytes} (reads : Reads v front rest) :
    NoBlank front := by
  obtain ⟨b, first, starts⟩ := reads.head
  intro c mem
  rw [first] at mem
  obtain rfl := Option.some.inj mem
  exact starts.not_blank_not_close.1

theorem noBlank_close {b : UInt8} (closes : b ∈ ascii "]\x7d") (text : Bytes) :
    NoBlank (b :: text) := by
  have notBlank : ∀ b ∈ ascii "]\x7d", ¬ IsBlank b :=
    List.all_iff_forall_prop.mp (by decide)
  exact noBlank_cons (notBlank b closes) text

/-- No value starts where a bracket closes. -/
theorem Reads.not_close {v : JsonValue} {b : UInt8} {text front rest : Bytes}
    (reads : Reads v front rest) (closes : b ∈ ascii "]\x7d")
    (skips : Blanks (b :: text) front) : False := by
  have same : front = b :: text :=
    skips.unique (blanks_refl _) reads.noBlank (noBlank_close closes text)
  rw [same] at reads
  exact reads.startsWith.not_blank_not_close.2 closes

theorem Reads.of_quote {v : JsonValue} {text rest : Bytes}
    (reads : Reads v (byte '"' :: text) rest) : ∃ s, v = .text s ∧ Characters s text rest := by
  have starts := reads.startsWith
  cases v with
  | text s =>
      generalize hfront : byte '"' :: text = front at reads
      cases reads with
      | text characters =>
          obtain ⟨_, rfl⟩ := List.cons.inj hfront
          exact ⟨s, rfl, characters⟩
  | _ => exact absurd starts (by rw [StartsWith]; decide)

theorem Reads.of_bracket {v : JsonValue} {text rest : Bytes}
    (reads : Reads v (byte '[' :: text) rest) :
    (v = .array [] ∧ Blanks text (byte ']' :: rest)) ∨
      ∃ first others front more, v = .array (first :: others) ∧ Blanks text front ∧
        Reads first front more ∧ ReadsElements others more rest := by
  have starts := reads.startsWith
  cases v with
  | array vs =>
      generalize hfront : byte '[' :: text = front at reads
      cases reads with
      | emptyArray blanks =>
          obtain ⟨_, rfl⟩ := List.cons.inj hfront
          exact .inl ⟨rfl, blanks⟩
      | array blanks first others =>
          obtain ⟨_, rfl⟩ := List.cons.inj hfront
          exact .inr ⟨_, _, _, _, rfl, blanks, first, others⟩
  | _ => exact absurd starts (by rw [StartsWith]; decide)

theorem Reads.of_brace {v : JsonValue} {text rest : Bytes}
    (reads : Reads v (byte '\x7b' :: text) rest) :
    (v = .object [] ∧ Blanks text (byte '\x7d' :: rest)) ∨
      ∃ key first others front more, v = .object ((key, first) :: others) ∧ Blanks text front ∧
        ReadsMember key first front more ∧ ReadsMembers others more rest := by
  have starts := reads.startsWith
  cases v with
  | object ms =>
      generalize hfront : byte '\x7b' :: text = front at reads
      cases reads with
      | emptyObject blanks =>
          obtain ⟨_, rfl⟩ := List.cons.inj hfront
          exact .inl ⟨rfl, blanks⟩
      | object blanks first others =>
          obtain ⟨_, rfl⟩ := List.cons.inj hfront
          exact .inr ⟨_, _, _, _, _, rfl, blanks, first, others⟩
  | _ => exact absurd starts (by rw [StartsWith]; decide)

theorem Reads.of_digit {v : JsonValue} {d : UInt8} {text rest : Bytes} (digit : IsDigit d)
    (reads : Reads v (d :: text) rest) :
    ∃ q used, v = .number q ∧ Number q used ∧ d :: text = used ++ rest := by
  have starts := reads.startsWith
  cases v with
  | number q =>
      generalize hfront : d :: text = front at reads
      cases reads with
      | number isNumber => exact ⟨q, _, rfl, isNumber, rfl⟩
  | bool =>
      rcases starts with rfl | rfl
      · exact absurd digit (by decide)
      · exact absurd digit (by decide)
  | _ =>
      rw [StartsWith] at starts
      subst starts
      exact absurd digit (by decide)

/-! ## What is behind a value -/

theorem numberEnds_cons {b : UInt8} (stops : ¬ IsDigit b ∧ b ≠ byte '.' ∧ b ∉ ascii "eE")
    (text : Bytes) : NumberEnds (b :: text) :=
  forall_head_cons stops text

/-- A number ends in front of blanks, and in front of what ends it behind them. -/
theorem Blanks.numberEnds {text rest : Bytes} (reads : Blanks text rest)
    (ends : NumberEnds rest) : NumberEnds text := by
  have stops : ∀ b ∈ ascii " \t\n\r", ¬ IsDigit b ∧ b ≠ byte '.' ∧ b ∉ ascii "eE" :=
    List.all_iff_forall_prop.mp (by decide)
  obtain ⟨blanks, rfl, all⟩ := reads
  cases blanks with
  | nil => exact ends
  | cons b blanks => exact numberEnds_cons (stops b (all b List.mem_cons_self)) _

theorem ReadsElements.numberEnds {vs : List JsonValue} {text rest : Bytes}
    (reads : ReadsElements vs text rest) : NumberEnds text := by
  cases reads with
  | close blanks => exact blanks.numberEnds (numberEnds_cons (by decide) _)
  | more blanks => exact blanks.numberEnds (numberEnds_cons (by decide) _)

theorem ReadsMembers.numberEnds {ms : List (Bytes × JsonValue)} {text rest : Bytes}
    (reads : ReadsMembers ms text rest) : NumberEnds text := by
  cases reads with
  | close blanks => exact blanks.numberEnds (numberEnds_cons (by decide) _)
  | more blanks => exact blanks.numberEnds (numberEnds_cons (by decide) _)

end JsonValue

namespace Json

open JsonValue

/-! ## Reading what was written -/

mutual

/-- The value that is written. -/
def value : Json → JsonValue
  | number n => .number n
  | text s => .text s
  | array elements => .array (values elements)
  | object members => .object (memberValues members)

/-- The values of several elements. -/
def values : List Json → List JsonValue
  | [] => []
  | v :: vs => value v :: values vs

/-- The values of several members, under their names. -/
def memberValues : List (Bytes × Json) → List (Bytes × JsonValue)
  | [] => []
  | (key, v) :: ms => (key, value v) :: memberValues ms

end

theorem isBlank_lineBreak (layout : Layout) (depth : Nat) :
    ∀ b ∈ layout.lineBreak depth, IsBlank b := by
  cases layout with
  | compact => exact nofun
  | pretty =>
      intro b mem
      rw [Layout.lineBreak, List.mem_cons] at mem
      rcases mem with rfl | mem
      · decide
      · rw [List.eq_of_mem_replicate mem]
        decide

theorem isBlank_space : ∀ b ∈ ascii " ", IsBlank b :=
  List.forall_mem_singleton.mpr (by decide)

/-- A separator is a comma and blanks. -/
theorem exists_separator (layout : Layout) (depth : Nat) :
    ∃ blanks, layout.separator depth = byte ',' :: blanks ∧ ∀ b ∈ blanks, IsBlank b := by
  cases layout with
  | compact => exact ⟨ascii " ", rfl, isBlank_space⟩
  | pretty => exact ⟨_, rfl, isBlank_lineBreak .pretty depth⟩

theorem quote_append (key rest : Bytes) :
    quote key ++ rest = byte '"' :: (key.flatMap escape ++ byte '"' :: rest) := by
  rw [quote, List.cons_append, List.append_assoc]
  rfl

theorem readsMember_write {key : Bytes} {v : JsonValue} {front rest : Bytes}
    (reads : Reads v front rest) :
    ReadsMember key v (quote key ++ (ascii ": " ++ front)) rest := by
  have colon : Blanks (ascii " " ++ front) front := blanks_append isBlank_space front
  rw [quote_append]
  exact .mk (characters_quoted key _) (blanks_refl _) colon reads

mutual

/-- **What is written is read as the value that was written.** -/
theorem reads_write (layout : Layout) (depth : Nat) (after : Bytes) :
    ∀ v : Json, Reads v.value (v.write layout depth after) after
  | .number n => .number (number_decimal n)
  | .text s => by
      rw [write, quote_append]
      exact .text (characters_quoted s after)
  | .array [] => .emptyArray (blanks_refl _)
  | .array (v :: vs) => by
      rw [write]
      exact .array (blanks_append (isBlank_lineBreak layout _) _)
        (reads_write layout (depth + 1) _ v)
        (reads_writeElements layout (depth + 1) after (isBlank_lineBreak layout depth) vs)
  | .object [] => .emptyObject (blanks_refl _)
  | .object ((key, v) :: ms) => by
      rw [write]
      exact .object (blanks_append (isBlank_lineBreak layout _) _)
        (readsMember_write (reads_write layout (depth + 1) _ v))
        (reads_writeMembers layout (depth + 1) after (isBlank_lineBreak layout depth) ms)

theorem reads_writeElements (layout : Layout) (depth : Nat) (after : Bytes) {blanks : Bytes}
    (all : ∀ b ∈ blanks, IsBlank b) : ∀ vs : List Json,
    ReadsElements (values vs)
      (writeElements layout depth vs (blanks ++ byte ']' :: after)) after
  | [] => .close (blanks_append all _)
  | v :: vs => by
      obtain ⟨gap, separator, gapAll⟩ := exists_separator layout depth
      rw [writeElements, separator, List.cons_append]
      exact .more (blanks_refl _) (blanks_append gapAll _) (reads_write layout depth _ v)
        (reads_writeElements layout depth after all vs)

theorem reads_writeMembers (layout : Layout) (depth : Nat) (after : Bytes) {blanks : Bytes}
    (all : ∀ b ∈ blanks, IsBlank b) : ∀ ms : List (Bytes × Json),
    ReadsMembers (memberValues ms)
      (writeMembers layout depth ms (blanks ++ byte '\x7d' :: after)) after
  | [] => .close (blanks_append all _)
  | (key, v) :: ms => by
      obtain ⟨gap, separator, gapAll⟩ := exists_separator layout depth
      rw [writeMembers, separator, List.cons_append]
      exact .more (blanks_refl _) (blanks_append gapAll _)
        (readsMember_write (reads_write layout depth _ v))
        (reads_writeMembers layout depth after all ms)

end

/-! ## Reading nothing else -/

theorem noBlank_write (layout : Layout) (depth : Nat) (after : Bytes) (v : Json) :
    NoBlank (v.write layout depth after) :=
  (reads_write layout depth after v).noBlank

/-- What a bracket or a separator is followed by, when blanks and a value are. -/
theorem front_eq_write {layout : Layout} {depth : Nat} {after blanks front rest : Bytes}
    {v : Json} {w : JsonValue} (all : ∀ b ∈ blanks, IsBlank b)
    (skips : Blanks (blanks ++ v.write layout depth after) front) (reads : Reads w front rest) :
    front = v.write layout depth after :=
  skips.unique (blanks_append all _) reads.noBlank (noBlank_write layout depth after v)

/-- No bracket closes where a value was written. -/
theorem not_close_write {layout : Layout} {depth : Nat} {after blanks rest : Bytes} {b : UInt8}
    {v : Json} (closes : b ∈ ascii "]\x7d") (all : ∀ b ∈ blanks, IsBlank b)
    (skips : Blanks (blanks ++ v.write layout depth after) (b :: rest)) : False := by
  have same : b :: rest = v.write layout depth after :=
    skips.unique (blanks_append all _) (noBlank_close closes rest)
      (noBlank_write layout depth after v)
  have here : Blanks (b :: rest) (v.write layout depth after) := same ▸ blanks_refl _
  exact (reads_write layout depth after v).not_close closes here

/-- A member is read under its name, and its value where that was written. -/
theorem readsMember_unique {key key' : Bytes} {v : JsonValue} {blanks text front rest : Bytes}
    (all : ∀ b ∈ blanks, IsBlank b)
    (skips : Blanks (blanks ++ (quote key ++ (ascii ": " ++ text))) front) (starts : NoBlank text)
    (reads : ReadsMember key' v front rest) : key' = key ∧ Reads v text rest := by
  have space : Blanks (ascii " " ++ text) text := blanks_append isBlank_space text
  rw [quote_append] at skips
  cases reads with
  | mk characters colon behind value =>
      obtain ⟨_, rfl⟩ := skips.byte_unique all (by decide) (by decide)
      obtain ⟨rfl, rfl⟩ := characters.unique (characters_quoted key _)
      obtain ⟨_, rfl⟩ := colon.byte_here (by decide) (by decide)
      rw [behind.unique space value.noBlank starts] at value
      exact ⟨rfl, value⟩

mutual

/-- **Nothing but the value that was written is read.** -/
theorem reads_write_unique (layout : Layout) (depth : Nat) {after rest : Bytes} {w : JsonValue}
    (ends : NumberEnds after) (ends' : NumberEnds rest) :
    ∀ v : Json, Reads w (v.write layout depth after) rest → w = v.value ∧ rest = after
  | .number n, reads => by
      obtain ⟨d, ds, digits, _⟩ := decimal_head n
      have digit : IsDigit d := isDigit_of_mem_decimal (n := n) d (digits ▸ List.mem_cons_self)
      rw [write, digits, List.cons_append] at reads
      obtain ⟨q, used, rfl, number, same⟩ := reads.of_digit digit
      rw [← List.cons_append, ← digits] at same
      obtain ⟨rfl, rfl⟩ := number.unique_decimal same.symm ends ends'
      exact ⟨rfl, rfl⟩
  | .text s, reads => by
      rw [write, quote_append] at reads
      obtain ⟨s', rfl, characters⟩ := reads.of_quote
      obtain ⟨rfl, rfl⟩ := characters.unique (characters_quoted s after)
      exact ⟨rfl, rfl⟩
  | .array [], reads => by
      rcases Reads.of_bracket reads with
        ⟨rfl, blanks⟩ | ⟨v', vs', front, more, rfl, blanks, first, _⟩
      · exact ⟨rfl, (blanks.byte_here (by decide) (by decide)).2⟩
      · exact (first.not_close (by decide) blanks).elim
  | .array (v :: vs), reads => by
      rw [write] at reads
      have all := isBlank_lineBreak layout depth
      have all' := isBlank_lineBreak layout (depth + 1)
      rcases reads.of_bracket with
        ⟨rfl, blanks⟩ | ⟨v', vs', front, more, rfl, blanks, first, others⟩
      · exact (not_close_write (by decide) all' blanks).elim
      · rw [front_eq_write all' blanks first] at first
        obtain ⟨rfl, rfl⟩ := reads_write_unique layout (depth + 1)
          (reads_writeElements layout (depth + 1) after all vs).numberEnds others.numberEnds v first
        obtain ⟨rfl, rfl⟩ := reads_writeElements_unique layout (depth + 1) all vs others
        exact ⟨rfl, rfl⟩
  | .object [], reads => by
      rcases Reads.of_brace reads with
        ⟨rfl, blanks⟩ | ⟨key', v', ms', front, more, rfl, blanks, first, _⟩
      · exact ⟨rfl, (blanks.byte_here (by decide) (by decide)).2⟩
      · cases first with
        | mk => exact absurd (blanks.byte_here (by decide) (by decide)).1 (by decide)
  | .object ((key, v) :: ms), reads => by
      rw [write] at reads
      have all := isBlank_lineBreak layout depth
      have all' := isBlank_lineBreak layout (depth + 1)
      rcases reads.of_brace with
        ⟨rfl, blanks⟩ | ⟨key', v', ms', front, more, rfl, blanks, first, others⟩
      · rw [quote_append] at blanks
        exact absurd (blanks.byte_unique all' (by decide) (by decide)).1 (by decide)
      · obtain ⟨rfl, first⟩ := readsMember_unique all' blanks (noBlank_write layout _ _ v) first
        obtain ⟨rfl, rfl⟩ := reads_write_unique layout (depth + 1)
          (reads_writeMembers layout (depth + 1) after all ms).numberEnds others.numberEnds v first
        obtain ⟨rfl, rfl⟩ := reads_writeMembers_unique layout (depth + 1) all ms others
        exact ⟨rfl, rfl⟩

theorem reads_writeElements_unique (layout : Layout) (depth : Nat) {after rest blanks : Bytes}
    {ws : List JsonValue} (all : ∀ b ∈ blanks, IsBlank b) : ∀ vs : List Json,
    ReadsElements ws (writeElements layout depth vs (blanks ++ byte ']' :: after)) rest →
      ws = values vs ∧ rest = after
  | [], reads => by
      cases reads with
      | close skips => exact ⟨rfl, (skips.byte_unique all (by decide) (by decide)).2⟩
      | more skips =>
          exact absurd (skips.byte_unique all (by decide) (by decide)).1 (by decide)
  | v :: vs, reads => by
      obtain ⟨gap, separator, gapAll⟩ := exists_separator layout depth
      rw [writeElements, separator, List.cons_append] at reads
      cases reads with
      | close skips => exact absurd (skips.byte_here (by decide) (by decide)).1 (by decide)
      | more skips skips' first others =>
          obtain ⟨_, rfl⟩ := skips.byte_here (by decide) (by decide)
          rw [front_eq_write gapAll skips' first] at first
          obtain ⟨rfl, rfl⟩ := reads_write_unique layout depth
            (reads_writeElements layout depth after all vs).numberEnds others.numberEnds v first
          obtain ⟨rfl, rfl⟩ := reads_writeElements_unique layout depth all vs others
          exact ⟨rfl, rfl⟩

theorem reads_writeMembers_unique (layout : Layout) (depth : Nat) {after rest blanks : Bytes}
    {ws : List (Bytes × JsonValue)} (all : ∀ b ∈ blanks, IsBlank b) : ∀ ms : List (Bytes × Json),
    ReadsMembers ws (writeMembers layout depth ms (blanks ++ byte '\x7d' :: after)) rest →
      ws = memberValues ms ∧ rest = after
  | [], reads => by
      cases reads with
      | close skips => exact ⟨rfl, (skips.byte_unique all (by decide) (by decide)).2⟩
      | more skips =>
          exact absurd (skips.byte_unique all (by decide) (by decide)).1 (by decide)
  | (key, v) :: ms, reads => by
      obtain ⟨gap, separator, gapAll⟩ := exists_separator layout depth
      rw [writeMembers, separator, List.cons_append] at reads
      cases reads with
      | close skips => exact absurd (skips.byte_here (by decide) (by decide)).1 (by decide)
      | more skips skips' first others =>
          obtain ⟨_, rfl⟩ := skips.byte_here (by decide) (by decide)
          obtain ⟨rfl, first⟩ :=
            readsMember_unique gapAll skips' (noBlank_write layout depth _ v) first
          obtain ⟨rfl, rfl⟩ := reads_write_unique layout depth
            (reads_writeMembers layout depth after all ms).numberEnds others.numberEnds v first
          obtain ⟨rfl, rfl⟩ := reads_writeMembers_unique layout depth all ms others
          exact ⟨rfl, rfl⟩

end

/-- **A written value is JSON for that value and for no other.** -/
theorem isText_render {layout : Layout} {v : Json} {w : JsonValue} :
    IsText w (v.render layout) ↔ w = v.value := by
  constructor
  · intro isText
    obtain ⟨front, rest, skips, reads, trailing⟩ := isText
    have none : NumberEnds [] := nofun
    rw [skips.unique (blanks_refl _) reads.noBlank (noBlank_write layout 0 [] v)] at reads
    exact (reads_write_unique layout 0 none (trailing.numberEnds none) v reads).1
  · intro same
    subst same
    exact ⟨_, [], blanks_refl _, reads_write layout 0 [] v, blanks_refl _⟩

end Json

end BlockSyntax
