import BlockSyntax.Json.Basic
import BlockSyntax.Proofs.Decimals
import Mathlib.Data.Bool.AllAny
import Mathlib.Data.List.Infix

/-!
# Plain JSON

A text of printable ASCII without quotation marks and backslashes stands inside quotation marks
as it is (`Plain`).  The writer adds nothing but printable ASCII and, between lines, line feeds
to what it quotes.  So a value all of whose strings are plain is written in printable ASCII
without any escape (`Json.IsPlain.render`), and such a text is valid UTF-8.

What holds of two texts and goes on to hold with any one part of a value in front of them holds
with the whole value in front of them, written in one layout and in the other
(`Json.write_keeps`).

What is written for a member of an object, at any depth, is a part of the text that is written
for the whole value (`Json.Holds.isInfix_write`).
-/

set_option autoImplicit false

namespace BlockSyntax

/-! ## Printable bytes -/

/-- A byte from the space to the tilde. -/
def IsPrintable (b : UInt8) : Prop := 0x20 ≤ b ∧ b ≤ 0x7E

/-- A text that is quoted without any escape. -/
def Plain (text : Bytes) : Prop := ∀ b ∈ text, IsPrintable b ∧ b ≠ byte '"' ∧ b ≠ byte '\\'

instance : DecidablePred IsPrintable := fun b => inferInstanceAs (Decidable (0x20 ≤ b ∧ b ≤ 0x7E))

-- The search through the text is named: another one would go through all the bytes there are.
instance : DecidablePred Plain := fun text =>
  List.decidableBAll (fun b => IsPrintable b ∧ b ≠ byte '"' ∧ b ≠ byte '\\') text

theorem Plain.append {text text' : Bytes} (first : Plain text) (second : Plain text') :
    Plain (text ++ text') :=
  List.forall_mem_append.mpr ⟨first, second⟩

theorem IsDigit.isPrintable {b : UInt8} (digit : IsDigit b) : IsPrintable b ∧ b ≠ byte '\\' := by
  obtain ⟨low, high⟩ := digit
  simp only [IsPrintable, byte, UInt8.le_iff_toNat_le, ne_eq, ← UInt8.toNat_inj] at *
  simp at *
  omega

namespace Json

/-- A printable byte that needs no escape stands for itself. -/
theorem escape_plain {b : UInt8} (printable : IsPrintable b) (noQuote : b ≠ byte '"')
    (noBackslash : b ≠ byte '\\') : escape b = [b] := by
  have notBelow : ¬ b < 0x20 := UInt8.not_lt.mpr printable.1
  have differ : ∀ c : UInt8, c < 0x20 → b ≠ c := by
    rintro c below rfl
    exact notBelow below
  rw [escape, if_neg (by simp [noQuote, noBackslash]), if_neg (differ _ (by decide)),
    if_neg (differ _ (by decide)), if_neg (differ _ (by decide)), if_neg (differ _ (by decide)),
    if_neg (differ _ (by decide)), if_neg notBelow]

/-- **A plain text is quoted without any escape.** -/
theorem quote_plain {text : Bytes} (plain : Plain text) :
    quote text = byte '"' :: (text ++ [byte '"']) := by
  have same : text.flatMap escape = text := by
    induction text with
    | nil => rfl
    | cons b text ih =>
        obtain ⟨⟨printable, noQuote, noBackslash⟩, others⟩ := List.forall_mem_cons.mp plain
        rw [List.flatMap_cons, escape_plain printable noQuote noBackslash, ih others]
        rfl
  rw [quote, same]

/-! ## The strings and members of a value -/

/-- A string that is in a value, as a text or as the name of a member. -/
inductive HasString (s : Bytes) : Json → Prop where
  | text : HasString s (.text s)
  | element {vs : List Json} {v : Json} (inside : v ∈ vs) (has : HasString s v) :
      HasString s (.array vs)
  | key {ms : List (Bytes × Json)} {v : Json} (inside : (s, v) ∈ ms) : HasString s (.object ms)
  | member {ms : List (Bytes × Json)} {name : Bytes} {v : Json} (inside : (name, v) ∈ ms)
      (has : HasString s v) : HasString s (.object ms)

/-- A member that is in an object of a value. -/
inductive Holds (name : Bytes) (v : Json) : Json → Prop where
  | here {ms : List (Bytes × Json)} (inside : (name, v) ∈ ms) : Holds name v (.object ms)
  | element {vs : List Json} {w : Json} (inside : w ∈ vs) (holds : Holds name v w) :
      Holds name v (.array vs)
  | member {ms : List (Bytes × Json)} {name' : Bytes} {w : Json} (inside : (name', w) ∈ ms)
      (holds : Holds name v w) : Holds name v (.object ms)

/-- All strings of a value are plain. -/
def IsPlain (v : Json) : Prop := ∀ s, HasString s v → Plain s

/-! ## The bytes that are written -/

namespace Layout

/-- A byte that may be written in a layout when nothing is escaped. -/
def Admits (layout : Layout) (b : UInt8) : Prop :=
  (IsPrintable b ∧ b ≠ byte '\\') ∨ (layout = .pretty ∧ b = lineFeed)

/-- A text of bytes that may be written. -/
def Clean (layout : Layout) (text : Bytes) : Prop := ∀ b ∈ text, layout.Admits b

variable {layout : Layout} {text text' : Bytes}

theorem Clean.append (first : layout.Clean text) (second : layout.Clean text') :
    layout.Clean (text ++ text') :=
  List.forall_mem_append.mpr ⟨first, second⟩

theorem Clean.cons {b : UInt8} (mark : IsPrintable b ∧ b ≠ byte '\\') (behind : layout.Clean text) :
    layout.Clean (b :: text) :=
  List.forall_mem_cons.mpr ⟨.inl mark, behind⟩

theorem clean_of_plain (layout : Layout) (plain : Plain text) : layout.Clean text :=
  fun b inside => .inl ⟨(plain b inside).1, (plain b inside).2.2⟩

theorem clean_decimal (layout : Layout) (n : Nat) : layout.Clean (decimal n) :=
  fun b inside => .inl (isDigit_of_mem_decimal b inside).isPrintable

theorem clean_quote (layout : Layout) (plain : Plain text) : layout.Clean (quote text) := by
  rw [quote_plain plain]
  exact .cons (by decide) ((layout.clean_of_plain plain).append (.cons (by decide) nofun))

theorem clean_lineBreak (layout : Layout) (depth : Nat) :
    layout.Clean (layout.lineBreak depth) := by
  cases layout with
  | compact => exact nofun
  | pretty =>
      refine List.forall_mem_cons.mpr ⟨.inr ⟨rfl, rfl⟩, ?_⟩
      intro b blank
      rw [List.eq_of_mem_replicate blank]
      exact .inl (by decide)

theorem clean_separator (layout : Layout) (depth : Nat) :
    layout.Clean (layout.separator depth) := by
  cases layout with
  | compact => exact compact.clean_of_plain (show Plain (ascii ", ") by decide)
  | pretty => exact .cons (by decide) (clean_lineBreak _ _)

end Layout

/-! ### From the parts to the whole -/

/-- What holds of two texts goes on to hold when a part of a value is written in front of both, in
one layout and in the other. -/
structure Layout.Keeps (layout layout' : Layout) (Rel : Bytes → Bytes → Prop) : Prop where
  /-- A bracket. -/
  bracket {b : UInt8} {text text' : Bytes} (listed : b ∈ ascii "[]\x7b\x7d") :
    Rel text text' → Rel (b :: text) (b :: text')
  /-- A number. -/
  decimal {text text' : Bytes} (n : Nat) :
    Rel text text' → Rel (decimal n ++ text) (decimal n ++ text')
  /-- What is between a name and its value. -/
  colon {text text' : Bytes} : Rel text text' → Rel (ascii ": " ++ text) (ascii ": " ++ text')
  /-- A line break. -/
  lineBreak {text text' : Bytes} (depth : Nat) :
    Rel text text' → Rel (layout.lineBreak depth ++ text) (layout'.lineBreak depth ++ text')
  /-- What is between two elements. -/
  separator {text text' : Bytes} (depth : Nat) :
    Rel text text' → Rel (layout.separator depth ++ text) (layout'.separator depth ++ text')

/-- The same for a string. -/
def KeepsQuoted (Rel : Bytes → Bytes → Prop) (s : Bytes) : Prop :=
  ∀ text text', Rel text text' → Rel (quote s ++ text) (quote s ++ text')

section Keeps

variable {layout layout' : Layout} {Rel : Bytes → Bytes → Prop}

mutual

/-- **What the parts of a value keep, the value keeps.** -/
theorem write_keeps (keeps : layout.Keeps layout' Rel) : ∀ (v : Json) (depth : Nat)
    {text text' : Bytes}, (∀ s, HasString s v → KeepsQuoted Rel s) → Rel text text' →
      Rel (v.write layout depth text) (v.write layout' depth text')
  | number n, depth, _, _, _, behind => by
      rw [write, write]
      exact keeps.decimal n behind
  | text s, depth, _, _, quoted, behind => by
      rw [write, write]
      exact quoted s .text _ _ behind
  | array [], depth, _, _, _, behind => by
      rw [write, write]
      exact keeps.bracket (by decide) (keeps.bracket (by decide) behind)
  | array (v :: vs), depth, _, _, quoted, behind => by
      have first : ∀ s, HasString s v → KeepsQuoted Rel s := fun s has =>
        quoted s (.element List.mem_cons_self has)
      have others : ∀ w ∈ vs, ∀ s, HasString s w → KeepsQuoted Rel s := fun w inside s has =>
        quoted s (.element (List.mem_cons_of_mem _ inside) has)
      have closed := keeps.lineBreak depth (keeps.bracket (b := byte ']') (by decide) behind)
      rw [write, write]
      exact keeps.bracket (by decide) (keeps.lineBreak _
        (write_keeps keeps v _ first (writeElements_keeps keeps vs _ others closed)))
  | object [], depth, _, _, _, behind => by
      rw [write, write]
      exact keeps.bracket (by decide) (keeps.bracket (by decide) behind)
  | object ((name, v) :: ms), depth, _, _, quoted, behind => by
      have named : KeepsQuoted Rel name := quoted name (.key List.mem_cons_self)
      have first : ∀ s, HasString s v → KeepsQuoted Rel s := fun s has =>
        quoted s (.member List.mem_cons_self has)
      have others : ∀ m ∈ ms, KeepsQuoted Rel m.1 ∧ ∀ s, HasString s m.2 → KeepsQuoted Rel s :=
        fun m inside => ⟨quoted m.1 (.key (List.mem_cons_of_mem _ inside)),
          fun s has => quoted s (.member (List.mem_cons_of_mem _ inside) has)⟩
      have closed := keeps.lineBreak depth (keeps.bracket (b := byte '\x7d') (by decide) behind)
      rw [write, write]
      exact keeps.bracket (by decide) (keeps.lineBreak _ (named _ _ (keeps.colon
        (write_keeps keeps v _ first (writeMembers_keeps keeps ms _ others closed)))))

theorem writeElements_keeps (keeps : layout.Keeps layout' Rel) : ∀ (vs : List Json) (depth : Nat)
    {text text' : Bytes}, (∀ v ∈ vs, ∀ s, HasString s v → KeepsQuoted Rel s) → Rel text text' →
      Rel (writeElements layout depth vs text) (writeElements layout' depth vs text')
  | [], depth, _, _, _, behind => by
      rw [writeElements, writeElements]
      exact behind
  | v :: vs, depth, _, _, quoted, behind => by
      obtain ⟨first, others⟩ := List.forall_mem_cons.mp quoted
      rw [writeElements, writeElements]
      exact keeps.separator depth
        (write_keeps keeps v _ first (writeElements_keeps keeps vs _ others behind))

theorem writeMembers_keeps (keeps : layout.Keeps layout' Rel) : ∀ (ms : List (Bytes × Json))
    (depth : Nat) {text text' : Bytes},
    (∀ m ∈ ms, KeepsQuoted Rel m.1 ∧ ∀ s, HasString s m.2 → KeepsQuoted Rel s) →
      Rel text text' → Rel (writeMembers layout depth ms text) (writeMembers layout' depth ms text')
  | [], depth, _, _, _, behind => by
      rw [writeMembers, writeMembers]
      exact behind
  | (name, v) :: ms, depth, _, _, quoted, behind => by
      obtain ⟨⟨named, first⟩, others⟩ := List.forall_mem_cons.mp quoted
      rw [writeMembers, writeMembers]
      exact keeps.separator depth (named _ _ (keeps.colon
        (write_keeps keeps v _ first (writeMembers_keeps keeps ms _ others behind))))

end

/-- What the parts of a value keep and nothing at all has, the whole text has. -/
theorem render_keeps (keeps : layout.Keeps layout' Rel) {v : Json}
    (quoted : ∀ s, HasString s v → KeepsQuoted Rel s) (nil : Rel [] []) :
    Rel (v.render layout) (v.render layout') :=
  write_keeps keeps v 0 quoted nil

end Keeps

open Layout (Clean)

section Write

variable (layout : Layout)

/-- Nothing but strings needs an escape. -/
theorem keeps_clean : layout.Keeps layout fun text _ => layout.Clean text where
  bracket listed := by
    have all : ∀ b ∈ ascii "[]\x7b\x7d", IsPrintable b ∧ b ≠ byte '\\' :=
      List.all_iff_forall_prop.mp (by decide)
    exact Clean.cons (all _ listed)
  decimal n := (layout.clean_decimal n).append
  colon := (layout.clean_of_plain (by decide)).append
  lineBreak depth := (layout.clean_lineBreak depth).append
  separator depth := (layout.clean_separator depth).append

/-- **A plain value is written without any escape.** -/
theorem IsPlain.render {v : Json} (plain : v.IsPlain) : layout.Clean (v.render layout) :=
  render_keeps (keeps_clean layout)
    (fun s has _ _ => (layout.clean_quote (plain s has)).append) nofun

/-! ## The parts of what is written -/

mutual

/-- What is written for a value is there in front of every text. -/
theorem write_append : ∀ (v : Json) (depth : Nat) (after : Bytes),
    v.write layout depth after = v.write layout depth [] ++ after
  | number n, depth, after => by rw [write, write, List.append_nil]
  | text s, depth, after => by rw [write, write, List.append_nil]
  | array [], depth, after | object [], depth, after => by rw [write, write, List.append_nil]
  | array (v :: vs), depth, after => by
      rw [write, write, write_append v, writeElements_append vs,
        write_append v _ (writeElements ..), writeElements_append vs _ (_ ++ [_])]
      simp only [List.append_assoc, List.cons_append, List.nil_append]
  | object ((name, v) :: ms), depth, after => by
      rw [write, write, write_append v, writeMembers_append ms, write_append v _ (writeMembers ..),
        writeMembers_append ms _ (_ ++ [_])]
      simp only [List.append_assoc, List.cons_append, List.nil_append]

theorem writeElements_append : ∀ (vs : List Json) (depth : Nat) (after : Bytes),
    writeElements layout depth vs after = writeElements layout depth vs [] ++ after
  | [], depth, after => by
      rw [writeElements, writeElements]
      rfl
  | v :: vs, depth, after => by
      rw [writeElements, writeElements, write_append v, writeElements_append vs,
        write_append v _ (writeElements ..)]
      simp only [List.append_assoc]

theorem writeMembers_append : ∀ (ms : List (Bytes × Json)) (depth : Nat) (after : Bytes),
    writeMembers layout depth ms after = writeMembers layout depth ms [] ++ after
  | [], depth, after => by
      rw [writeMembers, writeMembers]
      rfl
  | (name, v) :: ms, depth, after => by
      rw [writeMembers, writeMembers, write_append v, writeMembers_append ms,
        write_append v _ (writeMembers ..)]
      simp only [List.append_assoc]

end

/-- The text of a member at a depth. -/
def memberText (depth : Nat) (name : Bytes) (v : Json) : Bytes :=
  quote name ++ (ascii ": " ++ v.write layout depth [])

theorem writeMembers_cons (depth : Nat) (name : Bytes) (v : Json) (ms : List (Bytes × Json))
    (after : Bytes) :
    writeMembers layout depth ((name, v) :: ms) after =
      layout.separator depth ++
        (memberText layout depth name v ++ writeMembers layout depth ms after) := by
  rw [writeMembers, write_append layout v, memberText]
  simp only [List.append_assoc]

theorem write_object_cons (depth : Nat) (name : Bytes) (v : Json) (ms : List (Bytes × Json))
    (after : Bytes) :
    (object ((name, v) :: ms)).write layout depth after =
      byte '\x7b' :: (layout.lineBreak (depth + 1) ++ (memberText layout (depth + 1) name v ++
        writeMembers layout (depth + 1) ms (layout.lineBreak depth ++ byte '\x7d' :: after))) := by
  rw [write, write_append layout v, memberText]
  simp only [List.append_assoc]

variable {layout} {depth : Nat} {after : Bytes}

/-- A part of a text is a part of what is written in front of the text as well. -/
theorem isInfix_behind_two {part behind : Bytes} (inside : part <:+: behind)
    (first second : Bytes) : part <:+: first ++ (second ++ behind) :=
  inside.trans ((List.suffix_append ..).trans (List.suffix_append ..)).isInfix

theorem isInfix_writeElements {vs : List Json} {w : Json} (inside : w ∈ vs) :
    w.write layout depth [] <:+: writeElements layout depth vs after := by
  induction vs with
  | nil => cases inside
  | cons v vs ih =>
      rw [writeElements, write_append layout v]
      rcases List.mem_cons.mp inside with rfl | later
      · exact List.infix_append' ..
      · exact isInfix_behind_two (ih later) _ _

theorem isInfix_write_array {vs : List Json} {w : Json} (inside : w ∈ vs) :
    w.write layout (depth + 1) [] <:+: (array vs).write layout depth after := by
  cases vs with
  | nil => cases inside
  | cons v vs =>
      rw [write, write_append layout v]
      refine List.IsInfix.trans ?_ (List.suffix_cons ..).isInfix
      rcases List.mem_cons.mp inside with rfl | later
      · exact List.infix_append' ..
      · exact isInfix_behind_two (isInfix_writeElements later) _ _

theorem isInfix_writeMembers {ms : List (Bytes × Json)} {name : Bytes} {w : Json}
    (inside : (name, w) ∈ ms) :
    memberText layout depth name w <:+: writeMembers layout depth ms after := by
  induction ms with
  | nil => cases inside
  | cons m ms ih =>
      rw [writeMembers_cons]
      rcases List.mem_cons.mp inside with rfl | later
      · exact List.infix_append' ..
      · exact isInfix_behind_two (ih later) _ _

theorem isInfix_write_object {ms : List (Bytes × Json)} {name : Bytes} {w : Json}
    (inside : (name, w) ∈ ms) :
    memberText layout (depth + 1) name w <:+: (object ms).write layout depth after := by
  cases ms with
  | nil => cases inside
  | cons m ms =>
      rw [write_object_cons]
      refine List.IsInfix.trans ?_ (List.suffix_cons ..).isInfix
      rcases List.mem_cons.mp inside with rfl | later
      · exact List.infix_append' ..
      · exact isInfix_behind_two (isInfix_writeMembers later) _ _

theorem isInfix_memberText {name : Bytes} {w : Json} :
    w.write layout depth [] <:+: memberText layout depth name w :=
  isInfix_behind_two (List.infix_refl _) _ _

/-- **The text of a member is a part of the text of the value that holds it.** -/
theorem Holds.isInfix_write {name : Bytes} {v w : Json} (holds : Holds name v w) (layout : Layout)
    (depth : Nat) :
    ∃ depth', memberText layout depth' name v <:+: w.write layout depth [] := by
  induction holds generalizing depth with
  | here inside => exact ⟨_, isInfix_write_object inside⟩
  | element inside _ ih =>
      obtain ⟨depth', part⟩ := ih (depth + 1)
      exact ⟨depth', part.trans (isInfix_write_array inside)⟩
  | member inside _ ih =>
      obtain ⟨depth', part⟩ := ih (depth + 1)
      exact ⟨depth', (part.trans isInfix_memberText).trans (isInfix_write_object inside)⟩

end Write

end Json

/-! ## Encoding -/

/-- A byte below 0x80 is the encoding of the character with its number. -/
theorem utf8EncodeChar_ofUInt8 {b : UInt8} (small : b < 0x80) :
    String.utf8EncodeChar (Char.ofUInt8 b) = [b] := by
  have number : (Char.ofUInt8 b).val = b.toUInt32 := rfl
  have one : (Char.ofUInt8 b).utf8Size = 1 := by
    rw [Char.utf8Size_eq_one_iff, number, UInt32.le_iff_toNat_le, UInt8.toNat_toUInt32]
    exact Nat.le_of_lt_succ small
  rw [String.utf8EncodeChar_eq_singleton one, number]
  simp

/-- A text of bytes below 0x80 is valid UTF-8. -/
theorem isValidUTF8_of_lt {text : Bytes} (small : ∀ b ∈ text, b < 0x80) :
    text.toByteArray.IsValidUTF8 := by
  refine ⟨text.map Char.ofUInt8, congrArg List.toByteArray ?_⟩
  induction text with
  | nil => rfl
  | cons b text ih =>
      obtain ⟨first, others⟩ := List.forall_mem_cons.mp small
      rw [List.map_cons, List.flatMap_cons, utf8EncodeChar_ofUInt8 first, ← ih others]
      rfl

end BlockSyntax
