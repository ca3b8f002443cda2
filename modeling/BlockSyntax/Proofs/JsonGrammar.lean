import BlockSyntax.Proofs.Decimals
import Mathlib.Data.Rat.Defs
import Mathlib.Algebra.Field.Rat

/-!
# The grammar of JSON

The texts of RFC 8259, read byte by byte, and the values that they stand for.  Inside a string
a byte at or above 0x80 stands for itself, so nothing is said about its encoding, and an escape
of four hexadecimal digits stands for the UTF-8 bytes of its code point.

A relation of the grammar says what can be read from the front of a text and which text is then
left.  Blanks may stand around every bracket, comma and colon, and around the whole value; a
text is JSON for a value if nothing but blanks is left behind it (`JsonValue.IsText`).

Nothing here knows how the library writes JSON.
-/

set_option autoImplicit false

namespace BlockSyntax

/-- A JSON value.  The members of an object keep their order, and a name may come twice. -/
inductive JsonValue where
  | null
  | bool (b : Bool)
  | number (q : ℚ)
  | text (s : Bytes)
  | array (elements : List JsonValue)
  | object (members : List (Bytes × JsonValue))

namespace JsonValue

/-! ## Numbers -/

/-- A whole number has no zero in front of other digits. -/
inductive Whole : Nat → Bytes → Prop where
  | zero : Whole 0 [byte '0']
  | digits {d : UInt8} {ds : Bytes} (first : IsDigit d) (nonzero : d ≠ byte '0')
      (more : ∀ b ∈ ds, IsDigit b) : Whole (numeral (d :: ds)) (d :: ds)

/-- The digits behind a point, if there is one. -/
inductive Fraction : ℚ → Bytes → Prop where
  | none : Fraction 0 []
  | digits {ds : Bytes} (nonempty : ds ≠ []) (digits : ∀ b ∈ ds, IsDigit b) :
      Fraction (numeral ds / 10 ^ ds.length) (byte '.' :: ds)

/-- The power of ten, if there is one. -/
inductive Exponent : ℤ → Bytes → Prop where
  | none : Exponent 0 []
  | positive {letter : UInt8} {sign ds : Bytes} (isLetter : letter ∈ ascii "eE")
      (isSign : sign = [] ∨ sign = ascii "+") (nonempty : ds ≠ [])
      (digits : ∀ b ∈ ds, IsDigit b) : Exponent (numeral ds) (letter :: (sign ++ ds))
  | negative {letter : UInt8} {ds : Bytes} (isLetter : letter ∈ ascii "eE") (nonempty : ds ≠ [])
      (digits : ∀ b ∈ ds, IsDigit b) : Exponent (-numeral ds) (letter :: byte '-' :: ds)

/-- A number without its sign. -/
inductive Magnitude : ℚ → Bytes → Prop where
  | mk {n : Nat} {f : ℚ} {e : ℤ} {whole fraction exponent : Bytes} (isWhole : Whole n whole)
      (isFraction : Fraction f fraction) (isExponent : Exponent e exponent) :
      Magnitude ((n + f) * 10 ^ e) (whole ++ (fraction ++ exponent))

/-- A number. -/
inductive Number : ℚ → Bytes → Prop where
  | positive {q : ℚ} {used : Bytes} (magnitude : Magnitude q used) : Number q used
  | negative {q : ℚ} {used : Bytes} (magnitude : Magnitude q used) :
      Number (-q) (byte '-' :: used)

/-! ## Strings -/

/-- The value of a hexadecimal digit. -/
def hexValue? (d : UInt8) : Option Nat :=
  if byte '0' ≤ d && d ≤ byte '9' then some (d - byte '0').toNat
  else if byte 'a' ≤ d && d ≤ byte 'f' then some ((d - byte 'a').toNat + 10)
  else if byte 'A' ≤ d && d ≤ byte 'F' then some ((d - byte 'A').toNat + 10)
  else none

/-- The number of hexadecimal digits. -/
def hexNumber? (digits : Bytes) : Option Nat :=
  digits.foldlM (fun n d => (hexValue? d).map (16 * n + ·)) 0

/-- The code unit of four hexadecimal digits, and the text behind them. -/
def codeUnit? : Bytes → Option (Nat × Bytes)
  | d₁ :: d₂ :: d₃ :: d₄ :: rest => (hexNumber? [d₁, d₂, d₃, d₄]).map (·, rest)
  | _ => none

/-- The code unit behind `\u`. -/
def escapedUnit? : Bytes → Option (Nat × Bytes)
  | backslash :: letter :: rest =>
    if backslash = byte '\\' && letter = byte 'u' then codeUnit? rest else none
  | _ => none

/-- The code point that starts with a code unit.  A high surrogate takes the low surrogate
behind it. -/
def codePoint (unit : Nat) (rest : Bytes) : Nat × Bytes :=
  if 0xD800 ≤ unit ∧ unit < 0xDC00 then
    match escapedUnit? rest with
    | some (low, rest') =>
      if 0xDC00 ≤ low ∧ low < 0xE000 then
        (0x10000 + 0x400 * (unit - 0xD800) + (low - 0xDC00), rest')
      else (unit, rest)
    | none => (unit, rest)
  else (unit, rest)

/-- The UTF-8 bytes of a code point. -/
def encode (n : Nat) : Bytes :=
  if n < 0x80 then [n.toUInt8]
  else if n < 0x800 then [(0xC0 + n / 0x40).toUInt8, (0x80 + n % 0x40).toUInt8]
  else if n < 0x10000 then
    [(0xE0 + n / 0x1000).toUInt8, (0x80 + n / 0x40 % 0x40).toUInt8,
      (0x80 + n % 0x40).toUInt8]
  else
    [(0xF0 + n / 0x40000).toUInt8, (0x80 + n / 0x1000 % 0x40).toUInt8,
      (0x80 + n / 0x40 % 0x40).toUInt8, (0x80 + n % 0x40).toUInt8]

/-- The byte that a letter behind a backslash stands for. -/
def escaped? (letter : UInt8) : Option UInt8 :=
  if letter = byte '"' || letter = byte '\\' || letter = byte '/' then some letter
  else if letter = byte 'b' then some 8
  else if letter = byte 'f' then some 12
  else if letter = byte 'n' then some 10
  else if letter = byte 'r' then some 13
  else if letter = byte 't' then some 9
  else none

/-- What is behind a backslash: the bytes that it stands for, and the text behind it. -/
def escape? : Bytes → Option (Bytes × Bytes)
  | [] => none
  | letter :: rest =>
    if letter = byte 'u' then
      (codeUnit? rest).map fun (unit, rest) =>
        (encode (codePoint unit rest).1, (codePoint unit rest).2)
    else (escaped? letter).map ([·], rest)

/-- One character inside quotation marks: the bytes that it stands for, and the text behind
it.  A quotation mark is none, and neither is a byte below a space. -/
def character? : Bytes → Option (Bytes × Bytes)
  | [] => none
  | b :: rest =>
    if b = byte '"' || b < byte ' ' then none
    else if b = byte '\\' then escape? rest
    else some ([b], rest)

/-- The characters of a string, from behind its opening quotation mark up to its closing
one. -/
inductive Characters : Bytes → Bytes → Bytes → Prop where
  | close {rest : Bytes} : Characters [] (byte '"' :: rest) rest
  | more {c s front behind rest : Bytes} (first : character? front = some (c, behind))
      (others : Characters s behind rest) : Characters (c ++ s) front rest

/-! ## Values -/

/-- Space, tab, line feed and carriage return. -/
def IsBlank (b : UInt8) : Prop := b ∈ ascii " \t\n\r"

/-- Nothing but blanks is between the text and its rest. -/
def Blanks (text rest : Bytes) : Prop :=
  ∃ blanks, text = blanks ++ rest ∧ ∀ b ∈ blanks, IsBlank b

mutual

/-- A value at the front of a text. -/
inductive Reads : JsonValue → Bytes → Bytes → Prop where
  | null {rest : Bytes} : Reads .null (ascii "null" ++ rest) rest
  | true {rest : Bytes} : Reads (.bool .true) (ascii "true" ++ rest) rest
  | false {rest : Bytes} : Reads (.bool .false) (ascii "false" ++ rest) rest
  | number {q : ℚ} {used rest : Bytes} (isNumber : Number q used) :
      Reads (.number q) (used ++ rest) rest
  | text {s text rest : Bytes} (characters : Characters s text rest) :
      Reads (.text s) (byte '"' :: text) rest
  | emptyArray {text rest : Bytes} (blanks : Blanks text (byte ']' :: rest)) :
      Reads (.array []) (byte '[' :: text) rest
  | array {v : JsonValue} {vs : List JsonValue} {text front more rest : Bytes}
      (blanks : Blanks text front) (first : Reads v front more)
      (others : ReadsElements vs more rest) : Reads (.array (v :: vs)) (byte '[' :: text) rest
  | emptyObject {text rest : Bytes} (blanks : Blanks text (byte '\x7d' :: rest)) :
      Reads (.object []) (byte '\x7b' :: text) rest
  | object {key : Bytes} {v : JsonValue} {ms : List (Bytes × JsonValue)}
      {text front more rest : Bytes} (blanks : Blanks text front)
      (first : ReadsMember key v front more) (others : ReadsMembers ms more rest) :
      Reads (.object ((key, v) :: ms)) (byte '\x7b' :: text) rest

/-- The elements behind the first, and the closing bracket. -/
inductive ReadsElements : List JsonValue → Bytes → Bytes → Prop where
  | close {text rest : Bytes} (blanks : Blanks text (byte ']' :: rest)) :
      ReadsElements [] text rest
  | more {v : JsonValue} {vs : List JsonValue} {text behind front more rest : Bytes}
      (blanks : Blanks text (byte ',' :: behind)) (blanks' : Blanks behind front)
      (first : Reads v front more) (others : ReadsElements vs more rest) :
      ReadsElements (v :: vs) text rest

/-- A name, a colon and a value. -/
inductive ReadsMember : Bytes → JsonValue → Bytes → Bytes → Prop where
  | mk {key : Bytes} {v : JsonValue} {text colon behind front rest : Bytes}
      (characters : Characters key text colon)
      (blanks : Blanks colon (byte ':' :: behind)) (blanks' : Blanks behind front)
      (value : Reads v front rest) : ReadsMember key v (byte '"' :: text) rest

/-- The members behind the first, and the closing bracket. -/
inductive ReadsMembers : List (Bytes × JsonValue) → Bytes → Bytes → Prop where
  | close {text rest : Bytes} (blanks : Blanks text (byte '\x7d' :: rest)) :
      ReadsMembers [] text rest
  | more {key : Bytes} {v : JsonValue} {ms : List (Bytes × JsonValue)}
      {text behind front more rest : Bytes} (blanks : Blanks text (byte ',' :: behind))
      (blanks' : Blanks behind front) (first : ReadsMember key v front more)
      (others : ReadsMembers ms more rest) : ReadsMembers ((key, v) :: ms) text rest

end

/-- The text is JSON for the value. -/
def IsText (v : JsonValue) (text : Bytes) : Prop :=
  ∃ front rest, Blanks text front ∧ Reads v front rest ∧ Blanks rest []

end JsonValue

end BlockSyntax
