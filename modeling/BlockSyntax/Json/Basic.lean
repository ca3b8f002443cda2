import BlockSyntax.Json.Quoted

/-!
# JSON values and their layouts

A JSON value here is a natural number, a text, an array or an object whose members
keep their order.  It is written in one of two layouts.  The compact one is a single
line with a blank behind every comma and colon.  The pretty one starts a new line
for every element and member, indented by two blanks for each bracket that is open,
and puts the closing bracket on a line of its own.  An array or object without
elements is written without a line break in both.
-/

set_option autoImplicit false

namespace BlockSyntax

/-- A JSON value. -/
inductive Json where
  /-- A natural number. -/
  | number (n : Nat)
  /-- A text. -/
  | text (s : Bytes)
  /-- An array. -/
  | array (elements : List Json)
  /-- An object; members keep their order. -/
  | object (members : List (Bytes × Json))

namespace Json

/-- How a value is spread over lines. -/
inductive Layout where
  /-- One line. -/
  | compact
  /-- A line for each element and member. -/
  | pretty
  deriving DecidableEq

namespace Layout

/-- The line break at a depth: a line feed and two blanks for each open bracket, or
nothing in the compact layout. -/
def lineBreak : Layout → Nat → Bytes
  | compact, _ => []
  | pretty, depth => lineFeed :: List.replicate (2 * depth) (byte ' ')

/-- What separates two elements at a depth. -/
def separator : Layout → Nat → Bytes
  | compact, _ => ascii ", "
  | pretty, depth => byte ',' :: pretty.lineBreak depth

end Layout

mutual

/-- Writes a value at a depth, in front of the text that follows it. -/
def write (layout : Layout) (depth : Nat) : Json → Bytes → Bytes
  | number n, after => decimal n ++ after
  | text s, after => quote s ++ after
  | array [], after => ascii "[]" ++ after
  | array (v :: vs), after =>
    byte '[' :: (layout.lineBreak (depth + 1) ++
      write layout (depth + 1) v
        (writeElements layout (depth + 1) vs (layout.lineBreak depth ++ byte ']' :: after)))
  | object [], after => ascii "\x7b\x7d" ++ after
  | object ((key, v) :: ms), after =>
    byte '\x7b' :: (layout.lineBreak (depth + 1) ++ (quote key ++ (ascii ": " ++
      write layout (depth + 1) v
        (writeMembers layout (depth + 1) ms (layout.lineBreak depth ++ byte '\x7d' :: after)))))

/-- Writes the elements behind the first, each behind a separator. -/
def writeElements (layout : Layout) (depth : Nat) : List Json → Bytes → Bytes
  | [], after => after
  | v :: vs, after =>
    layout.separator depth ++ write layout depth v (writeElements layout depth vs after)

/-- Writes the members behind the first, each behind a separator. -/
def writeMembers (layout : Layout) (depth : Nat) : List (Bytes × Json) → Bytes → Bytes
  | [], after => after
  | (key, v) :: ms, after =>
    layout.separator depth ++ (quote key ++ (ascii ": " ++
      write layout depth v (writeMembers layout depth ms after)))

end

/-- The text of a value. -/
def render (layout : Layout) (v : Json) : Bytes := v.write layout 0 []

end Json

end BlockSyntax
