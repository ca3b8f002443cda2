import BlockSyntax.Position
import BlockSyntax.Text.Character

/-!
# Gaps between tokens

Tokens are separated by gaps, which are made of blanks, line comments and block
comments, and may be empty.  Passing over the gap at the start of a text leads to the
byte behind it, or finds that a block comment is not closed; such a comment takes the
rest of the text with it.
-/

set_option autoImplicit false

namespace BlockSyntax

/-- What is found behind the blanks and comments at the start of a text. -/
inductive Gap where
  /-- All comments are closed; the position and the text behind the gap. -/
  | closed (behind : Position) (rest : Bytes)
  /-- A block comment is not closed; the position of its opener, and the end of the
  text. -/
  | unclosed (opener : Position) (final : Position)
  deriving DecidableEq

namespace Gap

/-- Where in a gap a byte is. -/
inductive Place where
  /-- Between comments. -/
  | between
  /-- Inside a line comment. -/
  | line
  /-- Inside a block comment opened at the given position. -/
  | block (opener : Position)
  deriving DecidableEq

/-- Passes over blanks and comments.  Between comments a slash opens a comment when a
second slash or a star follows it.  A line comment ends in front of a line feed, which
is a blank and is passed over with it; a block comment ends behind the first star that
a slash follows. -/
def pass : Place → Position → Bytes → Gap
  | .between, p, slash :: slash :: text => pass .line ((p.step slash).step slash) text
  | .between, p, slash :: star :: text => pass (.block p) ((p.step slash).step star) text
  | .between, p, b :: text =>
    if Character.isBlank b then pass .between (p.step b) text else .closed p (b :: text)
  | .line, p, b :: text => pass (if b = lineFeed then .between else .line) (p.step b) text
  | .block _, p, star :: slash :: text => pass .between ((p.step star).step slash) text
  | .block opener, p, b :: text => pass (.block opener) (p.step b) text
  | .block opener, p, [] => .unclosed opener p
  | _, p, [] => .closed p []

/-- The text behind a gap, empty when a comment is not closed. -/
def rest : Gap → Bytes
  | .closed _ r => r
  | .unclosed _ _ => []

/-- What is behind a gap is no longer than the text. -/
theorem length_rest_pass (place : Place) (p : Position) (text : Bytes) :
    (pass place p text).rest.length ≤ text.length := by
  fun_induction pass place p text <;> simp_all [rest] <;> omega

end Gap

end BlockSyntax
