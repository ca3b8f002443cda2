import BlockSyntax.Location
import BlockSyntax.Proofs.Gaps
import Mathlib.Data.List.Induction

/-!
# What a position counts

The line of a position is one more than the line feeds in front of it, and its column is one
more than the bytes behind the last of them (`Position.Counts`).  Both are words of 32 bits,
and they do not wrap as long as the text is shorter than the greatest word: **moving over such
a text counts its lines and columns** (`Position.start_counts`).
-/

set_option autoImplicit false

namespace BlockSyntax

/-! ## The last line -/

/-- The bytes behind the last line feed of a text, all of them if there is none. -/
def lastLine (text : Bytes) : Bytes := (text.reverse.takeWhile (· ≠ lineFeed)).reverse

theorem lastLine_lineFeed (text : Bytes) : lastLine (text ++ [lineFeed]) = [] := by
  simp [lastLine]

theorem lastLine_append {b : UInt8} (other : b ≠ lineFeed) (text : Bytes) :
    lastLine (text ++ [b]) = lastLine text ++ [b] := by
  simp [lastLine, other]

theorem length_lastLine_le (text : Bytes) : (lastLine text).length ≤ text.length := by
  rw [lastLine, List.length_reverse]
  exact Nat.le_trans (List.takeWhile_sublist _).length_le (Nat.le_of_eq List.length_reverse)

/-! ## Positions -/

namespace Position

/-- The position counts the lines and columns of the text in front of it. -/
structure Counts (before : Bytes) (p : Position) : Prop where
  /-- One more than the line feeds. -/
  line : p.line.toNat = 1 + before.count lineFeed
  /-- One more than the bytes behind the last line feed. -/
  column : p.column.toNat = 1 + (lastLine before).length

theorem toNat_succ {n : UInt32} {k : Nat} (fits : n.toNat ≤ k) (bound : k + 1 < UInt32.size) :
    (n + 1).toNat = n.toNat + 1 := by
  rw [UInt32.toNat_add, UInt32.toNat_one, Nat.mod_eq_of_lt]
  exact Nat.lt_of_le_of_lt (Nat.succ_le_succ fits) bound

/-- Moving over a byte counts it. -/
theorem Counts.step {before : Bytes} {p : Position} (counts : Counts before p)
    (fits : before.length + 2 < UInt32.size) (b : UInt8) : Counts (before ++ [b]) (p.step b) := by
  have lines := List.count_le_length (a := lineFeed) (l := before)
  have columns := length_lastLine_le before
  rw [Position.step]
  split
  · rename_i feed
    subst feed
    have few : p.line.toNat ≤ before.length + 1 := by
      rw [counts.line]
      omega
    refine ⟨?_, ?_⟩
    · rw [toNat_succ few fits, counts.line, List.count_append, List.count_singleton_self,
        Nat.add_assoc]
    · rw [lastLine_lineFeed]
      rfl
  · rename_i other
    have few : p.column.toNat ≤ before.length + 1 := by
      rw [counts.column]
      omega
    refine ⟨?_, ?_⟩
    · rw [counts.line, List.count_append, List.count_singleton, if_neg (by simpa using other),
        Nat.add_zero]
    · rw [toNat_succ few fits, counts.column, lastLine_append other, List.length_append,
        List.length_singleton, Nat.add_assoc]

/-- **Moving over a text from its start counts its lines and columns**, and neither wraps when
the text is shorter than the greatest word. -/
theorem start_counts {text : Bytes} (fits : text.length + 1 < UInt32.size) :
    Counts text (start.advance text) := by
  induction text using List.reverseRecOn with
  | nil => exact ⟨rfl, rfl⟩
  | append_singleton text b ih =>
      rw [List.length_append, List.length_singleton] at fits
      rw [advance_append]
      exact (ih (Nat.lt_of_succ_lt fits)).step fits b

end Position

/-- The location is that of the byte behind the given ones in the file. -/
structure Location.Behind (file : FileId) (before : Bytes) (l : Location) : Prop where
  /-- It is in the file. -/
  inFile : l.file = file
  /-- Its line and column count what is in front. -/
  counts : Position.Counts before ⟨l.line, l.column⟩

end BlockSyntax
