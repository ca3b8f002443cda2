import BlockSyntax.Text.Bytes

/-!
# Decimal numerals

A numeral is a string of digits, and every digit makes what is in front of it count ten times
as much (`numeral`).  `decimal` writes the numeral of a number: it consists of digits, its value
is the number (`numeral_decimal`), and it starts with a zero only if it is the zero
(`decimal_head`).
-/

set_option autoImplicit false

namespace BlockSyntax

/-- The bytes from zero to nine. -/
def IsDigit (b : UInt8) : Prop := byte '0' ≤ b ∧ b ≤ byte '9'

/-- The number a string of digits stands for. -/
def numeral (digits : Bytes) : Nat :=
  digits.foldl (fun n d => 10 * n + (d - byte '0').toNat) 0

@[simp] theorem numeral_nil : numeral [] = 0 := rfl

@[simp] theorem numeral_concat (digits : Bytes) (d : UInt8) :
    numeral (digits ++ [d]) = 10 * numeral digits + (d - byte '0').toNat := by
  rw [numeral, List.foldl_append]
  rfl

/-! ## The digits that are written -/

/-- The digit written for a number below ten is a digit and stands for that number. -/
theorem digit_spec : ∀ d < 10, IsDigit (byte '0' + d.toUInt8) ∧
    (byte '0' + d.toUInt8 - byte '0').toNat = d ∧ (byte '0' + d.toUInt8 = byte '0' → d = 0) := by
  unfold IsDigit
  decide

theorem decimal_of_lt {n : Nat} (small : n < 10) : decimal n = [byte '0' + n.toUInt8] := by
  rw [decimal, if_pos small]

theorem decimal_of_ge {n : Nat} (large : 10 ≤ n) :
    decimal n = decimal (n / 10) ++ [byte '0' + (n % 10).toUInt8] := by
  rw [decimal, if_neg (Nat.not_lt.mpr large)]

theorem isDigit_of_mem_decimal {n : Nat} : ∀ b ∈ decimal n, IsDigit b := by
  induction n using Nat.strongRecOn with
  | ind n ih =>
      intro b mem
      by_cases small : n < 10
      · rw [decimal_of_lt small, List.mem_singleton] at mem
        rw [mem]
        exact (digit_spec n small).1
      · rw [decimal_of_ge (Nat.not_lt.mp small), List.mem_append, List.mem_singleton] at mem
        rcases mem with front | rfl
        · exact ih (n / 10) (by omega) b front
        · exact (digit_spec (n % 10) (Nat.mod_lt _ (by decide))).1

/-- **The numeral written for a number stands for that number.** -/
theorem numeral_decimal (n : Nat) : numeral (decimal n) = n := by
  induction n using Nat.strongRecOn with
  | ind n ih =>
      by_cases small : n < 10
      · rw [decimal_of_lt small]
        have digit := (digit_spec n small).2.1
        simpa [numeral] using digit
      · have digit := (digit_spec (n % 10) (Nat.mod_lt _ (by decide))).2.1
        rw [decimal_of_ge (Nat.not_lt.mp small), numeral_concat, ih (n / 10) (by omega), digit]
        omega

/-- The numeral written for a number starts with a zero only if it is the zero. -/
theorem decimal_head (n : Nat) :
    ∃ d ds, decimal n = d :: ds ∧ (d = byte '0' → n = 0 ∧ ds = []) := by
  induction n using Nat.strongRecOn with
  | ind n ih =>
      by_cases small : n < 10
      · refine ⟨_, [], decimal_of_lt small, ?_⟩
        intro zero
        exact ⟨(digit_spec n small).2.2 zero, rfl⟩
      · obtain ⟨d, ds, front, first⟩ := ih (n / 10) (by omega)
        refine ⟨d, ds ++ [byte '0' + (n % 10).toUInt8], ?_, ?_⟩
        · rw [decimal_of_ge (Nat.not_lt.mp small), front]
          rfl
        · intro zero
          have := (first zero).1
          omega

end BlockSyntax
