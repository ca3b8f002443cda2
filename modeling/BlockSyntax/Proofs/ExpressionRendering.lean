import BlockSyntax.Proofs.Rendering

/-!
# Renderings of expressions are spellings

The canonical layout of a well-formed expression spells it, because parentheses around
every operator between operands are more than the levels ask for (`Expr.spells_layout`).
Every layout can be rendered, so the well-formed expressions are exactly those that can be
spelled (`Expr.wellFormed_iff_spelled`).
-/

set_option autoImplicit false

namespace BlockSyntax

open Layout

/-- The level at which an expression stands without parentheses around it. -/
def Expr.level : Expr → Nat
  | .binary _ operator _ => operator.kind.level
  | _ => 0

theorem TokenKind.level_le_loosestLevel (k : TokenKind) : k.level ≤ loosestLevel := by
  cases k <;> decide

theorem Expr.level_le_loosestLevel (e : Expr) : e.level ≤ loosestLevel := by
  cases e with
  | binary _ operator _ => exact operator.kind.level_le_loosestLevel
  | _ => exact Nat.zero_le _

/-- An operand may stand next to an operator of any level. -/
theorem Expr.spells_asOperand {e : Expr} {us rest : List Token}
    (inside : ∀ {us rest : List Token}, LaidOut e.layout us rest →
      ∃ used, us = used ++ rest ∧ Spells e.level e used)
    (laidOut : LaidOut (e.asOperand e.layout) us rest) :
    ∃ used, us = used ++ rest ∧ Spells 0 e used := by
  cases e with
  | binary left operator right =>
      obtain ⟨opening, vs, closing, rfl, opens, within, closes⟩ := laidOut_enclosed.mp laidOut
      obtain ⟨used, rfl, spells⟩ := inside within
      have whole := spells.mono (Expr.level_le_loosestLevel _)
      exact ⟨_, by simp, .primary (.parenthesized opens whole closes)⟩
  | literal _ | reference _ _ | call _ _ | unary _ _ => exact inside laidOut

mutual

/-- **The layout of a well-formed expression spells it.** -/
theorem Expr.spells_layout : ∀ (e : Expr), e.WellFormed → ∀ {us rest : List Token},
    LaidOut e.layout us rest → ∃ used, us = used ++ rest ∧ Spells e.level e used
  | .literal t, wellFormed, us, rest, laidOut => by
      rw [Expr.WellFormed] at wellFormed
      rw [Expr.layout, laidOut_token] at laidOut
      obtain ⟨vs, rfl, behind⟩ := laidOut
      obtain rfl := laidOut_nil.mp behind
      exact ⟨[t], rfl, .primary (.literal wellFormed)⟩
  | .reference name indices, wellFormed, us, rest, laidOut => by
      rw [Expr.WellFormed] at wellFormed
      rw [Expr.layout, laidOut_token] at laidOut
      obtain ⟨vs, rfl, behind⟩ := laidOut
      obtain ⟨used, rfl, spells⟩ := Expr.spells_indices indices wellFormed.2 behind
      exact ⟨name :: used, rfl, .primary (.reference wellFormed.1 spells)⟩
  | .call name arguments, wellFormed, us, rest, laidOut => by
      rw [Expr.WellFormed] at wellFormed
      rw [Expr.layout, laidOut_token] at laidOut
      obtain ⟨vs, rfl, behind⟩ := laidOut
      obtain ⟨opening, ws, closing, rfl, opens, inside, closes⟩ := laidOut_enclosed.mp behind
      obtain ⟨used, rfl, spells⟩ := Expr.spells_arguments arguments wellFormed.2 inside
      exact ⟨_, by simp, .primary (.call wellFormed.1 opens spells closes)⟩
  | .unary operator operand, wellFormed, us, rest, laidOut => by
      rw [Expr.WellFormed] at wellFormed
      rw [Expr.layout, laidOut_token] at laidOut
      obtain ⟨vs, rfl, behind⟩ := laidOut
      obtain ⟨used, rfl, spells⟩ :=
        Expr.spells_asOperand (Expr.spells_layout operand wellFormed.2) behind
      exact ⟨operator :: used, rfl, .unary wellFormed.1 spells⟩
  | .binary left operator right, wellFormed, us, rest, laidOut => by
      rw [Expr.WellFormed] at wellFormed
      rw [Expr.layout, laidOut_append] at laidOut
      obtain ⟨mid, front, behind⟩ := laidOut
      obtain ⟨vs, rfl, back⟩ := laidOut_token.mp behind
      obtain ⟨used, rfl, leftward⟩ :=
        Expr.spells_asOperand (Expr.spells_layout left wellFormed.1) front
      obtain ⟨used', rfl, rightward⟩ :=
        Expr.spells_asOperand (Expr.spells_layout right wellFormed.2.2) back
      have isOperator : operator.kind.level ≠ 0 := by
        simpa [TokenKind.isBinary] using wellFormed.2.1
      obtain ⟨below, kind⟩ := Nat.exists_eq_succ_of_ne_zero isOperator
      refine ⟨used ++ operator :: used', by simp, .binary kind ?_ ?_ ?_⟩
      · rw [Expr.level, kind]
        exact Nat.lt_succ_self below
      · exact leftward.mono (Nat.zero_le _)
      · exact rightward.mono (Nat.zero_le _)

theorem Expr.spells_indices : ∀ (es : List Expr), Expr.AllWellFormed es →
    ∀ {us rest : List Token}, LaidOut ((Expr.layouts es).flatMap bracketed) us rest →
      ∃ used, us = used ++ rest ∧ SpellsIndices es used
  | [], _, us, rest, laidOut => by
      rw [Expr.layouts] at laidOut
      obtain rfl := laidOut_nil.mp laidOut
      exact ⟨[], rfl, .nil⟩
  | e :: es, wellFormed, us, rest, laidOut => by
      rw [Expr.AllWellFormed] at wellFormed
      rw [Expr.layouts, List.flatMap_cons, laidOut_append] at laidOut
      obtain ⟨mid, front, behind⟩ := laidOut
      obtain ⟨opening, vs, closing, rfl, opens, inside, closes⟩ := laidOut_enclosed.mp front
      obtain ⟨used, rfl, head⟩ := Expr.spells_layout e wellFormed.1 inside
      obtain ⟨others, rfl, tail⟩ := Expr.spells_indices es wellFormed.2 behind
      have whole := head.mono e.level_le_loosestLevel
      exact ⟨_, by simp, .cons opens whole closes tail⟩

theorem Expr.spells_arguments : ∀ (es : List Expr), Expr.AllWellFormed es →
    ∀ {us rest : List Token}, LaidOut (commas (Expr.layouts es)) us rest →
      ∃ used, us = used ++ rest ∧ SpellsArguments es used
  | [], _, us, rest, laidOut => by
      rw [Expr.layouts] at laidOut
      obtain rfl := laidOut_nil.mp laidOut
      exact ⟨[], rfl, .nil⟩
  | [e], wellFormed, us, rest, laidOut => by
      rw [Expr.AllWellFormed] at wellFormed
      rw [Expr.layouts, Expr.layouts, commas] at laidOut
      obtain ⟨used, rfl, head⟩ := Expr.spells_layout e wellFormed.1 laidOut
      exact ⟨used, rfl, .last (head.mono e.level_le_loosestLevel)⟩
  | e :: d :: es, wellFormed, us, rest, laidOut => by
      rw [Expr.AllWellFormed] at wellFormed
      rw [Expr.layouts, Expr.layouts, commas, laidOut_append, ← Expr.layouts] at laidOut
      obtain ⟨mid, front, behind⟩ := laidOut
      obtain ⟨comma, vs, rfl, between, back⟩ := laidOut_mark.mp behind
      obtain ⟨used, rfl, head⟩ := Expr.spells_layout e wellFormed.1 front
      obtain ⟨others, rfl, tail⟩ := Expr.spells_arguments (d :: es) wellFormed.2 back
      exact ⟨_, by simp, .more (head.mono e.level_le_loosestLevel) between tail⟩

end

/-- **The well-formed expressions are those that can be spelled.** -/
theorem Expr.wellFormed_iff_spelled {e : Expr} :
    e.WellFormed ↔ ∃ used, Spells loosestLevel e used := by
  constructor
  · intro wellFormed
    have laidOut : LaidOut e.layout (e.layout.map Piece.render) [] :=
      ⟨_, (List.append_nil _).symm, renders_map_render e.layout⟩
    obtain ⟨used, _, spells⟩ := e.spells_layout wellFormed laidOut
    exact ⟨used, spells.mono e.level_le_loosestLevel⟩
  · rintro ⟨used, spells⟩
    exact spells.wellFormed

end BlockSyntax
