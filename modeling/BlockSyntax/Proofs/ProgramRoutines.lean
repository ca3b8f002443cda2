import BlockSyntax.Grammar.Program
import BlockSyntax.Proofs.StatementReading

/-!
# The routines of the program grammar

What every routine that reads a declaration gives, as an equivalence over the parts it
reads, down to the loop over the items of a program.
-/

set_option autoImplicit false

namespace BlockSyntax

open Reply

namespace Grammar

/-! ## Functions -/

/-- A parameter with its type. -/
def NextParam (p : Param) (us rest : List Token) : Prop :=
  ∃ colon, us = p.name :: colon :: p.type :: rest ∧ p.name.kind = .identifier ∧
    colon.kind = .colon ∧ p.type.kind.isType

theorem gives_param {tokens rest : List Token} {p : Param} :
    (param tokens).Gives p rest ↔ NextParam p tokens rest := by
  unfold param
  constructor
  · simp only [gives_bind, gives_takeName, gives_takeAfter, gives_takeType, gives_ok]
    rintro ⟨name, _, _, ⟨rfl, named⟩, colon, _, _, ⟨rfl, kind⟩, type, us, _, ⟨rfl, typed⟩, rfl, rfl⟩
    exact ⟨colon, rfl, named, kind, typed⟩
  · rintro ⟨colon, rfl, named, kind, typed⟩
    refine (gives_takeName.mpr ⟨rfl, named⟩).bind fun _ => ?_
    refine (gives_takeAfter.mpr ⟨rfl, kind⟩).bind fun _ => ?_
    exact (gives_takeType.mpr ⟨rfl, typed⟩).bind fun _ => ⟨rfl, rfl⟩

theorem gives_params {tokens rest : List Token} {ps : List Param} :
    (params tokens).Gives ps rest ↔
      Parenthesized (SeparatedUpTo .rightParen NextParam) ps tokens rest := by
  unfold params
  refine (gives_enclosed (fun _ _ _ => gives_takeAfter) (fun _ _ _ => gives_takeAfter) ?_).trans
    exists_eq_left
  intro us _ ps closing rest closes
  exact gives_separatedUpTo (fun _ _ _ _ => gives_param) closes (by decide)

/-- A function that opened with `begin` is closed by `function`, with an `end` in front of
it unless the body is a block. -/
theorem gives_closingBegun {body : Stmt} {tokens rest : List Token} {u : Unit} :
    (closingBegun body tokens).Gives u rest ↔
      (body.isBlock ∧ ∃ word, tokens = word :: rest ∧ word.kind = .kwFunction) ∨
        (¬ body.isBlock ∧ ∃ ended word, tokens = ended :: word :: rest ∧ ended.kind = .kwEnd ∧
          word.kind = .kwFunction) := by
  unfold closingBegun
  split
  case isTrue block => simp [block]
  case isFalse other =>
    constructor
    · simp only [gives_bind, gives_takeAfter, gives_ok]
      rintro ⟨ended, _, _, ⟨rfl, kind⟩, word, us, _, ⟨rfl, wordKind⟩, _, rfl⟩
      exact .inr ⟨other, _, _, rfl, kind, wordKind⟩
    · rintro (⟨block, _⟩ | ⟨_, ended, word, rfl, kind, wordKind⟩)
      · exact absurd block other
      · refine (gives_takeAfter.mpr ⟨rfl, kind⟩).bind fun _ => ?_
        exact (gives_takeAfter.mpr ⟨rfl, wordKind⟩).bind fun _ => ⟨rfl, rfl⟩

theorem gives_function {opened : Bool} {tokens rest : List Token} {f : Function} :
    (function opened tokens).Gives f rest ↔
      ∃ us vs ws colon, tokens = f.name :: us ∧ f.name.kind = .identifier ∧
        (params us).Gives f.params (colon :: f.returnType :: vs) ∧ colon.kind = .colon ∧
        f.returnType.kind.isType ∧ ReadsStmt f.body vs ws ∧
        (if opened then (closingBegun f.body ws).Gives () rest
          else (closing .kwFunction ws).Gives () rest) := by
  unfold function
  constructor
  · intro gives
    obtain ⟨name, us, _, taken, gives⟩ := gives_bind.mp gives
    obtain ⟨rfl, named⟩ := gives_takeName.mp taken
    obtain ⟨ps, _, _, inside, gives⟩ := gives_bind.mp gives
    obtain ⟨colon, _, _, taken, gives⟩ := gives_bind.mp gives
    obtain ⟨rfl, kind⟩ := gives_takeAfter.mp taken
    obtain ⟨type, vs, _, taken, gives⟩ := gives_bind.mp gives
    obtain ⟨rfl, typed⟩ := gives_takeType.mp taken
    obtain ⟨body, ws, _, reads, gives⟩ := gives_bind.mp gives
    obtain ⟨_, _, _, closed, gives⟩ := gives_bind.mp gives
    obtain ⟨rfl, rfl⟩ := gives_ok.mp gives
    refine ⟨us, vs, ws, colon, rfl, named, inside, kind, typed, reads, ?_⟩
    cases opened with
    | true => simpa using closed
    | false => simpa using closed
  · rintro ⟨us, vs, ws, colon, rfl, named, inside, kind, typed, gives, closed⟩
    refine (gives_takeName.mpr ⟨rfl, named⟩).bind fun _ => inside.bind fun _ => ?_
    refine (gives_takeAfter.mpr ⟨rfl, kind⟩).bind fun _ => ?_
    refine (gives_takeType.mpr ⟨rfl, typed⟩).bind fun _ => Gives.bind gives fun _ => ?_
    refine Gives.bind (a := ()) (u := rest) ?_ fun _ => ⟨rfl, rfl⟩
    cases opened with
    | true => simpa using closed
    | false => simpa using closed

/-! ## Enumerations -/

theorem gives_enumerationEnd {tokens rest : List Token} {u : Unit} :
    (enumerationEnd tokens).Gives u rest ↔
      (endsEnumeration (nextKind tokens) ∧ tokens = rest) ∨
        ∃ semicolon, tokens = semicolon :: rest ∧ semicolon.kind = .semicolon := by
  unfold enumerationEnd
  split
  case isTrue ends =>
    rw [gives_ok]
    constructor
    · rintro ⟨_, rfl⟩
      exact .inl ⟨ends, rfl⟩
    · rintro (⟨_, rfl⟩ | ⟨semicolon, rfl, kind⟩)
      · exact ⟨rfl, rfl⟩
      · rw [nextKind_cons, kind] at ends
        exact absurd ends (by decide)
  case isFalse more => simp [more]

theorem gives_enumeration {tokens rest : List Token} {e : Enumeration} :
    (enumeration tokens).Gives e rest ↔
      ∃ us vs, tokens = e.name :: us ∧ e.name.kind = .identifier ∧
        Enclosed .leftBrace .rightBrace (SeparatedUpTo .rightBrace (Next (· = .identifier)))
          e.values us vs ∧
        (enumerationEnd vs).Gives () rest := by
  have values : ∀ {us vs : List Token} {ts : List Token} {closing : Token},
      closing.kind = .rightBrace →
        ((separatedUpTo .rightBrace us fun us _ => (takeName .enumValue us).node).Gives ts
          (closing :: vs) ↔
            SeparatedUpTo .rightBrace (Next (· = .identifier)) ts us (closing :: vs)) :=
    fun closes => gives_separatedUpTo (fun _ _ _ _ => gives_takeName_node) closes (by decide)
  unfold enumeration
  constructor
  · intro gives
    obtain ⟨name, _, _, taken, gives⟩ := gives_bind.mp gives
    obtain ⟨rfl, named⟩ := gives_takeName.mp taken
    obtain ⟨opening, us, _, taken, gives⟩ := gives_bind.mp gives
    obtain ⟨rfl, opens⟩ := gives_takeAfter.mp taken
    obtain ⟨ts, _, _, inside, gives⟩ := gives_bind.mp gives
    obtain ⟨closing, vs, _, taken, gives⟩ := gives_bind.mp gives
    obtain ⟨rfl, closes⟩ := gives_takeAfter.mp taken
    obtain ⟨_, _, _, ended, gives⟩ := gives_bind.mp gives
    obtain ⟨rfl, rfl⟩ := gives_ok.mp gives
    exact ⟨_, vs, rfl, named, ⟨opening, closing, us, rfl, opens, (values closes).mp inside,
      closes⟩, ended⟩
  · rintro ⟨_, vs, rfl, named, ⟨opening, closing, us, rfl, opens, inside, closes⟩, ended⟩
    refine (gives_takeName.mpr ⟨rfl, named⟩).bind fun _ => ?_
    refine (gives_takeAfter.mpr ⟨rfl, opens⟩).bind fun _ => ?_
    refine ((values closes).mpr inside).bind fun _ => ?_
    refine (gives_takeAfter.mpr ⟨rfl, closes⟩).bind fun _ => ?_
    exact ended.bind fun _ => ⟨rfl, rfl⟩

/-! ## Items -/

/-- Behind `begin` the word `function` opens a function. -/
theorem gives_item_begun {t u : Token} {us rest : List Token} {i : Item}
    (begins : t.kind = .kwBegin) (word : u.kind = .kwFunction) :
    (item (t :: u :: us)).Gives i rest ↔
      ∃ f, i = .function f ∧ (function true us).Gives f rest := by
  simp only [item, begins, nextKind_cons, word]
  constructor
  · simp only [gives_widen, gives_bind, gives_take, gives_map]
    rintro ⟨_, _, _, ⟨same, _⟩, f, rfl, gives⟩
    cases same
    exact ⟨f, rfl, gives⟩
  · rintro ⟨f, rfl, gives⟩
    refine gives_widen.mpr ((gives_take.mpr ⟨rfl, word⟩).bind fun _ => ?_)
    exact gives_widen.mpr (gives_map.mpr ⟨f, rfl, gives⟩)

theorem gives_item_function {t : Token} {us rest : List Token} {i : Item}
    (kind : t.kind = .kwFunction) :
    (item (t :: us)).Gives i rest ↔ ∃ f, i = .function f ∧ (function false us).Gives f rest := by
  simp only [item, kind, gives_widen, gives_map, eq_comm]

theorem gives_item_enumeration {t : Token} {us rest : List Token} {i : Item}
    (kind : t.kind = .kwEnum) :
    (item (t :: us)).Gives i rest ↔ ∃ e, i = .enumeration e ∧ (enumeration us).Gives e rest := by
  simp only [item, kind, gives_widen, gives_map, eq_comm]

/-- Every other item is a statement. -/
theorem gives_item_statement {t : Token} {us rest : List Token} {i : Item}
    (notBegun : ¬ (t.kind = .kwBegin ∧ nextKind us = .kwFunction))
    (notFunction : t.kind ≠ .kwFunction) (notEnum : t.kind ≠ .kwEnum) :
    (item (t :: us)).Gives i rest ↔ ∃ s, i = .statement s ∧ ReadsStmt s (t :: us) rest := by
  unfold item
  simp only
  split
  case h_1 begins word => exact absurd ⟨begins, word⟩ notBegun
  case h_2 kind => exact absurd kind notFunction
  case h_3 kind => exact absurd kind notEnum
  case h_4 => simp only [gives_map, ReadsStmt, eq_comm]

/-- An item of a program, in front of which the source has not ended. -/
def ReadsItem (i : Item) (us rest : List Token) : Prop :=
  nextKind us ≠ .eof ∧ (item us).Gives i rest

end Grammar

/-- A program is its items, up to the end of the source. -/
theorem gives_program {tokens rest : List Token} {p : Program} :
    (program tokens).Gives p rest ↔
      Repeats Grammar.ReadsItem p.items tokens rest ∧ nextKind rest = .eof := by
  have reads : ∀ (us : List Token) (_ : us.length < tokens.length + 1) (i : Item)
      (vs : List Token), decide (nextKind us ≠ .eof) = true ∧ (Grammar.item us).Gives i vs ↔
        Grammar.ReadsItem i us vs := by
    intro us _ i vs
    rw [decide_eq_true_eq, Grammar.ReadsItem]
  unfold program
  constructor
  · simp only [gives_bind, gives_ok, gives_whileNext (p := fun k => k ≠ .eof) reads]
    rintro ⟨items, mid, _, ⟨repeats, stops⟩, rfl, rfl⟩
    exact ⟨repeats, by simpa using stops⟩
  · rintro ⟨repeats, ends⟩
    refine Gives.bind (a := p.items) (u := rest) ?_ fun _ => ⟨rfl, rfl⟩
    rw [gives_whileNext (p := fun k => k ≠ .eof) reads]
    exact ⟨repeats, by simpa using ends⟩

end BlockSyntax
