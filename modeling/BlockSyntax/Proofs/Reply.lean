import BlockSyntax.Grammar.Reply

/-!
# What a reply gives

A reply gives a value and the tokens behind it, or nothing.  The number of nodes that a
reply counts plays no part here: two replies that give the same are told apart only by
the identifiers of the trees numbered from them.

Every combinator of replies has one equivalence below, which says when the combined
reply gives a value.  Repetition is described by two relations: `Repeats` for a loop
that goes on as long as the next token invites it, and `Separated` for items with commas
between them.  The loops give exactly what these relations hold of
(`gives_whileNext`, `gives_separated`).  With them a routine of the grammar is read off
as a chain of lists of tokens, in which each part takes tokens from the front of one
list and leaves the next.
-/

set_option autoImplicit false

namespace BlockSyntax

variable {α β : Type} {m n : Nat}

namespace Reply

/-- The reply is a value with the given tokens behind it. -/
def Gives (r : Reply α n) (a : α) (rest : List Token) : Prop :=
  match r with
  | ok v us _ _ => v = a ∧ us = rest
  | fail _ _ _ => False

@[simp] theorem gives_ok {v a : α} {us rest : List Token} {made : Nat} {h : us.length < n} :
    (ok v us made h : Reply α n).Gives a rest ↔ v = a ∧ us = rest :=
  Iff.rfl

@[simp] theorem gives_fail {e : Expectation} {us rest : List Token} {made : Nat} {a : α} :
    ¬ (fail e us made : Reply α n).Gives a rest :=
  id

/-- What is given behind a reply is shorter than its bound. -/
theorem Gives.length_lt {r : Reply α n} {a : α} {rest : List Token} (gives : r.Gives a rest) :
    rest.length < n := by
  cases r with
  | ok v us made shorter => exact gives.2 ▸ shorter
  | fail => exact gives.elim

/-- A reply gives one value, with the same tokens behind it. -/
theorem Gives.unique {r : Reply α n} {a b : α} {us vs : List Token} (first : r.Gives a us)
    (second : r.Gives b vs) : a = b ∧ us = vs := by
  cases r with
  | ok v rest made shorter => exact ⟨first.1.symm.trans second.1, first.2.symm.trans second.2⟩
  | fail => exact first.elim

@[simp] theorem gives_after {before : Nat} {r : Reply α n} {a : α} {rest : List Token} :
    (r.after before).Gives a rest ↔ r.Gives a rest := by
  cases r <;> exact Iff.rfl

@[simp] theorem gives_node {r : Reply α n} {a : α} {rest : List Token} :
    r.node.Gives a rest ↔ r.Gives a rest := by
  cases r <;> exact Iff.rfl

@[simp] theorem gives_widen {h : m ≤ n} {r : Reply α m} {a : α} {rest : List Token} :
    (r.widen h).Gives a rest ↔ r.Gives a rest := by
  cases r <;> exact Iff.rfl

@[simp] theorem gives_map {f : α → β} {r : Reply α n} {b : β} {rest : List Token} :
    (r.map f).Gives b rest ↔ ∃ a, f a = b ∧ r.Gives a rest := by
  cases r with
  | ok v us made shorter =>
      constructor
      · rintro ⟨same, left⟩
        exact ⟨v, same, rfl, left⟩
      · rintro ⟨a, same, rfl, left⟩
        exact ⟨same, left⟩
  | fail => exact ⟨False.elim, fun ⟨_, _, gives⟩ => gives⟩

@[simp] theorem gives_bind {r : Reply α m}
    {next : α → (rest : List Token) → rest.length < m → Reply β n} {b : β} {rest : List Token} :
    (r.bind next).Gives b rest ↔
      ∃ a mid, ∃ h : mid.length < m, r.Gives a mid ∧ (next a mid h).Gives b rest := by
  cases r with
  | ok v us made shorter =>
      simp only [bind, gives_after]
      constructor
      · intro gives
        exact ⟨v, us, shorter, ⟨rfl, rfl⟩, gives⟩
      · rintro ⟨a, mid, h, ⟨rfl, rfl⟩, gives⟩
        exact gives
  | fail => exact ⟨False.elim, fun ⟨_, _, _, gives, _⟩ => gives⟩

/-- A value may be gone on from behind it. -/
theorem Gives.bind {r : Reply α m}
    {next : α → (rest : List Token) → rest.length < m → Reply β n} {a : α} {b : β}
    {u v : List Token} (gives : r.Gives a u) (behind : ∀ h, (next a u h).Gives b v) :
    (r.bind next).Gives b v :=
  gives_bind.mpr ⟨a, u, gives.length_lt, gives, behind _⟩

end Reply

/-! ## Single tokens -/

@[simp] theorem gives_takeIf {test : TokenKind → Bool} {expected : Expectation}
    {tokens rest : List Token} {t : Token} :
    (takeIf test expected tokens).Gives t rest ↔ tokens = t :: rest ∧ test t.kind := by
  cases tokens with
  | nil => simp [takeIf]
  | cons first others =>
      simp only [takeIf]
      split
      case isTrue passes =>
        rw [Reply.gives_ok, List.cons.injEq]
        constructor
        · rintro ⟨rfl, rfl⟩
          exact ⟨⟨rfl, rfl⟩, passes⟩
        · exact And.left
      case isFalse stops =>
        refine ⟨False.elim, ?_⟩
        rintro ⟨same, passes⟩
        cases same
        exact stops passes

@[simp] theorem gives_take {k : TokenKind} {tokens rest : List Token} {t : Token} :
    (take k tokens).Gives t rest ↔ tokens = t :: rest ∧ t.kind = k := by
  simp [take]

@[simp] theorem gives_takeAfter {k : TokenKind} {part : Part} {tokens rest : List Token}
    {t : Token} :
    (takeAfter k part tokens).Gives t rest ↔ tokens = t :: rest ∧ t.kind = k := by
  simp [takeAfter]

@[simp] theorem gives_takeName {role : NameRole} {tokens rest : List Token} {t : Token} :
    (takeName role tokens).Gives t rest ↔ tokens = t :: rest ∧ t.kind = .identifier := by
  simp [takeName]

@[simp] theorem gives_takeType {tokens rest : List Token} {t : Token} :
    (takeType tokens).Gives t rest ↔ tokens = t :: rest ∧ t.kind.isType := by
  simp [takeType]

@[simp] theorem nextKind_cons (t : Token) (rest : List Token) : nextKind (t :: rest) = t.kind :=
  rfl

@[simp] theorem nextKind_nil : nextKind [] = .eof :=
  rfl

/-- A token that is next has to be skipped, and nothing is skipped otherwise. -/
theorem gives_skip {k : TokenKind} {tokens rest : List Token} {skipped : Bool} (mark : k ≠ .eof) :
    (skip k tokens).Gives skipped rest ↔
      (skipped = true ∧ ∃ t, tokens = t :: rest ∧ t.kind = k) ∨
        (skipped = false ∧ tokens = rest ∧ nextKind tokens ≠ k) := by
  unfold skip
  cases tokens with
  | nil => simp [mark.symm, eq_comm]
  | cons t others => by_cases here : t.kind = k <;> simp_all [eq_comm]

/-- The next token is one whose kind passes a test. -/
def Next (test : TokenKind → Prop) (t : Token) (us rest : List Token) : Prop :=
  us = t :: rest ∧ test t.kind

theorem gives_takeName_node {role : NameRole} {tokens rest : List Token} {t : Token} :
    (takeName role tokens).node.Gives t rest ↔ Next (· = .identifier) t tokens rest := by
  rw [Reply.gives_node, gives_takeName, Next]

/-- A part between an opening and a closing mark. -/
def Enclosed (opens closes : TokenKind) (R : α → List Token → List Token → Prop) (a : α)
    (us rest : List Token) : Prop :=
  ∃ opening closing vs, us = opening :: vs ∧ opening.kind = opens ∧ R a vs (closing :: rest) ∧
    closing.kind = closes

/-- A part in brackets. -/
abbrev Bracketed (R : α → List Token → List Token → Prop) : α → List Token → List Token → Prop :=
  Enclosed .leftBracket .rightBracket R

/-- A part in parentheses. -/
abbrev Parenthesized (R : α → List Token → List Token → Prop) :
    α → List Token → List Token → Prop :=
  Enclosed .leftParen .rightParen R

/-- A parser for shorter lists gives the value. -/
def Inside (self : Below n α) (a : α) (us rest : List Token) : Prop :=
  ∃ h : us.length < n, (self us h).Gives a rest

theorem inside_iff {self : Below n α} {us rest : List Token} (h : us.length < n) {a : α} :
    (self us h).Gives a rest ↔ Inside self a us rest :=
  ⟨fun gives => ⟨h, gives⟩, fun ⟨_, gives⟩ => gives⟩

/-! ## Repetition -/

/-- Items one after the other. -/
inductive Repeats (R : α → List Token → List Token → Prop) :
    List α → List Token → List Token → Prop where
  | nil {us : List Token} : Repeats R [] us us
  | cons {a : α} {as : List α} {us vs ws : List Token}
      (head : R a us vs) (tail : Repeats R as vs ws) : Repeats R (a :: as) us ws

/-- At least one item, with commas between the items. -/
inductive Separated (R : α → List Token → List Token → Prop) :
    List α → List Token → List Token → Prop where
  | last {a : α} {us vs : List Token} (head : R a us vs) : Separated R [a] us vs
  | more {a : α} {as : List α} {comma : Token} {us vs ws : List Token}
      (head : R a us (comma :: vs)) (between : comma.kind = .comma)
      (tail : Separated R as vs ws) : Separated R (a :: as) us ws

variable {R S : α → List Token → List Token → Prop}

theorem Separated.exists_cons {as : List α} {us vs : List Token}
    (separated : Separated R as us vs) : ∃ a bs, as = a :: bs := by
  cases separated <;> exact ⟨_, _, rfl⟩

theorem Separated.head {as : List α} {us vs : List Token} (separated : Separated R as us vs) :
    ∃ a mid, R a us mid := by
  cases separated with
  | last head | more head _ _ => exact ⟨_, _, head⟩

theorem Repeats.mono (implies : ∀ a us vs, R a us vs → S a us vs) {as : List α}
    {us vs : List Token} (repeats : Repeats R as us vs) : Repeats S as us vs := by
  induction repeats with
  | nil => exact .nil
  | cons head _ ih => exact .cons (implies _ _ _ head) ih

theorem Separated.mono (implies : ∀ a us vs, R a us vs → S a us vs) {as : List α}
    {us vs : List Token} (separated : Separated R as us vs) : Separated S as us vs := by
  induction separated with
  | last head => exact .last (implies _ _ _ head)
  | more head between _ ih => exact .more (implies _ _ _ head) between ih

/-- One relation implies another below a bound, and so it does for items one after the
other. -/
theorem Repeats.mono_below (shrinks : ∀ a us vs, R a us vs → vs.length < us.length)
    (implies : ∀ a us vs, us.length < n → R a us vs → S a us vs) {as : List α}
    {us vs : List Token} (repeats : Repeats R as us vs) (bound : us.length < n) :
    Repeats S as us vs := by
  induction repeats with
  | nil => exact .nil
  | cons head _ ih =>
      have shorter := shrinks _ _ _ head
      exact .cons (implies _ _ _ bound head) (ih (by omega))

theorem Repeats.length_le (shrinks : ∀ a us vs, R a us vs → vs.length < us.length)
    {as : List α} {us vs : List Token} (repeats : Repeats R as us vs) : vs.length ≤ us.length := by
  induction repeats with
  | nil => exact Nat.le_refl _
  | cons head _ ih =>
      have shorter := shrinks _ _ _ head
      omega

/-- Single tokens one after the other. -/
theorem repeats_next {test : TokenKind → Prop} {ts us vs : List Token} :
    Repeats (Next test) ts us vs ↔ us = ts ++ vs ∧ ∀ t ∈ ts, test t.kind := by
  constructor
  · intro repeats
    induction repeats with
    | nil => simp
    | cons head _ ih =>
        obtain ⟨rfl, passes⟩ := head
        obtain ⟨rfl, others⟩ := ih
        exact ⟨rfl, List.forall_mem_cons.mpr ⟨passes, others⟩⟩
  · rintro ⟨rfl, passes⟩
    induction ts with
    | nil => exact .nil
    | cons t ts ih =>
        rw [List.forall_mem_cons] at passes
        exact .cons ⟨rfl, passes.1⟩ (ih passes.2)

open Reply

/-- **A loop gives the items that its invitation lets in**, and stops in front of the
first token that does not invite another. -/
theorem gives_whileNext {p : TokenKind → Bool} {tokens : List Token}
    {read : Below (tokens.length + 1) α}
    (reads : ∀ us h a vs, p (nextKind us) ∧ (read us h).Gives a vs ↔ R a us vs)
    {as : List α} {rest : List Token} :
    (whileNext p tokens read).Gives as rest ↔
      Repeats R as tokens rest ∧ ¬ p (nextKind rest) := by
  fun_induction whileNext p tokens read generalizing as rest with
  | case1 tokens read invited ih =>
      simp only [gives_bind, gives_ok]
      constructor
      · rintro ⟨a, mid, shorter, head, as, last, _, tail, rfl, rfl⟩
        obtain ⟨repeats, stops⟩ := (ih mid shorter fun us _ => reads us _).mp tail
        exact ⟨.cons ((reads _ _ _ _).mp ⟨invited, head⟩) repeats, stops⟩
      · rintro ⟨repeats, stops⟩
        cases repeats with
        | nil => exact absurd invited stops
        | cons head tail =>
            have headGives := ((reads _ (Nat.lt_succ_self _) _ _).mpr head).2
            have shorter := headGives.length_lt
            have tailGives := (ih _ shorter fun us _ => reads us _).mpr ⟨tail, stops⟩
            exact ⟨_, _, shorter, headGives, _, _, tailGives.length_lt, tailGives, rfl, rfl⟩
  | case2 tokens read stops =>
      rw [gives_ok]
      constructor
      · rintro ⟨rfl, rfl⟩
        exact ⟨.nil, stops⟩
      · rintro ⟨repeats, _⟩
        cases repeats with
        | nil => exact ⟨rfl, rfl⟩
        | cons head _ =>
            exact absurd ((reads _ (Nat.lt_succ_self _) _ _).mpr head).1 stops

/-- **Items with commas between them** are given up to the first item that no comma
follows. -/
theorem gives_separated {tokens : List Token} {read : Below (tokens.length + 1) α}
    (reads : ∀ us h a vs, (read us h).Gives a vs ↔ R a us vs)
    {as : List α} {rest : List Token} :
    (separated tokens read).Gives as rest ↔
      Separated R as tokens rest ∧ nextKind rest ≠ .comma := by
  fun_induction separated tokens read generalizing as rest with
  | case1 tokens read ih =>
      rw [gives_bind]
      constructor
      · rintro ⟨a, mid, shorter, head, behind⟩
        have headRelated := (reads _ _ _ _).mp head
        split at behind
        case isTrue comma =>
          simp only [gives_bind, gives_take, gives_ok] at behind
          obtain ⟨t, us, shorter', ⟨rfl, _⟩, as, last, _, tail, rfl, rfl⟩ := behind
          obtain ⟨separated, stops⟩ :=
            (ih _ shorter us shorter' fun us _ => reads us _).mp tail
          exact ⟨.more headRelated comma separated, stops⟩
        case isFalse stops =>
          obtain ⟨rfl, rfl⟩ := gives_ok.mp behind
          exact ⟨.last headRelated, stops⟩
      · rintro ⟨separated, stops⟩
        cases separated with
        | last head =>
            have gives := (reads _ (Nat.lt_succ_self _) _ _).mpr head
            refine ⟨_, _, gives.length_lt, gives, ?_⟩
            simp only [stops, if_false, gives_ok, and_self]
        | more head between tail =>
            have headGives := (reads _ (Nat.lt_succ_self _) _ _).mpr head
            have shorter := headGives.length_lt
            refine ⟨_, _, shorter, headGives, ?_⟩
            have tailGives := (ih _ shorter _ (Nat.lt_succ_self _) fun us _ => reads us _).mpr
              ⟨tail, stops⟩
            simp only [nextKind_cons, between, if_true, gives_bind, gives_take, gives_ok]
            exact ⟨_, _, Nat.lt_succ_self _, ⟨rfl, between⟩, _, _, tailGives.length_lt,
              tailGives, rfl, rfl⟩

/-- Items with commas between them in front of a closing mark, or none when the mark comes
at once. -/
def SeparatedUpTo (close : TokenKind) (R : α → List Token → List Token → Prop) (as : List α)
    (us rest : List Token) : Prop :=
  (as = [] ∧ us = rest) ∨ (Separated R as us rest ∧ nextKind us ≠ close)

theorem gives_separatedUpTo {close : TokenKind} {tokens : List Token}
    {read : Below (tokens.length + 1) α}
    (reads : ∀ us h a vs, (read us h).Gives a vs ↔ R a us vs) {as : List α} {closing : Token}
    {rest : List Token} (closes : closing.kind = close) (mark : close ≠ .comma) :
    (separatedUpTo close tokens read).Gives as (closing :: rest) ↔
      SeparatedUpTo close R as tokens (closing :: rest) := by
  unfold separatedUpTo SeparatedUpTo
  split
  case isTrue none => simp [none, eq_comm]
  case isFalse more =>
    rw [gives_widen, gives_separated reads, nextKind_cons, closes]
    constructor
    · rintro ⟨separated, _⟩
      exact .inr ⟨separated, more⟩
    · rintro (⟨_, rfl⟩ | ⟨separated, _⟩)
      · exact absurd closes more
      · exact ⟨separated, mark⟩

/-! ## Marks around a part -/

/-- A part between an opening and a closing mark is given when the part is, in front of
the closing mark. -/
theorem gives_enclosed {opens closes : TokenKind} {tokens : List Token} {bound : List Token → Nat}
    {first last : (us : List Token) → Reply Token us.length}
    {inside : (us : List Token) → us.length < tokens.length → Reply α (bound us)}
    {done : α → β} {made : α → Nat}
    {left : ∀ us, us.length < tokens.length → α → ∀ vs, vs.length < bound us → ∀ ws : List Token,
      ws.length < vs.length → ws.length < n}
    (opened : ∀ us t rest, (first us).Gives t rest ↔ us = t :: rest ∧ t.kind = opens)
    (closed : ∀ us t rest, (last us).Gives t rest ↔ us = t :: rest ∧ t.kind = closes)
    (reads : ∀ us h a closing rest, closing.kind = closes →
      ((inside us h).Gives a (closing :: rest) ↔ R a us (closing :: rest)))
    {b : β} {rest : List Token} :
    ((first tokens).bind fun _ us h₁ => (inside us h₁).bind fun a vs h₂ =>
      (last vs).bind fun _ ws h₃ =>
        (.ok (done a) ws (made a) (left us h₁ a vs h₂ ws h₃) : Reply β n)).Gives b rest ↔
      ∃ a, done a = b ∧ Enclosed opens closes R a tokens rest := by
  constructor
  · intro gives
    obtain ⟨opening, us, shorter, taken, gives⟩ := gives_bind.mp gives
    obtain ⟨rfl, kind⟩ := (opened _ _ _).mp taken
    obtain ⟨a, vs, _, insideGives, gives⟩ := gives_bind.mp gives
    obtain ⟨closing, ws, _, taken, gives⟩ := gives_bind.mp gives
    obtain ⟨rfl, closingKind⟩ := (closed _ _ _).mp taken
    obtain ⟨rfl, rfl⟩ := gives_ok.mp gives
    have related := (reads us shorter a closing ws closingKind).mp insideGives
    exact ⟨a, rfl, opening, closing, us, rfl, kind, related, closingKind⟩
  · rintro ⟨a, rfl, opening, closing, us, rfl, kind, related, closingKind⟩
    refine ((opened _ _ _).mpr ⟨rfl, kind⟩).bind fun shorter => ?_
    refine ((reads us shorter a closing rest closingKind).mpr related).bind fun _ => ?_
    exact ((closed _ _ _).mpr ⟨rfl, closingKind⟩).bind fun _ => ⟨rfl, rfl⟩

end BlockSyntax
