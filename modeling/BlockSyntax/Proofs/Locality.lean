import BlockSyntax.Proofs.Reply

/-!
# What a reply depends on

A parser looks at the tokens it takes and at the kind of the next one, and at nothing
else.  `Reply.Determines` says so of one reply and the family of replies that the same
parser gives to other tokens: what was left is the end of the tokens read, and on every
list that starts with tokens of the same kinds, in front of a token of the same kind as
the next one, the family replies the same, with the other tokens in the places of those
taken.  It holds of failures as well as of values.

The other tokens are given by a map `f` that keeps kinds.  With the identity the fact
says that tokens out of sight do not matter; with a map that moves tokens to another file
it says that a parse does not depend on the file.

The other list may be longer than the one read, so the parser for the parts inside is one
that is known to be determined in the reply, and the whole grammar of the parts in the
family.  Each routine of the grammar has one lemma.
-/

set_option autoImplicit false

namespace BlockSyntax

variable {α β γ δ : Type} {m n : Nat} {J : Type}

namespace Reply

/-- The tokens from where the parser stopped, behind a value or at a failure. -/
def left : Reply α n → List Token
  | ok _ rest _ _ | fail _ rest _ => rest

/-- The other reply is the same with a value `v` of the value and other tokens left. -/
def Matches (v : α → β) (rest : List Token) (r : Reply α m) (r' : Reply β n) : Prop :=
  match r with
  | ok a _ made _ => ∃ h, r' = ok (v a) rest made h
  | fail e _ made => r' = fail e rest made

/-- The replies of a family to the lists `front j` are determined by the reply to `us`: by
the tokens that it takes and the kind of the next one. -/
def Determines (f : Token → Token) (v : α → β) (us : List Token) (r : Reply α n)
    (front : J → List Token) {bound : J → Nat} (family : (j : J) → Reply β (bound j)) : Prop :=
  ∃ used, us = used ++ r.left ∧
    ∀ j rest, front j = used.map f ++ rest → nextKind rest = nextKind r.left →
      r.Matches v rest (family j)

/-- A place behind a value that a family gives. -/
structure Behind (bound : J → Nat) where
  /-- The list that was read. -/
  start : J
  /-- What is left of it. -/
  rest : List Token
  /-- Fewer tokens are left than the bound says. -/
  shorter : rest.length < bound start

theorem Behind.length_le {bound : J → Nat} (p : Behind bound) : p.rest.length ≤ bound p.start :=
  Nat.le_of_lt p.shorter

/-- A place behind the first token of a list. -/
structure Ahead (front : J → List Token) (t : Token) where
  /-- The list. -/
  start : J
  /-- What is behind the token. -/
  rest : List Token
  /-- The token is the first. -/
  front_eq : front start = t :: rest

/-- The other reply is the same with a larger bound. -/
def Widens (r : Reply α m) (r' : Reply α n) : Prop := ∃ h : m ≤ n, r' = r.widen h

/-! ## Replies to two lists -/

theorem left_after (before : Nat) (r : Reply α n) : (r.after before).left = r.left := by
  cases r <;> rfl

theorem left_node (r : Reply α n) : r.node.left = r.left := by
  cases r <;> rfl

theorem left_map (g : α → β) (r : Reply α n) : (r.map g).left = r.left := by
  cases r <;> rfl

theorem left_widen (h : m ≤ n) (r : Reply α m) : (r.widen h).left = r.left := by
  cases r <;> rfl

theorem after_zero (r : Reply α n) : r.after 0 = r := by
  cases r with
  | ok a rest made shorter => simp only [Reply.after, Nat.zero_add]
  | fail e rest made => simp only [Reply.after, Nat.zero_add]

theorem widens_refl (r : Reply α n) : r.Widens r := by
  refine ⟨Nat.le_refl n, ?_⟩
  cases r <;> rfl

section Matches

variable {v : α → β} {rest : List Token} {r : Reply α m} {r' : Reply β n}

theorem Matches.after {before : Nat} (same : r.Matches v rest r') :
    (r.after before).Matches v rest (r'.after before) := by
  cases r with
  | ok a us made h =>
      obtain ⟨shorter, rfl⟩ := same
      exact ⟨shorter, rfl⟩
  | fail e us made =>
      obtain rfl := same
      rfl

theorem Matches.node (same : r.Matches v rest r') : r.node.Matches v rest r'.node := by
  cases r with
  | ok a us made h =>
      obtain ⟨shorter, rfl⟩ := same
      exact ⟨shorter, rfl⟩
  | fail e us made =>
      obtain rfl := same
      rfl

theorem Matches.map {w : γ → δ} {g : α → γ} {g' : β → δ} (commutes : ∀ a, g' (v a) = w (g a))
    (same : r.Matches v rest r') : (r.map g).Matches w rest (r'.map g') := by
  cases r with
  | ok a us made h =>
      obtain ⟨shorter, rfl⟩ := same
      exact ⟨shorter, by rw [← commutes]; rfl⟩
  | fail e us made =>
      obtain rfl := same
      rfl

theorem Matches.widen {k l : Nat} {h : m ≤ k} {h' : n ≤ l} (same : r.Matches v rest r') :
    (r.widen h).Matches v rest (r'.widen h') := by
  cases r with
  | ok a us made _ =>
      obtain ⟨shorter, rfl⟩ := same
      exact ⟨Nat.lt_of_lt_of_le shorter h', rfl⟩
  | fail e us made =>
      obtain rfl := same
      rfl

end Matches

/-- A larger bound is no difference. -/
theorem Widens.matches {m : Nat} {r : Reply α m} {r' : Reply α n} (widens : r.Widens r') :
    r'.Matches id r'.left r := by
  obtain ⟨h, rfl⟩ := widens
  cases r with
  | ok a rest made shorter => exact ⟨shorter, rfl⟩
  | fail e rest made => rfl

/-- Behind the same tokens, as far as their kinds go, the same kind is next. -/
theorem nextKind_map_append {f : Token → Token} (kinds : ∀ t, (f t).kind = t.kind)
    {used rest other : List Token} (same : nextKind rest = nextKind other) :
    nextKind (used.map f ++ rest) = nextKind (used ++ other) := by
  cases used with
  | nil => exact same
  | cons t used => exact kinds t

/-- In front of the same kind, behind the same tokens, the same kind is next. -/
theorem nextKind_append {rest other : List Token} (same : nextKind rest = nextKind other)
    (used : List Token) : nextKind (used ++ rest) = nextKind (used ++ other) := by
  cases used with
  | nil => exact same
  | cons t used => rfl

/-! ## Chains of parsers -/

namespace Determines

variable {f : Token → Token} {v : α → β} {us : List Token} {front : J → List Token}
  {bound : J → Nat} {r : Reply α n} {family : (j : J) → Reply β (bound j)}

theorem exists_used (determines : r.Determines f v us front family) :
    ∃ used, us = used ++ r.left := by
  obtain ⟨used, parts, _⟩ := determines
  exact ⟨used, parts⟩

/-- A value that is given is also given behind other tokens of the same kinds. -/
theorem gives {v : α → β} {us rest : List Token} {r : Reply α n} {a : α}
    {bound : List Token → Nat} {family : (vs : List Token) → Reply β (bound vs)}
    (determines : r.Determines id v us id family) (gives : r.Gives a rest) :
    ∃ used, us = used ++ rest ∧ ∀ rest', nextKind rest' = nextKind rest →
      (family (used ++ rest')).Gives (v a) rest' := by
  obtain ⟨used, parts, others⟩ := determines
  cases r with
  | fail e left made => exact gives.elim
  | ok b left made shorter =>
      obtain ⟨rfl, rfl⟩ := gives
      refine ⟨used, parts, fun rest' same => ?_⟩
      obtain ⟨_, reply⟩ := others (used ++ rest') rest' (by rw [List.map_id]; rfl) same
      rw [reply]
      exact ⟨rfl, rfl⟩

theorem after {before : Nat} (determines : r.Determines f v us front family) :
    (r.after before).Determines f v us front fun j => (family j).after before := by
  obtain ⟨used, parts, others⟩ := determines
  rw [Determines, left_after]
  exact ⟨used, parts, fun j rest other same => (others j rest other same).after⟩

theorem node (determines : r.Determines f v us front family) :
    r.node.Determines f v us front fun j => (family j).node := by
  obtain ⟨used, parts, others⟩ := determines
  rw [Determines, left_node]
  exact ⟨used, parts, fun j rest other same => (others j rest other same).node⟩

theorem map {w : γ → δ} {g : α → γ} {g' : β → δ} (commutes : ∀ a, g' (v a) = w (g a))
    (determines : r.Determines f v us front family) :
    (r.map g).Determines f w us front fun j => (family j).map g' := by
  obtain ⟨used, parts, others⟩ := determines
  rw [Determines, left_map]
  exact ⟨used, parts, fun j rest other same => (others j rest other same).map commutes⟩

theorem widen {h : n ≤ m} {larger : J → Nat} {h' : ∀ j, bound j ≤ larger j}
    (determines : r.Determines f v us front family) :
    (r.widen h).Determines f v us front fun j => (family j).widen (h' j) := by
  obtain ⟨used, parts, others⟩ := determines
  rw [Determines, left_widen]
  exact ⟨used, parts, fun j rest other same => (others j rest other same).widen⟩

theorem ok {a : α} {made : Nat} {h : us.length < n} (shorter : ∀ j, (front j).length < bound j) :
    (ok a us made h : Reply α n).Determines f v us front fun j =>
      (.ok (v a) (front j) made (shorter j) : Reply β (bound j)) := by
  refine ⟨[], rfl, ?_⟩
  intro j rest other _
  obtain rfl : front j = rest := other
  exact ⟨shorter j, rfl⟩

/-- The value of the family and its count may be written in another way. -/
theorem ok_of {a : α} {a' : β} {made made' : Nat} {h : us.length < n}
    (shorter : ∀ j, (front j).length < bound j) (value : a' = v a) (count : made' = made) :
    (Reply.ok a us made h : Reply α n).Determines f v us front fun j =>
      (.ok a' (front j) made' (shorter j) : Reply β (bound j)) := by
  subst value count
  exact Determines.ok shorter

theorem fail {e : Expectation} {made : Nat} :
    (fail e us made : Reply α n).Determines f v us front fun j =>
      (.fail e (front j) made : Reply β (bound j)) := by
  refine ⟨[], rfl, ?_⟩
  intro j rest other _
  obtain rfl : front j = rest := other
  rfl

/-- Two parsers, one behind the other, are determined by what both take. -/
theorem bind {w : γ → δ} {k : Nat} {larger : J → Nat}
    {next : α → (rest : List Token) → rest.length < n → Reply γ k}
    {next' : (j : J) → β → (rest : List Token) → rest.length < bound j → Reply δ (larger j)}
    (kinds : ∀ t, (f t).kind = t.kind) (first : r.Determines f v us front family)
    (behind : ∀ a rest h, (next a rest h).Determines f w rest (fun j : Behind bound => j.rest)
      fun j => next' j.start (v a) j.rest j.shorter) :
    (r.bind next).Determines f w us front fun j => (family j).bind (next' j) := by
  obtain ⟨used, parts, others⟩ := first
  cases r with
  | fail e mid made =>
      refine ⟨used, parts, fun j rest other same => ?_⟩
      have failed : family j = .fail e rest made := others j rest other same
      show (family j).bind (next' j) = .fail e rest made
      rw [failed]
      rfl
  | ok a mid made h =>
      obtain ⟨used', parts', others'⟩ := behind a mid h
      obtain rfl : us = used ++ mid := parts
      have left : (Reply.bind (.ok a mid made h) next).left = (next a mid h).left :=
        left_after made (next a mid h)
      refine ⟨used ++ used', ?_, fun j rest other same => ?_⟩
      · rw [left, List.append_assoc, ← parts']
      · rw [left] at same
        rw [List.map_append, List.append_assoc] at other
        have alike : nextKind (used'.map f ++ rest) = nextKind mid := by
          rw [parts']
          exact nextKind_map_append kinds same
        obtain ⟨shorter, reply⟩ := others j _ other alike
        have following := others' ⟨j, _, shorter⟩ rest rfl same
        show ((next a mid h).after made).Matches w rest ((family j).bind (next' j))
        rw [reply]
        exact following.after

/-- A family that is determined on some lists is determined on lists among them. -/
theorem comp {K : Type} (place : K → J) (determines : r.Determines f v us front family) :
    r.Determines f v us (fun k => front (place k)) fun k => family (place k) := by
  obtain ⟨used, parts, others⟩ := determines
  exact ⟨used, parts, fun k => others (place k)⟩

/-- Only the lists whose next token is of the same kind are of any concern. -/
theorem congr {others : (j : J) → Reply β (bound j)} (kinds : ∀ t, (f t).kind = t.kind)
    (determines : r.Determines f v us front family)
    (same : ∀ j, nextKind (front j) = nextKind us → others j = family j) :
    r.Determines f v us front others := by
  obtain ⟨used, parts, reply⟩ := determines
  refine ⟨used, parts, fun j rest other alike => ?_⟩
  have next : nextKind (front j) = nextKind us := by
    rw [other, parts]
    exact nextKind_map_append kinds alike
  rw [same j next]
  exact reply j rest other alike

/-- A parser that looks at the next token before it does one thing or another. -/
theorem ite {p : TokenKind → Prop} [DecidablePred p] {r₁ r₂ : Reply α n}
    {family₁ family₂ : (j : J) → Reply β (bound j)} (kinds : ∀ t, (f t).kind = t.kind)
    (yes : p (nextKind us) → r₁.Determines f v us front family₁)
    (no : ¬ p (nextKind us) → r₂.Determines f v us front family₂) :
    (if p (nextKind us) then r₁ else r₂).Determines f v us front fun j =>
      if p (nextKind (front j)) then family₁ j else family₂ j := by
  split
  case isTrue passes => exact (yes passes).congr kinds fun j same => if_pos (same ▸ passes)
  case isFalse stops => exact (no stops).congr kinds fun j same => if_neg (same ▸ stops)

/-- A parser that takes a token and goes on behind it, as long as it does so on the other lists
as well. -/
theorem cons {t : Token} {l : Nat} {others : (j : J) → Reply β (bound j)} {r' : Reply α l}
    {larger : Ahead front (f t) → Nat} {family : (j : Ahead front (f t)) → Reply β (larger j)}
    (determines : r.Determines f v us Ahead.rest family) (here : r.Widens r')
    (there : ∀ j, (family j).Widens (others j.start)) :
    r'.Determines f v (t :: us) front others := by
  obtain ⟨used, parts, reply⟩ := determines
  obtain ⟨h, rfl⟩ := here
  rw [Determines, left_widen]
  refine ⟨t :: used, by rw [parts]; simp, fun j rest other alike => ?_⟩
  obtain ⟨h', same⟩ := there ⟨j, _, other⟩
  rw [same]
  exact (reply ⟨j, _, other⟩ rest rfl alike).widen

end Determines

end Reply

open Reply

/-! ## Tokens and repetition -/

theorem takeIf_of_passes {test : TokenKind → Bool} {expected : Expectation} {t : Token}
    {rest : List Token} (passes : test t.kind = true) :
    takeIf test expected (t :: rest) = .ok t rest 0 (length_lt_succ rest) := by
  rw [takeIf]
  exact if_pos passes

theorem takeIf_of_stops {test : TokenKind → Bool} {expected : Expectation} {us : List Token}
    (stops : test (nextKind us) = false) : takeIf test expected us = .fail expected us 0 := by
  cases us with
  | nil => rfl
  | cons t rest =>
      have stops : test t.kind = false := stops
      rw [takeIf, stops]
      rfl

/-- Reads a comma and the items behind it, or nothing, behind the first item. -/
def separatedBehind (item : Below (n + 1) α) (first : α) (rest : List Token)
    (h : rest.length < n) : Reply (List α) n :=
  if nextKind rest = .comma then
    (take .comma rest).bind fun _ us _ =>
    (separated us fun vs _ => item vs (by omega)).bind fun others vs _ =>
    .ok (first :: others) vs 0 (by omega)
  else .ok [first] rest 0 h

theorem separated_eq (us : List Token) (item : Below (us.length + 1) α) :
    separated us item = (item us (length_lt_succ us)).bind (separatedBehind item) := by
  rw [separated]
  rfl

section Tokens

variable {f : Token → Token} (kinds : ∀ t, (f t).kind = t.kind) {us : List Token}
  {front : J → List Token}
include kinds

theorem determines_takeIf {test : TokenKind → Bool} {expected : Expectation}
    (mark : test .eof = false) :
    (takeIf test expected us).Determines f f us front fun j => takeIf test expected (front j) := by
  by_cases passes : test (nextKind us)
  · cases us with
    | nil => exact absurd passes (by simp [mark])
    | cons t us =>
        have passes : test t.kind = true := passes
        rw [takeIf_of_passes passes]
        refine ⟨[t], rfl, fun j rest other _ => ?_⟩
        have other : front j = f t :: rest := other
        rw [← kinds t] at passes
        show ∃ h, takeIf test expected (front j) = .ok (f t) rest 0 h
        rw [other]
        exact ⟨_, takeIf_of_passes passes⟩
  · have stops : test (nextKind us) = false := Bool.eq_false_iff.mpr passes
    rw [takeIf_of_stops stops]
    refine Determines.fail.congr kinds fun j same => takeIf_of_stops ?_
    rw [same]
    exact stops

theorem determines_take {k : TokenKind} (mark : k ≠ .eof) :
    (take k us).Determines f f us front fun j => take k (front j) :=
  determines_takeIf kinds (decide_eq_false mark.symm)

theorem determines_takeAfter {k : TokenKind} {part : Part} (mark : k ≠ .eof) :
    (takeAfter k part us).Determines f f us front fun j => takeAfter k part (front j) :=
  determines_takeIf kinds (decide_eq_false mark.symm)

theorem determines_takeName {role : NameRole} :
    (takeName role us).Determines f f us front fun j => takeName role (front j) :=
  (determines_takeIf kinds rfl).node

theorem determines_takeType :
    (takeType us).Determines f f us front fun j => takeType (front j) :=
  (determines_takeIf kinds rfl).node

theorem determines_skip {k : TokenKind} (mark : k ≠ .eof) :
    (skip k us).Determines f id us front fun j => skip k (front j) := by
  unfold skip
  split
  case isTrue here =>
    have taken : ((take k us).map fun _ => true).Determines f id us front fun j =>
        (take k (front j)).map fun _ => true :=
      (determines_take kinds mark).map fun _ => rfl
    exact taken.widen.congr kinds fun j same => if_pos (same.trans here)
  case isFalse elsewhere =>
    refine (Determines.ok fun j => length_lt_succ (front j)).congr kinds fun j same => ?_
    exact if_neg (same ▸ elsewhere)

variable {v : α → β}

/-- A loop is determined when its items are. -/
theorem determines_whileNext {invites : TokenKind → Bool} {item : Below (us.length + 1) α}
    {item' : (j : J) → Below ((front j).length + 1) β}
    (each : ∀ vs h, (item vs h).Determines f v vs
      (fun p : Behind fun j => (front j).length + 1 => p.rest)
      fun p => item' p.start p.rest p.shorter) :
    (whileNext invites us item).Determines f (List.map v) us front fun j =>
      whileNext invites (front j) (item' j) := by
  fun_induction whileNext invites us item generalizing J with
  | case1 us item invited ih =>
      have chain : ((item us (length_lt_succ us)).bind fun a rest shorter =>
          (whileNext invites rest fun vs h => item vs (by omega)).bind fun as rest _ =>
          (.ok (a :: as) rest 0 (by omega) : Reply (List α) (us.length + 1))).Determines f
          (List.map v) us front fun j =>
            (item' j (front j) (length_lt_succ _)).bind fun b rest _ =>
            (whileNext invites rest fun vs h => item' j vs (by omega)).bind fun bs rest _ =>
            (.ok (b :: bs) rest 0 (by omega) : Reply (List β) ((front j).length + 1)) := by
        refine .bind kinds ((each us _).comp fun j => ⟨j, front j, length_lt_succ _⟩) ?_
        intro a rest shorter
        refine .bind kinds (ih rest shorter fun vs h => ?_) fun as rest _ => .ok _
        have bounded : ∀ p : Behind fun j : Behind fun j => (front j).length => j.rest.length + 1,
            p.rest.length < (front p.start.start).length + 1 := by
          intro p
          have first := p.start.shorter
          have second := p.shorter
          omega
        exact (each vs _).comp fun p => ⟨p.start.start, p.rest, bounded p⟩
      refine chain.congr kinds fun j same => ?_
      rw [whileNext, if_pos (by rw [same]; exact invited)]
  | case2 us item stops =>
      refine (Determines.ok fun j => length_lt_succ (front j)).congr kinds fun j same => ?_
      rw [whileNext, if_neg (by rw [same]; exact stops)]
      rfl

/-- Items with commas between them are determined when the items are. -/
theorem determines_separated {item : Below (us.length + 1) α}
    {item' : (j : J) → Below ((front j).length + 1) β}
    (each : ∀ vs h, (item vs h).Determines f v vs
      (fun p : Behind fun j => (front j).length + 1 => p.rest)
      fun p => item' p.start p.rest p.shorter) :
    (separated us item).Determines f (List.map v) us front fun j =>
      separated (front j) (item' j) := by
  fun_induction separated us item generalizing J with
  | case1 us item ih =>
      have chain : ((item us (length_lt_succ us)).bind (separatedBehind item)).Determines f
          (List.map v) us front fun j =>
            (item' j (front j) (length_lt_succ _)).bind (separatedBehind (item' j)) := by
        refine .bind kinds ((each us _).comp fun j => ⟨j, front j, length_lt_succ _⟩) ?_
        intro a rest shorter
        refine .ite (p := (· = .comma)) kinds (fun _ => ?_) fun _ => .ok _
        refine .bind kinds (determines_take kinds (by decide)) fun _ us' shorter' => ?_
        refine .bind kinds (ih rest shorter us' shorter' fun vs h => ?_) fun as rest _ => .ok _
        have bounded : ∀ p : Behind fun j : Behind fun j : Behind fun j => (front j).length =>
            j.rest.length => j.rest.length + 1,
            p.rest.length < (front p.start.start.start).length + 1 := by
          intro p
          have first := p.start.start.shorter
          have second := p.start.shorter
          have third := p.shorter
          omega
        exact (each vs _).comp fun p => ⟨p.start.start.start, p.rest, bounded p⟩
      refine chain.congr kinds fun j same => ?_
      rw [separated_eq]

theorem determines_separatedUpTo {close : TokenKind} {item : Below (us.length + 1) α}
    {item' : (j : J) → Below ((front j).length + 1) β}
    (each : ∀ vs h, (item vs h).Determines f v vs
      (fun p : Behind fun j => (front j).length + 1 => p.rest)
      fun p => item' p.start p.rest p.shorter) :
    (separatedUpTo close us item).Determines f (List.map v) us front fun j =>
      separatedUpTo close (front j) (item' j) := by
  unfold separatedUpTo
  refine .ite (p := (· = close)) kinds (fun _ => .ok _) fun _ => ?_
  exact (determines_separated kinds each).widen

end Tokens

end BlockSyntax
