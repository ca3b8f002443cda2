import BlockSyntax.Grammar.Routines
import BlockSyntax.Proofs.DerivationSoundness
import BlockSyntax.Proofs.Locality
import Mathlib.Data.List.TakeWhile

/-!
# Routines follow replies

A parser that takes its tokens step by step does what the grammar of replies says.  A
routine follows a reply at a state of a parser (`Follows`) if it does one of two things.
Where the reply is a value the routine makes something, has taken the tokens in front of
those that the reply leaves, has drawn as many identifiers as the reply counts, and has
recorded nothing.  Where the reply is a failure the routine makes nothing and has recorded
the error of the reply at the token where the reply stopped.

Routines one behind the other follow the replies one behind the other (`Follows.bind`), and
so it is for single tokens, for nodes and for loops.
-/

set_option autoImplicit false

namespace BlockSyntax

open Reply

/-! ## The tokens of a parser -/

namespace Parser

/-- The parser after tokens were taken and identifiers drawn. -/
def take (p : Parser) (used : List Token) (drawn : NodeId) : Parser :=
  { p with
    cursor := p.cursor + used.length
    last? := used.getLast?.or p.last?
    nextId := p.nextId + drawn }

variable {p : Parser} {used us : List Token} {t : Token}

theorem take_nil (p : Parser) : p.take [] 0 = p := by
  rw [take, UInt64.add_zero]
  rfl

theorem take_take (p : Parser) (used used' : List Token) (drawn drawn' : NodeId) :
    (p.take used drawn).take used' drawn' = p.take (used ++ used') (drawn + drawn') := by
  simp only [take, List.length_append, Nat.add_assoc, UInt64.add_assoc, List.getLast?_append,
    Option.or_assoc]

/-- The tokens left are no end markers. -/
theorem unended_rest (p : Parser) : Unended p.rest := unended_takeWhile _

/-- Behind the tokens left there is an end marker. -/
theorem exists_behind (p : Parser) : ∃ behind, p.stream.front.drop p.cursor = p.rest ++ behind ∧
    (behind.headD p.stream.marker).kind = .eof := by
  refine ⟨(p.stream.front.drop p.cursor).dropWhile (·.kind ≠ .eof),
    List.takeWhile_append_dropWhile.symm, ?_⟩
  cases behind : (p.stream.front.drop p.cursor).dropWhile (·.kind ≠ .eof) with
  | nil => exact p.stream.ends
  | cons t ts =>
      have stops := List.head?_dropWhile_not (·.kind ≠ .eof) (p.stream.front.drop p.cursor)
      rw [behind] at stops
      simpa using stops

/-- What is left behind tokens that were taken. -/
theorem rest_take (left : p.rest = used ++ us) (drawn : NodeId) :
    (p.take used drawn).rest = us := by
  obtain ⟨behind, parts, ends⟩ := p.exists_behind
  have dropped : p.stream.front.drop (p.cursor + used.length) = us ++ behind := by
    rw [← List.drop_drop, parts, left, List.append_assoc, List.drop_left]
  have passes : ∀ u ∈ us, decide (u.kind ≠ .eof) = true := by
    intro u inside
    exact decide_eq_true (p.unended_rest u (left ▸ List.mem_append_right used inside))
  have stops : behind.takeWhile (·.kind ≠ .eof) = [] := by
    cases behind with
    | nil => rfl
    | cons t ts =>
        have ends : t.kind = .eof := ends
        simp [ends]
  show (p.stream.front.drop (p.cursor + used.length)).takeWhile (·.kind ≠ .eof) = us
  rw [dropped, List.takeWhile_append_of_pos passes, stops, List.append_nil]

/-- The tokens ahead are those left and then an end marker. -/
theorem peek_length (left : p.rest = used ++ us) :
    (p.peek used.length).kind = nextKind us ∧ ∀ t ts, us = t :: ts → p.peek used.length = t := by
  obtain ⟨behind, parts, ends⟩ := p.exists_behind
  have ahead : p.peek used.length = (us ++ behind).headD p.stream.marker := by
    rw [peek, TokenStream.get, List.getD_eq_getElem?_getD, ← List.getElem?_drop, parts, left,
      List.append_assoc, List.getElem?_append_right (Nat.le_refl _), Nat.sub_self,
      List.headD_eq_head?_getD, List.head?_eq_getElem?]
  rw [ahead]
  cases us with
  | nil => exact ⟨ends, nofun⟩
  | cons u us =>
      refine ⟨rfl, ?_⟩
      rintro t ts same
      exact (List.cons.inj same).1

/-- The kind of the next token. -/
theorem kind_peek (p : Parser) : (p.peek 0).kind = nextKind p.rest :=
  (peek_length (List.nil_append p.rest).symm).1

/-- The next token is the first of those left. -/
theorem peek_of_rest (left : p.rest = t :: us) : p.peek 0 = t :=
  (peek_length (left.trans (List.nil_append _).symm)).2 t us rfl

/-- The kind of the token behind the next one. -/
theorem kind_peek_one (left : p.rest = t :: us) : (p.peek 1).kind = nextKind us :=
  (peek_length (left.trans (List.singleton_append).symm)).1

theorem atEnd_iff : p.atEnd = true ↔ p.rest = [] := by
  rw [atEnd, decide_eq_true_iff, kind_peek]
  cases left : p.rest with
  | nil => exact iff_of_true rfl rfl
  | cons t us =>
      refine iff_of_false ?_ (List.cons_ne_nil t us)
      exact p.unended_rest t (left ▸ List.mem_cons_self)

/-- Taking the next token. -/
theorem advance_of_rest (left : p.rest = t :: us) : p.advance = p.take [t] 0 := by
  have inside : ¬ p.atEnd = true := by
    rw [atEnd_iff, left]
    exact List.cons_ne_nil t us
  rw [advance, if_neg inside, peek_of_rest left, take, UInt64.add_zero]
  rfl

end Parser

/-! ## Following a reply -/

variable {α β V W : Type} {m n : Nat} {p : Parser}

/-- The routine does at the state what the reply to the tokens left says.  Values, what is made
of them, and the counter afterwards are related as given. -/
def Follows (p : Parser) (routine : Parse α) (r : Reply V n) (makes : V → α → NodeId → Prop) :
    Prop :=
  match r with
  | .ok v rest made _ => ∃ used a, p.rest = used ++ rest ∧
      routine.run p = (some a, p.take used made.toUInt64) ∧
      makes v a (p.nextId + made.toUInt64)
  | .fail expected rest made => ∃ used, p.rest = used ++ rest ∧
      routine.run p = (none, (p.take used made.toUInt64).fail expected)

section Run

variable {routine : Parse α} {next : α → Parse β} {q : Parser} {a : α}

theorem run_bind_some (runs : routine.run p = (some a, q)) :
    (routine >>= next).run p = (next a).run q := by
  rw [OptionT.run_bind]
  show ((routine.run p).1.elim (pure none) fun b => (next b).run) (routine.run p).2 = _
  rw [runs]
  rfl

theorem run_bind_none (runs : routine.run p = (none, q)) :
    (routine >>= next).run p = (none, q) := by
  rw [OptionT.run_bind]
  show ((routine.run p).1.elim (pure none) fun b => (next b).run) (routine.run p).2 = _
  rw [runs]
  rfl

end Run

namespace Follows

variable {routine routine' : Parse α} {next : α → Parse β} {r : Reply V n}
  {makes : V → α → NodeId → Prop} {makes' : W → β → NodeId → Prop}

/-- Only the run from the state matters. -/
theorem congr (follows : Follows p routine r makes) (same : routine'.run p = routine.run p) :
    Follows p routine' r makes := by
  unfold Follows
  rw [same]
  exact follows

/-- A routine that has taken tokens and drawn identifiers goes on from there. -/
theorem behind {used : List Token} {made : Nat} {q : Parser}
    (left : p.rest = used ++ q.rest) (reached : q = p.take used made.toUInt64)
    (same : routine.run p = routine'.run q) (follows : Follows q routine' r makes) :
    Follows p routine (r.after made) makes := by
  subst reached
  cases r with
  | ok v rest made' h =>
      obtain ⟨used', a, left', runs, related⟩ := follows
      refine ⟨used ++ used', a, ?_, ?_, ?_⟩
      · rw [left, left', List.append_assoc]
      · rw [same, runs, Parser.take_take, toUInt64_add]
      · rw [toUInt64_add, ← UInt64.add_assoc]
        exact related
  | fail expected rest made' =>
      obtain ⟨used', left', runs⟩ := follows
      refine ⟨used ++ used', ?_, ?_⟩
      · rw [left, left', List.append_assoc]
      · rw [same, runs, Parser.take_take, toUInt64_add]

/-- **Routines one behind the other follow replies one behind the other.** -/
theorem bind {r : Reply V m} {go : V → (rest : List Token) → rest.length < m → Reply W n}
    (first : Follows p routine r makes)
    (further : ∀ q v a h, makes v a q.nextId → Follows q (next a) (go v q.rest h) makes') :
    Follows p (routine >>= next) (r.bind go) makes' := by
  cases r with
  | ok v rest made h =>
      obtain ⟨used, a, left, runs, related⟩ := first
      obtain rfl := Parser.rest_take left made.toUInt64
      exact behind left rfl (run_bind_some runs) (further _ v a h related)
  | fail expected rest made =>
      obtain ⟨used, left, runs⟩ := first
      exact ⟨used, left, run_bind_none runs⟩

/-- A reply may do more with a value when the routine has nothing more to do. -/
theorem finish {r : Reply V m} {f : V → W} {shorter : ∀ _ rest, rest.length < m → rest.length < n}
    {makes' : W → α → NodeId → Prop} (follows : Follows p routine r makes)
    (related : ∀ v a id, makes v a id → makes' (f v) a id) :
    Follows p routine (r.bind fun v rest h => .ok (f v) rest 0 (shorter v rest h)) makes' := by
  cases r with
  | ok v rest made h =>
      obtain ⟨used, a, left, runs, makes⟩ := follows
      exact ⟨used, a, left, runs, related v a _ makes⟩
  | fail expected rest made => exact follows

theorem widen {r : Reply V m} {h : m ≤ n} (follows : Follows p routine r makes) :
    Follows p routine (r.widen h) makes := by
  cases r <;> exact follows

theorem map {f : V → W} {makes' : W → α → NodeId → Prop} (follows : Follows p routine r makes)
    (related : ∀ v a id, makes v a id → makes' (f v) a id) :
    Follows p routine (r.map f) makes' := by
  cases r with
  | ok v rest made h =>
      obtain ⟨used, a, left, runs, makes⟩ := follows
      exact ⟨used, a, left, runs, related v a _ makes⟩
  | fail expected rest made => exact follows

theorem mono {makes' : V → α → NodeId → Prop} (follows : Follows p routine r makes)
    (related : ∀ v a id, makes v a id → makes' v a id) : Follows p routine r makes' := by
  cases r with
  | ok v rest made h =>
      obtain ⟨used, a, left, runs, makes⟩ := follows
      exact ⟨used, a, left, runs, related v a _ makes⟩
  | fail expected rest made => exact follows

/-- What a routine makes may be changed. -/
theorem made (f : α → β) (follows : Follows p routine r makes) :
    Follows p (do return f (← routine)) r fun v b id => ∃ a, makes v a id ∧ f a = b := by
  cases r with
  | ok v rest made h =>
      obtain ⟨used, a, left, runs, related⟩ := follows
      exact ⟨used, f a, left, run_bind_some runs, a, related, rfl⟩
  | fail expected rest made =>
      obtain ⟨used, left, runs⟩ := follows
      exact ⟨used, left, run_bind_none runs⟩

/-- A routine that has only to hand over what was made. -/
theorem pure {v : V} {a : α} {h : p.rest.length < n} (related : makes v a p.nextId) :
    Follows p (Pure.pure a) (.ok v p.rest 0 h) makes := by
  refine ⟨[], a, rfl, ?_, ?_⟩
  · rw [show Nat.toUInt64 0 = 0 from rfl, p.take_nil]
    rfl
  · rw [show Nat.toUInt64 0 = 0 from rfl, UInt64.add_zero]
    exact related

end Follows

/-! ## Single tokens -/

namespace Reply

theorem after_after (r : Reply V n) (k l : Nat) : (r.after k).after l = r.after (l + k) := by
  cases r <;> simp only [after, Nat.add_assoc]

theorem after_bind {r : Reply V m} {k : Nat}
    {go : V → (rest : List Token) → rest.length < m → Reply W n} :
    (r.after k).bind go = (r.bind go).after k := by
  cases r with
  | ok v rest made h => exact (after_after _ made k).symm
  | fail => rfl

theorem ok_bind {v : V} {rest : List Token} {made : Nat} {h : rest.length < m}
    {go : V → (rest : List Token) → rest.length < m → Reply W n} :
    (ok v rest made h).bind go = (go v rest h).after made := rfl

theorem bind_ok (r : Reply V n) : (r.bind fun v rest h => .ok v rest 0 h) = r := by
  cases r <;> rfl

theorem bind_assoc {U : Type} {l : Nat} {r : Reply U l}
    {go : U → (rest : List Token) → rest.length < l → Reply V m}
    {go' : V → (rest : List Token) → rest.length < m → Reply W n} :
    (r.bind go).bind go' = r.bind fun u rest h => (go u rest h).bind go' := by
  cases r with
  | ok u rest made h => exact after_bind
  | fail => rfl

theorem node_eq_bind (r : Reply V n) : r.node = r.bind fun v rest h => .ok v rest 1 h := by
  cases r <;> rfl

/-- A node that is counted behind a value may be counted in front of what follows. -/
theorem node_bind {r : Reply V m} {go : V → (rest : List Token) → rest.length < m → Reply W n} :
    r.node.bind go = r.bind fun v rest h => (go v rest h).after 1 := by
  cases r with
  | ok v rest made h => exact (after_after _ 1 made).symm
  | fail => rfl

end Reply

section Tokens

variable {test : TokenKind → Bool} {k : TokenKind} {expected : Expectation} {t : Token}
  {us : List Token} {r : Reply V n} {makes : V → α → NodeId → Prop}

theorem run_acceptIf_of_passes (left : p.rest = t :: us) (passes : test t.kind = true) :
    (Parse.acceptIf test).run p = (some (some t), p.take [t] 0) := by
  have here := Parser.peek_of_rest left
  have passes : test (p.peek 0).kind = true := by rw [here]; exact passes
  show (if test (p.peek 0).kind then some <$> Parse.advance else pure none).run p = _
  rw [if_pos passes]
  show (some (some (p.peek 0)), p.advance) = _
  rw [here, Parser.advance_of_rest left]

theorem run_acceptIf_of_stops (stops : test (nextKind p.rest) = false) :
    (Parse.acceptIf test).run p = (some none, p) := by
  rw [← Parser.kind_peek] at stops
  show (if test (p.peek 0).kind then some <$> Parse.advance else pure none).run p = _
  rw [stops]
  rfl

theorem run_accept_of_passes (left : p.rest = t :: us) (here : t.kind = k) :
    (Parse.accept k).run p = (some true, p.take [t] 0) :=
  run_bind_some (run_acceptIf_of_passes left (decide_eq_true here))

theorem run_accept_of_stops (elsewhere : nextKind p.rest ≠ k) :
    (Parse.accept k).run p = (some false, p) :=
  run_bind_some (run_acceptIf_of_stops (decide_eq_false elsewhere))

/-- A mark that is next is the kind of the first token left. -/
theorem exists_of_nextKind {tokens : List Token} (mark : k ≠ .eof) (here : nextKind tokens = k) :
    ∃ t us, tokens = t :: us ∧ t.kind = k := by
  cases tokens with
  | nil => exact absurd here.symm mark
  | cons t us => exact ⟨t, us, rfl, here⟩

theorem run_advance (left : p.rest = t :: us) :
    Parse.advance.run p = (some t, p.take [t] 0) := by
  show (some (p.peek 0), p.advance) = _
  rw [Parser.peek_of_rest left, Parser.advance_of_rest left]

namespace Follows

/-- Looking at the next token changes nothing. -/
theorem kindAt {next : TokenKind → Parse α} (follows : Follows p (next (nextKind p.rest)) r makes) :
    Follows p (Parse.kindAt 0 >>= next) r makes := by
  refine follows.congr ?_
  rw [← Parser.kind_peek]
  rfl

/-- An error is recorded where the reply fails. -/
theorem error (left : p.rest = us) :
    Follows p (Parse.error expected >>= fun _ => (failure : Parse α))
      (.fail expected us 0 : Reply V n) makes := by
  refine ⟨[], left, ?_⟩
  rw [show Nat.toUInt64 0 = 0 from rfl, p.take_nil]
  rfl

/-- Looking at the token behind the next one changes nothing. -/
theorem kindAt_one {next : TokenKind → Parse α} (left : p.rest = t :: us)
    (follows : Follows p (next (nextKind us)) r makes) :
    Follows p (Parse.kindAt 1 >>= next) r makes := by
  refine follows.congr ?_
  rw [← Parser.kind_peek_one left]
  rfl

/-- **A token that is expected** is taken, or its absence is recorded. -/
theorem expectIf (mark : test .eof = false) :
    Follows p (Parse.expectIf test expected) (takeIf test expected p.rest)
      fun t a id => a = t ∧ id = p.nextId := by
  by_cases passes : test (nextKind p.rest)
  · cases left : p.rest with
    | nil =>
        rw [left, nextKind_nil, mark] at passes
        cases passes
    | cons t us =>
        rw [left] at passes
        rw [takeIf_of_passes passes]
        refine ⟨[t], t, left, ?_, rfl, UInt64.add_zero _⟩
        exact run_bind_some (run_acceptIf_of_passes left passes)
  · have stops := Bool.eq_false_iff.mpr passes
    rw [takeIf_of_stops stops]
    refine ⟨[], rfl, (run_bind_some (run_acceptIf_of_stops stops)).trans ?_⟩
    rw [show Nat.toUInt64 0 = 0 from rfl, p.take_nil]
    rfl

variable {next : Token → Parse β} {makes' : W → β → NodeId → Prop}

/-- A token that is expected in front of something else. -/
theorem expect_bind {go : Token → (rest : List Token) → rest.length < p.rest.length → Reply W n}
    (mark : test .eof = false)
    (further : ∀ q t h, q.nextId = p.nextId → Follows q (next t) (go t q.rest h) makes') :
    Follows p (Parse.expectIf test expected >>= next) ((takeIf test expected p.rest).bind go)
      makes' := by
  refine bind (expectIf mark) fun q t a h related => ?_
  obtain ⟨rfl, counter⟩ := related
  exact further q a h counter

/-- A routine that takes the first token left. -/
theorem taken_bind {first : Parse V} {next : V → Parse β} {v : V}
    {go : Token → (rest : List Token) → rest.length < p.rest.length → Reply W n}
    (left : p.rest = t :: us) (here : t.kind = k) (runs : first.run p = (some v, p.take [t] 0))
    (further : ∀ q t h, q.nextId = p.nextId → Follows q (next v) (go t q.rest h) makes') :
    Follows p (first >>= next) ((takeIf (· = k) expected p.rest).bind go) makes' := by
  have mark : decide (TokenKind.eof = k) = false := by
    refine decide_eq_false ?_
    rintro rfl
    exact p.unended_rest t (left ▸ List.mem_cons_self) here
  have follows : Follows p (Parse.expect k expected >>= fun _ => next v)
      ((takeIf (· = k) expected p.rest).bind go) makes' := expect_bind mark further
  have expect : (Parse.expect k expected).run p = (some t, p.take [t] 0) :=
    run_bind_some (run_acceptIf_of_passes left (decide_eq_true here))
  refine follows.congr ?_
  rw [run_bind_some runs, run_bind_some expect]

/-- The next token is taken where its kind is known. -/
theorem advance_of_next {go : Token → (rest : List Token) → rest.length < p.rest.length → Reply W n}
    (mark : k ≠ .eof) (here : nextKind p.rest = k)
    (further : ∀ q t u h, q.nextId = p.nextId → Follows q (next u) (go t q.rest h) makes') :
    Follows p (Parse.advance >>= next) ((takeIf (· = k) expected p.rest).bind go) makes' := by
  obtain ⟨t, us, left, here⟩ := exists_of_nextKind mark here
  exact taken_bind left here (run_advance left) fun q u h counter => further q u t h counter

/-- The next token is taken where it is known. -/
theorem advance_bind {r : Reply W n} (left : p.rest = t :: us)
    (follows : ∀ q, us = q.rest → q.nextId = p.nextId → Follows q (next t) r makes') :
    Follows p (Parse.advance >>= next) r makes' := by
  have rest : us = (p.take [t] 0).rest :=
    (Parser.rest_take (left.trans List.singleton_append.symm) 0).symm
  have reached : p.take [t] 0 = p.take [t] (Nat.toUInt64 0) := rfl
  rw [← r.after_zero]
  exact behind (left.trans (congrArg ([t] ++ ·) rest)) reached (run_bind_some (run_advance left))
    (follows _ rest (UInt64.add_zero _))

/-- A token that passes a test is taken. -/
theorem acceptIf_of_next {next : Option Token → Parse β}
    {go : Token → (rest : List Token) → rest.length < p.rest.length → Reply W n}
    (mark : test .eof = false) (here : test (nextKind p.rest) = true)
    (further : ∀ q t h, q.nextId = p.nextId → Follows q (next (some t)) (go t q.rest h) makes') :
    Follows p (Parse.acceptIf test >>= next) ((takeIf test expected p.rest).bind go) makes' := by
  have taken : Follows p (Parse.expectIf test expected >>= fun t => next (some t))
      ((takeIf test expected p.rest).bind go) makes' := expect_bind mark further
  refine taken.congr ?_
  cases left : p.rest with
  | nil =>
      rw [left, nextKind_nil, mark] at here
      cases here
  | cons t us =>
      rw [left] at here
      have accepts := run_acceptIf_of_passes left here
      have expects : (Parse.expectIf test expected).run p = (some t, p.take [t] 0) :=
        run_bind_some accepts
      rw [run_bind_some accepts, run_bind_some expects]

/-- A token that does not pass a test is not taken. -/
theorem acceptIf_of_not_next {next : Option Token → Parse β} {r : Reply W n}
    (elsewhere : test (nextKind p.rest) = false) (follows : Follows p (next none) r makes') :
    Follows p (Parse.acceptIf test >>= next) r makes' :=
  follows.congr (run_bind_some (run_acceptIf_of_stops elsewhere))

section Accept

variable {taken absent : Parse α}
  {go : Token → (rest : List Token) → rest.length < p.rest.length → Reply V n}

/-- A token that is next is taken. -/
theorem accept_of_next (mark : k ≠ .eof) (here : nextKind p.rest = k)
    (further : ∀ q t h, q.nextId = p.nextId → Follows q taken (go t q.rest h) makes) :
    Follows p (Parse.accept k >>= fun yes => if yes = true then taken else absent)
      ((takeIf (· = k) expected p.rest).bind go) makes := by
  obtain ⟨t, us, left, here⟩ := exists_of_nextKind mark here
  exact taken_bind left here (run_accept_of_passes left here) further

/-- A token that is not next is not taken. -/
theorem accept_of_not_next (elsewhere : nextKind p.rest ≠ k) (follows : Follows p absent r makes) :
    Follows p (Parse.accept k >>= fun yes => if yes = true then taken else absent) r makes :=
  follows.congr (run_bind_some (run_accept_of_stops elsewhere))

/-- A token that may be next. -/
theorem accept_bind (mark : k ≠ .eof)
    (further : ∀ q t h, q.nextId = p.nextId → Follows q taken (go t q.rest h) makes)
    (otherwise : Follows p absent r makes) :
    Follows p (Parse.accept k >>= fun yes => if yes = true then taken else absent)
      (if nextKind p.rest = k then (take k p.rest).bind go else r) makes := by
  split
  · exact accept_of_next mark ‹_› further
  · exact accept_of_not_next ‹_› otherwise

end Accept

/-- A token that may be left out. -/
theorem skip (mark : k ≠ .eof) :
    Follows p (Parse.accept k) (skip k p.rest) fun yes a id => a = yes ∧ id = p.nextId := by
  unfold BlockSyntax.skip
  split
  · rename_i here
    obtain ⟨t, us, left, here⟩ := exists_of_nextKind mark here
    refine widen ?_
    rw [left, BlockSyntax.take, takeIf_of_passes (decide_eq_true here)]
    exact ⟨[t], true, left, run_accept_of_passes left here, rfl, UInt64.add_zero _⟩
  · rename_i elsewhere
    have follows : Follows p (Pure.pure false : Parse Bool) (.ok false p.rest 0 (length_lt_succ _))
        fun yes a id => a = yes ∧ id = p.nextId := .pure ⟨rfl, rfl⟩
    exact follows.congr (run_accept_of_stops elsewhere)

end Follows

end Tokens

/-! ## Nodes -/

namespace Follows

variable {routine : Parse α} {next : α → Parse β} {r : Reply W n} {makes : W → β → NodeId → Prop}
  {a : α} {w : W}

theorem drawn (runs : routine.run p = (some a, p.take [] 1))
    (follows : Follows (p.take [] 1) (next a) r makes) :
    Follows p (routine >>= next) (r.after 1) makes := by
  have rest : p.rest = [] ++ (p.take [] 1).rest := rfl
  have reached : p.take [] 1 = p.take [] (Nat.toUInt64 1) := rfl
  exact behind rest reached (run_bind_some runs) follows

/-- A node that is complete in front of something else. -/
theorem draw_bind {us : List Token} (left : p.rest = us)
    (runs : routine.run p = (some a, p.take [] 1))
    (follows : ∀ q, us = q.rest → q.nextId = p.nextId + 1 → Follows q (next a) r makes) :
    Follows p (routine >>= next) (r.after 1) makes :=
  drawn runs (follows _ left.symm rfl)

/-- A node that is complete when all tokens are taken. -/
theorem draw_ok {made : Nat} {h : p.rest.length < n}
    (runs : routine.run p = (some a, p.take [] 1))
    (follows : ∀ q (h : q.rest.length < n), q.nextId = p.nextId + 1 →
      Follows q (next a) (.ok w q.rest made h) makes) :
    Follows p (routine >>= next) (.ok w p.rest (made + 1) h) makes := by
  have drawn := drawn runs (follows (p.take [] 1) h rfl)
  simp only [Reply.after, Nat.add_comm 1] at drawn
  exact drawn

/-- The node that is complete last. -/
theorem construct {form : Construct} {parts : List Node} {makes : W → Node → NodeId → Prop}
    {h : p.rest.length < n}
    (related : makes w (.construct p.nextId form parts) (p.nextId + 1)) :
    Follows p (Parse.construct form parts) (.ok w p.rest 1 h) makes :=
  ⟨[], _, rfl, rfl, related⟩

/-- A token that is expected and becomes a terminal, in front of something else. -/
theorem terminal_bind {test : TokenKind → Bool} {expected : Expectation} {label : String}
    {next : Node → Parse β}
    {go : Token → (rest : List Token) → rest.length < p.rest.length → Reply W n}
    (mark : test .eof = false)
    (further : ∀ q t h, q.nextId = p.nextId + 1 →
      Follows q (next (.terminal p.nextId (ascii label) t)) (go t q.rest h) makes) :
    Follows p (Parse.expectIf test expected >>= fun t => Parse.terminal label t >>= next)
      ((takeIf test expected p.rest).node.bind go) makes := by
  rw [node_bind]
  refine expect_bind mark fun q t h counter => drawn rfl ?_
  rw [counter]
  exact further (q.take [] 1) t h (congrArg (· + 1) counter)

end Follows

/-! ## Recursion and loops -/

section Loops

variable {κ σ : Type}

/-- A walk whose node is put behind others. -/
def Numbered.append (walk : V → Numbered Node) (nodes : List Node) (v : V) :
    Numbered (List Node) := do
  return nodes ++ [← walk v]

theorem Numbered.foldlM_append (walk : V → Numbered Node) (vs : List V) (nodes : List Node)
    (id : NodeId) :
    vs.foldlM (Numbered.append walk) nodes id =
      (nodes ++ (vs.mapM walk id).1, (vs.mapM walk id).2) := by
  induction vs generalizing nodes id with
  | nil => exact congrArg (·, id) (List.append_nil nodes).symm
  | cons v vs ih =>
      rw [List.foldlM_cons, List.mapM_cons]
      show vs.foldlM (Numbered.append walk) (nodes ++ [(walk v id).1]) (walk v id).2 = _
      rw [ih, List.append_assoc]
      rfl

theorem run_recursive (body : (κ → Parse α) → κ → Parse α) (argument : κ) (p : Parser) :
    (Parse.recursive body argument).run p = (body (fun inner => OptionT.mk fun q =>
      if q.rest.length < p.rest.length then (Parse.recursive body inner).run q else (none, q))
      argument).run p := by
  show Parse.runRecursive body argument p = _
  rw [Parse.runRecursive]
  rfl

namespace Follows

variable {r : Reply V n} {makes : V → α → NodeId → Prop}

/-- **A routine that calls itself behind a token** may be taken to be there already. -/
theorem recursive {body : (κ → Parse α) → κ → Parse α} {argument : κ}
    (follows : ∀ self : κ → Parse α, (∀ inner q, q.rest.length < p.rest.length →
        (self inner).run q = (Parse.recursive body inner).run q) →
      Follows p (body self argument) r makes) :
    Follows p (Parse.recursive body argument) r makes := by
  refine (follows _ fun inner q shorter => ?_).congr (run_recursive body argument p)
  exact if_pos shorter

theorem loopBelow {round : σ → Parse (Option σ)} {invites : TokenKind → Bool} {item : Below n V}
    {step : σ → V → Numbered σ}
    (ends : ∀ q s, invites (nextKind q.rest) = false → (round s).run q = (some none, q))
    (goes : ∀ q s h, invites (nextKind q.rest) = true →
      Follows q (round s) (item q.rest h) fun v next id =>
        ∃ s', next = some s' ∧ step s v q.nextId = (s', id)) :
    ∀ (p : Parser) (bounded : p.rest.length < n) (s : σ),
      Follows p (Parse.loop round s)
        (whileNext invites p.rest fun us h => item us (by omega))
        fun vs s' id => vs.foldlM step s p.nextId = (s', id) := by
  intro p bounded s
  refine recursive fun again same => ?_
  rw [whileNext]
  split
  · rename_i invited
    refine bind (goes p s bounded invited) fun q v next shorter related => ?_
    obtain ⟨s', rfl, stepped⟩ := related
    have following := loopBelow ends goes q (Nat.lt_trans shorter bounded) s'
    refine finish (following.congr (same s' q shorter)) fun vs last id folded => ?_
    rw [List.foldlM_cons]
    show List.foldlM step (step s v p.nextId).1 vs (step s v p.nextId).2 = _
    rw [stepped]
    exact folded
  · rename_i stops
    have runs := ends p s (Bool.eq_false_iff.mpr stops)
    have stay : Follows p (Pure.pure s : Parse σ) (.ok ([] : List V) p.rest 0 (length_lt_succ _))
        fun vs s' id => vs.foldlM step s p.nextId = (s', id) := .pure rfl
    exact stay.congr (run_bind_some runs)
termination_by p => p.rest.length

/-- **A loop follows a loop of replies** when its rounds follow the items, and end it where no
item is invited. -/
theorem loop {round : σ → Parse (Option σ)} {invites : TokenKind → Bool}
    {item : Below (p.rest.length + 1) V} {step : σ → V → Numbered σ} {s : σ}
    (ends : ∀ q s, invites (nextKind q.rest) = false → (round s).run q = (some none, q))
    (goes : ∀ q s h, invites (nextKind q.rest) = true →
      Follows q (round s) (item q.rest h) fun v next id =>
        ∃ s', next = some s' ∧ step s v q.nextId = (s', id)) :
    Follows p (Parse.loop round s) (whileNext invites p.rest item)
      fun vs s' id => vs.foldlM step s p.nextId = (s', id) :=
  loopBelow ends goes p (length_lt_succ _) s

/-- A loop over the nodes that its rounds make. -/
theorem collect {round : Parse (Option Node)} {invites : TokenKind → Bool}
    {item : Below (p.rest.length + 1) V} {walk : V → Numbered Node}
    (ends : ∀ q, invites (nextKind q.rest) = false → round.run q = (some none, q))
    (goes : ∀ q h, invites (nextKind q.rest) = true →
      Follows q round (item q.rest h) fun v made id =>
        ∃ node, made = some node ∧ walk v q.nextId = (node, id)) :
    Follows p (Parse.collect round) (whileNext invites p.rest item)
      fun vs nodes id => vs.mapM walk p.nextId = (nodes, id) := by
  have rounds : ∀ q nodes h, invites (nextKind q.rest) = true →
      Follows q (do return (← round).map fun node => nodes ++ [node]) (item q.rest h)
        fun v next id => ∃ nodes', next = some nodes' ∧
          Numbered.append walk nodes v q.nextId = (nodes', id) := by
    intro q nodes h invited
    refine ((goes q h invited).made (·.map fun node => nodes ++ [node])).mono ?_
    rintro v next id ⟨_, ⟨node, rfl, walked⟩, rfl⟩
    refine ⟨_, rfl, ?_⟩
    show (nodes ++ [(walk v q.nextId).1], (walk v q.nextId).2) = _
    rw [walked]
  have stops : ∀ q (nodes : List Node), invites (nextKind q.rest) = false →
      OptionT.run (do return (← round).map fun node => nodes ++ [node]) q = (some none, q) :=
    fun q nodes stops => run_bind_some (ends q stops)
  refine (loop stops rounds).mono ?_
  intro vs nodes id folded
  rwa [Numbered.foldlM_append, List.nil_append] at folded

theorem separatedBelow {item : Parse Node} {items : Below n V} {walk : V → Numbered Node}
    (each : ∀ q h, Follows q item (items q.rest h) fun v node id => walk v q.nextId = (node, id)) :
    ∀ (p : Parser) (bounded : p.rest.length < n) (before : List Node),
      Follows p (Parse.separatedFrom item before)
        (BlockSyntax.separated p.rest fun us h => items us (by omega))
        fun vs nodes id => ∃ made, nodes = before ++ made ∧ vs.mapM walk p.nextId = (made, id) := by
  intro p bounded before
  refine recursive fun again same => ?_
  rw [BlockSyntax.separated]
  refine bind (each p bounded) fun q v node shorter walked => ?_
  have one : ∀ (vs : List V) (nodes : List Node) (id : NodeId),
      vs.mapM walk q.nextId = (nodes, id) → (v :: vs).mapM walk p.nextId = (node :: nodes, id) := by
    intro vs nodes id following
    rw [List.mapM_cons]
    show (((walk v p.nextId).1 :: (vs.mapM walk (walk v p.nextId).2).1),
      (vs.mapM walk (walk v p.nextId).2).2) = _
    rw [walked, following]
  refine accept_bind (by decide) (fun q' t closer counter => ?_) ?_
  · have less : q'.rest.length < p.rest.length := Nat.lt_trans closer shorter
    have following := separatedBelow each q' (Nat.lt_trans less bounded) (before ++ [node])
    refine finish (following.congr (same _ q' less)) fun vs nodes id related => ?_
    obtain ⟨made, rfl, walkedAll⟩ := related
    rw [counter] at walkedAll
    exact ⟨node :: made, List.append_assoc _ _ _, one vs made id walkedAll⟩
  · exact .pure ⟨[node], rfl, one [] [] q.nextId rfl⟩
termination_by p => p.rest.length

/-- **Items with commas between them.** -/
theorem separated {item : Parse Node} {items : Below (p.rest.length + 1) V}
    {walk : V → Numbered Node}
    (each : ∀ q h, Follows q item (items q.rest h) fun v node id => walk v q.nextId = (node, id)) :
    Follows p (Parse.separated item) (BlockSyntax.separated p.rest items)
      fun vs nodes id => vs.mapM walk p.nextId = (nodes, id) := by
  refine (separatedBelow each p (length_lt_succ _) []).mono ?_
  rintro vs nodes id ⟨_, rfl, walked⟩
  exact walked

end Follows

end Loops

end BlockSyntax
