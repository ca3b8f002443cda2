import BlockSyntax.Proofs.Locality
import BlockSyntax.Proofs.Spelling

/-!
# Prefixes that can be completed

A parser that fails has taken tokens that gave no value.  They are a viable prefix when
other tokens behind them complete a value, so that the failure was noticed no later than
it could be.  `Reply.ViableAt` says so of one reply, of a failure as well as of a value:
what was taken can be completed behind a value too, because the parser of what comes next
may fail at its first token, and then the value is completed in another way.

What completes a prefix has to do so in front of other tokens, because a prefix of a part
is completed by completing the part and then what encloses it.  The set `follow` says what
the next of them may be; a loop that goes on as long as it is invited, for one, is not
completed in front of a token that invites another item.  The tokens that complete a part
behind no tokens at all are a sample of it, and `Reply.Opens` says what a sample starts
with, so that it may stand where the part before it ends.

The parsers for the parts inside appear twice, as in `Reply.Determines`: those of the reply
are known to be viable below a bound, those of the family are the whole grammar.
-/

set_option autoImplicit false

namespace BlockSyntax

variable {α β : Type} {I J K : Type} {m n : Nat}

/-- The set of all kinds. -/
def anyKind (_ : TokenKind) : Prop := True

namespace Reply

/-- The tokens used are completed: with more tokens behind them the family gives a value, in
front of every list whose next kind may follow. -/
def Completes (follow : TokenKind → Prop) (used : List Token) (front : J → List Token)
    {bound : J → Nat} (family : (j : J) → Reply α (bound j)) : Prop :=
  ∃ more a, ∀ v, follow (nextKind v) → ∀ j, front j = used ++ (more ++ v) → (family j).Gives a v

/-- The family has a sample, which starts with one of the kinds in `first`. -/
def Opens (follow first : TokenKind → Prop) (front : J → List Token) {bound : J → Nat}
    (family : (j : J) → Reply α (bound j)) : Prop :=
  ∃ more a, ∀ v, follow (nextKind v) → first (nextKind (more ++ v)) ∧
    ∀ j, front j = more ++ v → (family j).Gives a v

/-- What the reply to `us` has taken can be completed. -/
structure ViableAt (follow : TokenKind → Prop) (us : List Token) (r : Reply α n)
    (front : J → List Token) {bound : J → Nat} (family : (j : J) → Reply α (bound j)) : Prop where
  /-- The family replies the same as long as the same tokens are taken. -/
  determines : r.Determines id id us front family
  /-- The tokens taken are completed. -/
  completes : ∃ used, us = used ++ r.left ∧ Completes follow used front family

/-- What the replies to the lists `input i` have taken can be completed, and there is a
sample. -/
structure Viable (follow first : TokenKind → Prop) (input : I → List Token) {limit : I → Nat}
    (r : (i : I) → Reply α (limit i)) (front : J → List Token) {bound : J → Nat}
    (family : (j : J) → Reply α (bound j)) : Prop where
  /-- What has been taken can be completed. -/
  each : ∀ i, ViableAt follow (input i) (r i) front family
  /-- There is a sample. -/
  opens : Opens follow first front family

section Family

variable {follow first follow' first' : TokenKind → Prop} {front : J → List Token}
  {bound bound' : J → Nat} {family : (j : J) → Reply α (bound j)}

/-! ## Completions and samples -/

theorem Completes.image {used : List Token} {others : (j : J) → Reply β (bound' j)} {g : α → β}
    (gives : ∀ j a v, (family j).Gives a v → (others j).Gives (g a) v)
    (completes : Completes follow used front family) : Completes follow used front others := by
  obtain ⟨more, a, completed⟩ := completes
  exact ⟨more, g a, fun v follows j same => gives j a v (completed v follows j same)⟩

theorem Completes.comp {used : List Token} (place : K → J)
    (completes : Completes follow used front family) :
    Completes follow used (fun k => front (place k)) fun k => family (place k) := by
  obtain ⟨more, a, completed⟩ := completes
  exact ⟨more, a, fun v follows k => completed v follows (place k)⟩

theorem Completes.mono {used : List Token} (fewer : ∀ k, follow' k → follow k)
    (completes : Completes follow used front family) : Completes follow' used front family := by
  obtain ⟨more, a, completed⟩ := completes
  exact ⟨more, a, fun v follows => completed v (fewer _ follows)⟩

/-- What begins a value is completed with the value and a sample of what comes next. -/
theorem Completes.bind {used : List Token} {between : TokenKind → Prop} {limit : J → Nat}
    {next : (j : J) → α → (rest : List Token) → rest.length < bound j → Reply β (limit j)}
    (completes : Completes between used front family)
    (opens : ∀ a, Opens follow between (fun j : Behind bound => j.rest)
      fun j => next j.start a j.rest j.shorter) :
    Completes follow used front fun j => (family j).bind (next j) := by
  obtain ⟨more, a, completed⟩ := completes
  obtain ⟨others, b, sample⟩ := opens a
  refine ⟨more ++ others, b, fun v follows j list => ?_⟩
  obtain ⟨starts, given⟩ := sample v follows
  have first := completed (others ++ v) starts j (by rw [list, List.append_assoc])
  exact first.bind fun shorter => given ⟨j, others ++ v, shorter⟩ rfl

/-- What begins behind a value is completed behind the value, which is the same because the
first token behind it is. -/
theorem Completes.behind {used used' mid left : List Token} {t : Token} {a : α} {made : Nat}
    {h : mid.length < n} {limit : J → Nat}
    {next : (j : J) → α → (rest : List Token) → rest.length < bound j → Reply β (limit j)}
    (completes : Completes follow (t :: used') (fun j : Behind bound => j.rest)
      fun j => next j.start a j.rest j.shorter)
    (one : (Reply.ok a mid made h : Reply α n).Determines id id (used ++ mid) front family)
    (begins : mid = t :: used' ++ left) :
    Completes follow (used ++ t :: used') front fun j => (family j).bind (next j) := by
  obtain ⟨more, b, completed⟩ := completes
  obtain ⟨taken, parts, others⟩ := one
  obtain rfl : used = taken := List.append_cancel_right parts
  refine ⟨more, b, fun v follows j list => ?_⟩
  -- what completes the second parser stands behind `t`, so the first still stops in front of `t`
  have alike : nextKind (t :: used' ++ (more ++ v)) = nextKind mid := by
    rw [begins]
    rfl
  rw [List.append_assoc] at list
  obtain ⟨shorter, reply⟩ := others j _ (by rw [List.map_id]; exact list) alike
  show ((family j).bind (next j)).Gives b v
  rw [reply]
  exact gives_after.mpr (completed v follows ⟨j, _, shorter⟩ rfl)

namespace Opens

/-- A sample completes no tokens at all. -/
theorem completes (opens : Opens follow first front family) :
    Completes follow [] front family := by
  obtain ⟨more, a, sample⟩ := opens
  exact ⟨more, a, fun v follows => (sample v follows).2⟩

theorem image {others : (j : J) → Reply β (bound' j)} {g : α → β}
    (gives : ∀ j a v, (family j).Gives a v → (others j).Gives (g a) v)
    (opens : Opens follow first front family) : Opens follow first front others := by
  obtain ⟨more, a, sample⟩ := opens
  refine ⟨more, g a, fun v follows => ?_⟩
  obtain ⟨starts, given⟩ := sample v follows
  exact ⟨starts, fun j same => gives j a v (given j same)⟩

theorem comp (place : K → J) (opens : Opens follow first front family) :
    Opens follow first (fun k => front (place k)) fun k => family (place k) := by
  obtain ⟨more, a, sample⟩ := opens
  exact ⟨more, a, fun v follows => ⟨(sample v follows).1, fun k => (sample v follows).2 (place k)⟩⟩

theorem mono (fewer : ∀ k, follow' k → follow k) (larger : ∀ k, first k → first' k)
    (opens : Opens follow first front family) : Opens follow' first' front family := by
  obtain ⟨more, a, sample⟩ := opens
  refine ⟨more, a, fun v follows => ?_⟩
  obtain ⟨starts, given⟩ := sample v (fewer _ follows)
  exact ⟨larger _ starts, given⟩

/-- The sample of a family is one of another that replies the same to what starts like it. -/
theorem congr {others : (j : J) → Reply α (bound j)} (opens : Opens follow first' front family)
    (same : ∀ j, first' (nextKind (front j)) → others j = family j)
    (larger : ∀ k, first' k → first k) : Opens follow first front others := by
  obtain ⟨more, a, sample⟩ := opens
  refine ⟨more, a, fun v follows => ?_⟩
  obtain ⟨starts, given⟩ := sample v follows
  refine ⟨larger _ starts, fun j list => ?_⟩
  rw [same j (by rw [list]; exact starts)]
  exact given j list

/-- A parser that takes no tokens has an empty sample. -/
theorem ok {a : α} {made : J → Nat} {h : ∀ j, (front j).length < bound j}
    (ends : ∀ k, follow k → first k) :
    Opens follow first front fun j => (.ok a (front j) (made j) (h j) : Reply α (bound j)) :=
  ⟨[], a, fun _ follows => ⟨ends _ follows, fun _ same => ⟨rfl, same⟩⟩⟩

/-- One sample behind the other, when the second starts with what may follow the first. -/
theorem bind {between : TokenKind → Prop} {limit : J → Nat}
    {next : (j : J) → α → (rest : List Token) → rest.length < bound j → Reply β (limit j)}
    (one : Opens between first front family)
    (behind : ∀ a, Opens follow between (fun j : Behind bound => j.rest)
      fun j => next j.start a j.rest j.shorter) :
    Opens follow first front fun j => (family j).bind (next j) := by
  obtain ⟨more, a, sample⟩ := one
  obtain ⟨others, b, sample'⟩ := behind a
  refine ⟨more ++ others, b, fun v follows => ?_⟩
  obtain ⟨starts', given'⟩ := sample' v follows
  obtain ⟨starts, given⟩ := sample (others ++ v) starts'
  rw [List.append_assoc]
  refine ⟨starts, fun j same => ?_⟩
  exact (given j same).bind fun shorter => given' ⟨j, others ++ v, shorter⟩ rfl

end Opens

/-! ## One reply -/

namespace ViableAt

variable {us : List Token} {r : Reply α n}

theorem image {r' : Reply β m} {others : (j : J) → Reply β (bound' j)} {g : α → β}
    (determines : r'.Determines id id us front others) (left : r'.left = r.left)
    (gives : ∀ j a v, (family j).Gives a v → (others j).Gives (g a) v)
    (viable : ViableAt follow us r front family) : ViableAt follow us r' front others := by
  obtain ⟨used, parts, completes⟩ := viable.completes
  exact ⟨determines, used, left ▸ parts, completes.image gives⟩

theorem comp (place : K → J) (viable : ViableAt follow us r front family) :
    ViableAt follow us r (fun k => front (place k)) fun k => family (place k) := by
  obtain ⟨used, parts, completes⟩ := viable.completes
  exact ⟨viable.determines.comp place, used, parts, completes.comp place⟩

theorem mono (fewer : ∀ k, follow' k → follow k) (viable : ViableAt follow us r front family) :
    ViableAt follow' us r front family := by
  obtain ⟨used, parts, completes⟩ := viable.completes
  exact ⟨viable.determines, used, parts, completes.mono fewer⟩

/-- A reply that has taken no token is viable when there is a sample. -/
theorem of_left (determines : r.Determines id id us front family) (left : r.left = us)
    (opens : Opens follow first front family) : ViableAt follow us r front family :=
  ⟨determines, [], left.symm, opens.completes⟩

/-- A failure at the first token is viable when there is a sample. -/
theorem failed {e : Expectation} {made : Nat}
    (same : ∀ j, nextKind (front j) = nextKind us → family j = .fail e (front j) made)
    (opens : Opens follow first front family) :
    ViableAt follow us (.fail e us made : Reply α n) front family :=
  of_left (Determines.fail.congr (fun _ => rfl) same) rfl opens

theorem ok {a : α} {made : Nat} {h : us.length < n} {h' : ∀ j, (front j).length < bound j}
    (ends : ∀ k, follow k → first k) :
    ViableAt follow us (.ok a us made h : Reply α n) front fun j =>
      (.ok a (front j) made (h' j) : Reply α (bound j)) :=
  of_left (.ok h') rfl (Opens.ok ends)

/-- Only the lists whose next token is of the same kind are of any concern, as long as there
is a sample. -/
theorem congr {others : (j : J) → Reply α (bound j)} (viable : ViableAt follow us r front family)
    (same : ∀ j, nextKind (front j) = nextKind us → others j = family j)
    (opens : Opens follow first front others) : ViableAt follow us r front others := by
  refine ⟨viable.determines.congr (fun _ => rfl) same, ?_⟩
  obtain ⟨used, parts, completes⟩ := viable.completes
  refine ⟨used, parts, ?_⟩
  cases used with
  | nil =>
      -- on other lists `others` need not do what the family does, so its own sample has to serve
      exact opens.completes
  | cons t used =>
      obtain ⟨more, a, completed⟩ := completes
      refine ⟨more, a, fun v follows j list => ?_⟩
      rw [same j (by rw [list, parts]; rfl)]
      exact completed v follows j list

/-- **Two parsers, one behind the other.**  What both have taken is completed by completing the
second; if the second has taken nothing, or the first failed, the first is completed and
then a sample of the second stands behind it. -/
theorem bind {between : TokenKind → Prop} {k : Nat} {limit : J → Nat}
    {next : α → (rest : List Token) → rest.length < n → Reply β k}
    {next' : (j : J) → α → (rest : List Token) → rest.length < bound j → Reply β (limit j)}
    (one : ViableAt between us r front family)
    (behind : ∀ a rest h, ViableAt follow rest (next a rest h) (fun j : Behind bound => j.rest)
      fun j => next' j.start a j.rest j.shorter)
    (opens : ∀ a, Opens follow between (fun j : Behind bound => j.rest)
      fun j => next' j.start a j.rest j.shorter) :
    ViableAt follow us (r.bind next) front fun j => (family j).bind (next' j) := by
  refine ⟨.bind (fun _ => rfl) one.determines fun a rest h => (behind a rest h).determines, ?_⟩
  obtain ⟨used, parts, completes⟩ := one.completes
  cases r with
  | fail e rest made => exact ⟨used, parts, completes.bind opens⟩
  | ok a mid made h =>
      obtain ⟨used', parts', completes'⟩ := (behind a mid h).completes
      have left : (Reply.bind (.ok a mid made h) next).left = (next a mid h).left :=
        left_after made (next a mid h)
      rw [left]
      obtain rfl : us = used ++ mid := parts
      cases used' with
      | nil =>
          have nothing : mid = (next a mid h).left := parts'
          exact ⟨used, by rw [← nothing], completes.bind opens⟩
      | cons t used' =>
          refine ⟨used ++ t :: used', by rw [List.append_assoc, ← parts'], ?_⟩
          exact completes'.behind one.determines parts'

/-- A parser that looks at the next token before it does one thing or another. -/
theorem ite {p : TokenKind → Prop} [DecidablePred p] {r' : Reply α n}
    {others : (j : J) → Reply α (bound j)}
    (yes : p (nextKind us) → ViableAt follow us r front family)
    (no : ¬ p (nextKind us) → ViableAt follow us r' front others)
    (opens : Opens follow first front fun j =>
      if p (nextKind (front j)) then family j else others j) :
    ViableAt follow us (if p (nextKind us) then r else r') front fun j =>
      if p (nextKind (front j)) then family j else others j := by
  split
  case isTrue passes => exact (yes passes).congr (fun j same => if_pos (same ▸ passes)) opens
  case isFalse stops => exact (no stops).congr (fun j same => if_neg (same ▸ stops)) opens

/-- A parser that takes a token and goes on behind it, as long as it does so on the other lists
as well. -/
theorem cons {t : Token} {l : Nat} {others : (j : J) → Reply α (bound j)} {r' : Reply α l}
    {limit : Ahead front t → Nat} {family : (j : Ahead front t) → Reply α (limit j)}
    (viable : ViableAt follow us r Ahead.rest family) (here : r.Widens r')
    (there : ∀ j, (family j).Widens (others j.start)) :
    ViableAt follow (t :: us) r' front others := by
  refine ⟨viable.determines.cons here there, ?_⟩
  obtain ⟨used, parts, more, a, completed⟩ := viable.completes
  obtain ⟨_, rfl⟩ := here
  refine ⟨t :: used, by rw [left_widen, List.cons_append, ← parts], more, a, ?_⟩
  intro v follows j list
  obtain ⟨_, same⟩ := there ⟨j, used ++ (more ++ v), list⟩
  rw [same]
  exact gives_widen.mpr (completed v follows ⟨j, _, list⟩ rfl)

end ViableAt

/-! ## Families of replies -/

namespace Viable

variable {input : I → List Token} {limit limit' : I → Nat} {r : (i : I) → Reply α (limit i)}

theorem mono (fewer : ∀ k, follow' k → follow k) (larger : ∀ k, first k → first' k)
    (viable : Viable follow first input r front family) :
    Viable follow' first' input r front family :=
  ⟨fun i => (viable.each i).mono fewer, viable.opens.mono fewer larger⟩

theorem after {before : Nat} (viable : Viable follow first input r front family) :
    Viable follow first input (fun i => (r i).after before) front fun j =>
      (family j).after before where
  each i := (viable.each i).image (viable.each i).determines.after (left_after before (r i))
    fun _ _ _ => gives_after.mpr
  opens := viable.opens.image fun _ _ _ => gives_after.mpr

theorem node (viable : Viable follow first input r front family) :
    Viable follow first input (fun i => (r i).node) front fun j => (family j).node where
  each i := (viable.each i).image (viable.each i).determines.node (left_node (r i))
    fun _ _ _ => gives_node.mpr
  opens := viable.opens.image fun _ _ _ => gives_node.mpr

theorem map (g : α → β) (viable : Viable follow first input r front family) :
    Viable follow first input (fun i => (r i).map g) front fun j => (family j).map g where
  each i := (viable.each i).image ((viable.each i).determines.map fun _ => rfl)
    (left_map g (r i)) fun _ a _ gives => gives_map.mpr ⟨a, rfl, gives⟩
  opens := viable.opens.image fun _ a _ gives => gives_map.mpr ⟨a, rfl, gives⟩

theorem widen {h : ∀ i, limit i ≤ limit' i} {h' : ∀ j, bound j ≤ bound' j}
    (viable : Viable follow first input r front family) :
    Viable follow first input (fun i => (r i).widen (h i)) front fun j =>
      (family j).widen (h' j) where
  each i := (viable.each i).image (viable.each i).determines.widen (left_widen (h i) (r i))
    fun _ _ _ => gives_widen.mpr
  opens := viable.opens.image fun _ _ _ => gives_widen.mpr

theorem ok {a : α} {made : Nat} {h : ∀ i, (input i).length < limit i}
    {h' : ∀ j, (front j).length < bound j} (ends : ∀ k, follow k → first k) :
    Viable follow first input (fun i => (.ok a (input i) made (h i) : Reply α (limit i))) front
      fun j => (.ok a (front j) made (h' j) : Reply α (bound j)) :=
  ⟨fun _ => .ok ends, .ok ends⟩

theorem bind {between : TokenKind → Prop}
    {next : (i : I) → α → (rest : List Token) → rest.length < limit i → Reply β (limit' i)}
    {next' : (j : J) → α → (rest : List Token) → rest.length < bound j → Reply β (bound' j)}
    (one : Viable between first input r front family)
    (behind : ∀ a, Viable follow between (fun i : Behind limit => i.rest)
      (fun i => next i.start a i.rest i.shorter) (fun j : Behind bound => j.rest)
      fun j => next' j.start a j.rest j.shorter) :
    Viable follow first input (fun i => (r i).bind (next i)) front fun j =>
      (family j).bind (next' j) where
  each i := (one.each i).bind (fun a rest h => (behind a).each ⟨i, rest, h⟩)
    fun a => (behind a).opens
  opens := one.opens.bind fun a => (behind a).opens

section Choice

variable {p s : TokenKind → Prop} [DecidablePred p] {r' : (i : I) → Reply α (limit i)}
  {others : (j : J) → Reply α (bound j)}

/-- A parser that looks at the next token before it does one thing or another has a sample of
one of the two. -/
theorem ite (yes : Viable follow anyKind input r front family)
    (no : Viable follow anyKind input r' front others)
    (opens : Opens follow first front fun j =>
      if p (nextKind (front j)) then family j else others j) :
    Viable follow first input (fun i => if p (nextKind (input i)) then r i else r' i) front
      fun j => if p (nextKind (front j)) then family j else others j where
  opens := opens
  each i := .ite (fun _ => yes.each i) (fun _ => no.each i) opens

theorem ite_yes (yes : Viable follow s input r front family)
    (passes : ∀ k, s k → p k ∧ first k) (no : Viable follow anyKind input r' front others) :
    Viable follow first input (fun i => if p (nextKind (input i)) then r i else r' i) front
      fun j => if p (nextKind (front j)) then family j else others j :=
  ite (yes.mono (fun _ => id) fun _ _ => trivial) no
    (yes.opens.congr (fun _ starts => if_pos (passes _ starts).1) fun k starts =>
      (passes k starts).2)

theorem ite_no (yes : Viable follow anyKind input r front family)
    (no : Viable follow s input r' front others) (stops : ∀ k, s k → ¬ p k ∧ first k) :
    Viable follow first input (fun i => if p (nextKind (input i)) then r i else r' i) front
      fun j => if p (nextKind (front j)) then family j else others j :=
  ite yes (no.mono (fun _ => id) fun _ _ => trivial)
    (no.opens.congr (fun _ starts => if_neg (stops _ starts).1) fun k starts =>
      (stops k starts).2)

end Choice

end Viable

end Family

end Reply

open Reply

/-! ## Single tokens -/

section Tokens

variable {first : TokenKind → Prop} {input : I → List Token} {front : J → List Token}

/-- A token that passes a test can be had, and anything may follow it. -/
theorem viable_takeIf {test : TokenKind → Bool} {expected : Expectation} (k : TokenKind)
    (passes : test k = true) (mark : test .eof = false) (opens : first k) :
    Viable anyKind first input (fun i => takeIf test expected (input i)) front fun j =>
      takeIf test expected (front j) := by
  have sample : Opens anyKind first front fun j => takeIf test expected (front j) := by
    refine ⟨[k.token], k.token, fun v _ => ⟨opens, fun j list => ?_⟩⟩
    exact gives_takeIf.mpr ⟨list, passes⟩
  refine ⟨fun i => ⟨determines_takeIf (fun _ => rfl) mark, ?_⟩, sample⟩
  cases here : test (nextKind (input i)) with
  | false =>
      rw [takeIf_of_stops here]
      exact ⟨[], rfl, sample.completes⟩
  | true =>
      cases list : input i with
      | nil =>
          rw [list, nextKind_nil, mark] at here
          cases here
      | cons t us =>
          rw [list] at here
          rw [takeIf_of_passes here]
          refine ⟨[t], rfl, [], t, fun v _ j list => ?_⟩
          exact gives_takeIf.mpr ⟨list, here⟩

theorem viable_take {k : TokenKind} (mark : k ≠ .eof) (opens : first k) :
    Viable anyKind first input (fun i => take k (input i)) front fun j => take k (front j) :=
  viable_takeIf k (decide_eq_true rfl) (decide_eq_false mark.symm) opens

theorem viable_takeAfter {k : TokenKind} {part : Part} (mark : k ≠ .eof) (opens : first k) :
    Viable anyKind first input (fun i => takeAfter k part (input i)) front fun j =>
      takeAfter k part (front j) :=
  viable_takeIf k (decide_eq_true rfl) (decide_eq_false mark.symm) opens

theorem viable_takeName {role : NameRole} (opens : first .identifier) :
    Viable anyKind first input (fun i => takeName role (input i)) front fun j =>
      takeName role (front j) :=
  (viable_takeIf .identifier rfl rfl opens).node

theorem viable_takeType (opens : first .kwInt) :
    Viable anyKind first input (fun i => takeType (input i)) front fun j => takeType (front j) :=
  (viable_takeIf .kwInt rfl rfl opens).node

theorem viable_skip {k : TokenKind} (mark : k ≠ .eof) (opens : first k) :
    Viable anyKind first input (fun i => skip k (input i)) front fun j => skip k (front j) := by
  have taken : Viable anyKind (· = k) input
      (fun i => ((take k (input i)).map fun _ => true).widen (length_le_succ (input i))) front
      fun j => ((take k (front j)).map fun _ => true).widen (length_le_succ (front j)) :=
    .widen (.map _ (viable_take mark rfl))
  refine taken.ite_yes (p := (· = k)) ?_ (.ok fun _ _ => trivial)
  rintro _ rfl
  exact ⟨rfl, opens⟩

end Tokens

/-! ## Repetition -/

section Repetition

variable {follow itemFollow first : TokenKind → Prop} {front : J → List Token}

/-- A loop can stop at once in front of a token that does not invite an item. -/
theorem opens_whileNext {invites : TokenKind → Bool}
    {item : (j : J) → Below ((front j).length + 1) α}
    (stops : ∀ k, follow k → ¬ invites k) (ends : ∀ k, follow k → first k) :
    Opens follow first front fun j => whileNext invites (front j) (item j) := by
  refine ⟨[], [], fun v follows => ⟨ends _ follows, fun j list => ?_⟩⟩
  have list : front j = v := list
  show (whileNext invites (front j) (item j)).Gives [] v
  rw [whileNext, if_neg (by rw [list]; exact stops _ follows)]
  exact ⟨rfl, list⟩

/-- What a loop has taken is completed by completing the item that it is in. -/
theorem viableAt_whileNext {invites : TokenKind → Bool} {us : List Token}
    {item : Below (us.length + 1) α} {item' : (j : J) → Below ((front j).length + 1) α}
    (stops : ∀ k, follow k → ¬ invites k) (ends : ∀ k, follow k → itemFollow k)
    (each : ∀ vs h, ViableAt itemFollow vs (item vs h)
      (fun p : Behind fun j => (front j).length + 1 => p.rest)
      fun p => item' p.start p.rest p.shorter) :
    ViableAt follow us (whileNext invites us item) front fun j =>
      whileNext invites (front j) (item' j) := by
  have opens : Opens follow anyKind front fun j => whileNext invites (front j) (item' j) :=
    opens_whileNext stops fun _ _ => trivial
  fun_induction whileNext invites us item generalizing J with
  | case1 us item invited ih =>
      have chain : ViableAt follow us ((item us (length_lt_succ us)).bind fun a rest shorter =>
          (whileNext invites rest fun vs h => item vs (by omega)).bind fun as rest _ =>
          (.ok (a :: as) rest 0 (by omega) : Reply (List α) (us.length + 1))) front
          fun j =>
            (item' j (front j) (length_lt_succ _)).bind fun b rest _ =>
            (whileNext invites rest fun vs h => item' j vs (by omega)).bind fun bs rest _ =>
            (.ok (b :: bs) rest 0 (by omega) : Reply (List α) ((front j).length + 1)) := by
        refine .bind ((each us _).comp fun j => ⟨j, front j, length_lt_succ _⟩) ?_ fun a =>
          (opens_whileNext stops ends).bind fun as => .ok fun _ => id
        intro a rest shorter
        have bounded : ∀ p : Behind fun j : Behind fun j => (front j).length => j.rest.length + 1,
            p.rest.length < (front p.start.start).length + 1 := by
          intro p
          have first := p.start.shorter
          have second := p.shorter
          omega
        refine .bind (ih rest shorter (fun vs h => ?_) ?_)
          (fun as rest _ => .ok fun _ => id) fun as => .ok fun _ => id
        · exact (each vs _).comp fun p => ⟨p.start.start, p.rest, bounded p⟩
        · exact opens_whileNext stops fun _ _ => trivial
      refine chain.congr (fun j same => ?_) opens
      rw [whileNext, if_pos (by rw [same]; exact invited)]
  | case2 us item stops' =>
      have stopped : ViableAt follow us (.ok [] us 0 (length_lt_succ us)) front fun j =>
          (.ok [] (front j) 0 (length_lt_succ _) : Reply (List α) ((front j).length + 1)) :=
        .ok fun _ => id
      refine stopped.congr (fun j same => ?_) opens
      rw [whileNext, if_neg (by rw [same]; exact stops')]

/-- A loop can be completed in front of what does not invite an item and may follow one. -/
theorem viable_whileNext {invites : TokenKind → Bool} {input : I → List Token}
    {item : (i : I) → Below ((input i).length + 1) α}
    {item' : (j : J) → Below ((front j).length + 1) α} (follow : TokenKind → Prop)
    (stops : ∀ k, follow k → ¬ invites k) (ends : ∀ k, follow k → itemFollow k ∧ first k)
    (each : Viable itemFollow anyKind (fun p : Behind fun i => (input i).length + 1 => p.rest)
      (fun p => item p.start p.rest p.shorter)
      (fun p : Behind fun j => (front j).length + 1 => p.rest)
      fun p => item' p.start p.rest p.shorter) :
    Viable follow first input (fun i => whileNext invites (input i) (item i)) front fun j =>
      whileNext invites (front j) (item' j) where
  each i := viableAt_whileNext stops (fun k follows => (ends k follows).1) fun vs h =>
    each.each ⟨i, vs, h⟩
  opens := opens_whileNext stops fun k follows => (ends k follows).2

section Commas

variable {close : TokenKind} (ends : itemFollow close) (other : close ≠ .comma)
include ends other

/-- Behind an item nothing more is needed in front of a closing mark. -/
theorem opens_separatedBehind {bound : J → Nat} {item : (j : J) → Below (bound j + 1) α} (a : α) :
    Opens (· = close) itemFollow (fun j : Behind bound => j.rest) fun j =>
      separatedBehind (item j.start) a j.rest j.shorter := by
  have last : Opens (· = close) (· = close) (fun j : Behind bound => j.rest) fun j =>
      (.ok [a] j.rest 0 j.shorter : Reply (List α) (bound j.start)) := .ok fun _ => id
  refine last.congr (fun j closes => if_neg ?_) ?_
  · rw [closes]
    exact other
  · rintro _ rfl
    exact ends

/-- One item in front of a closing mark is enough. -/
theorem opens_separated {item : (j : J) → Below ((front j).length + 1) α}
    (sample : Opens itemFollow first (fun p : Behind fun j => (front j).length + 1 => p.rest)
      fun p => item p.start p.rest p.shorter) :
    Opens (· = close) first front fun j => separated (front j) (item j) := by
  have one : Opens (· = close) first front fun j =>
      (item j (front j) (length_lt_succ _)).bind (separatedBehind (item j)) :=
    (sample.comp fun j => ⟨j, front j, length_lt_succ _⟩).bind (opens_separatedBehind ends other)
  exact one.image (g := id) fun j a v gives => by rwa [separated_eq]

/-- What is taken of items with commas between them is completed by completing the item that it
ends in; behind a comma that is a sample. -/
theorem viableAt_separated {us : List Token} {item : Below (us.length + 1) α}
    {item' : (j : J) → Below ((front j).length + 1) α}
    (each : ∀ vs h, ViableAt itemFollow vs (item vs h)
      (fun p : Behind fun j => (front j).length + 1 => p.rest)
      fun p => item' p.start p.rest p.shorter)
    (sample : Opens itemFollow first (fun p : Behind fun j => (front j).length + 1 => p.rest)
      fun p => item' p.start p.rest p.shorter) :
    ViableAt (· = close) us (separated us item) front fun j => separated (front j) (item' j) := by
  fun_induction separated us item generalizing J with
  | case1 us item ih =>
      have chain : ViableAt (· = close) us
          ((item us (length_lt_succ us)).bind (separatedBehind item)) front fun j =>
            (item' j (front j) (length_lt_succ _)).bind (separatedBehind (item' j)) := by
        refine .bind ((each us _).comp fun j => ⟨j, front j, length_lt_succ _⟩) ?_
          (opens_separatedBehind ends other)
        intro a rest shorter
        refine .ite (p := (· = .comma)) (fun _ => ?_) (fun _ => .ok fun _ => id)
          (opens_separatedBehind ends other a)
        have bounded : ∀ p : Behind fun j : Behind fun j : Behind fun j => (front j).length =>
            j.rest.length => j.rest.length + 1,
            p.rest.length < (front p.start.start.start).length + 1 := by
          intro p
          have first := p.start.start.shorter
          have second := p.start.shorter
          have third := p.shorter
          omega
        have comma : Viable anyKind anyKind (fun _ : Unit => rest) (fun _ => take .comma rest)
            (fun j : Behind fun j => (front j).length => j.rest) fun j => take .comma j.rest :=
          viable_take (by decide) trivial
        have further : Opens (· = close) anyKind
            (fun j : Behind fun j : Behind fun j => (front j).length => j.rest.length => j.rest)
            fun j => separated j.rest fun vs h =>
              item' j.start.start vs (bounded ⟨j, vs, h⟩) := by
          refine opens_separated ends other ?_
          exact (sample.mono (fun _ => id) fun _ _ => trivial).comp fun p =>
            ⟨p.start.start.start, p.rest, bounded p⟩
        refine .bind (comma.each ()) (fun _ us' shorter' => ?_) fun _ => ?_
        · refine .bind (ih rest shorter us' shorter' (fun vs h => ?_) ?_)
            (fun as rest _ => .ok fun _ => id) fun as => .ok fun _ => id
          · exact (each vs _).comp fun p => ⟨p.start.start.start, p.rest, bounded p⟩
          · exact sample.comp fun p => ⟨p.start.start.start, p.rest, bounded p⟩
        · exact further.bind fun as => .ok fun _ => id
      exact chain.congr (fun j _ => separated_eq _ _) (opens_separated ends other sample)

variable (close) in
/-- Items with commas between them can be completed in front of a closing mark. -/
theorem viable_separated {input : I → List Token}
    {item : (i : I) → Below ((input i).length + 1) α}
    {item' : (j : J) → Below ((front j).length + 1) α}
    (each : Viable itemFollow first (fun p : Behind fun i => (input i).length + 1 => p.rest)
      (fun p => item p.start p.rest p.shorter)
      (fun p : Behind fun j => (front j).length + 1 => p.rest)
      fun p => item' p.start p.rest p.shorter) :
    Viable (· = close) first input (fun i => separated (input i) (item i)) front fun j =>
      separated (front j) (item' j) where
  each i := viableAt_separated ends other (fun vs h => each.each ⟨i, vs, h⟩) each.opens
  opens := opens_separated ends other each.opens

/-- Nothing at all is enough in front of the closing mark. -/
theorem viable_separatedUpTo {input : I → List Token}
    {item : (i : I) → Below ((input i).length + 1) α}
    {item' : (j : J) → Below ((front j).length + 1) α}
    (each : Viable itemFollow anyKind (fun p : Behind fun i => (input i).length + 1 => p.rest)
      (fun p => item p.start p.rest p.shorter)
      (fun p : Behind fun j => (front j).length + 1 => p.rest)
      fun p => item' p.start p.rest p.shorter)
    (opens : first close) :
    Viable (· = close) first input (fun i => separatedUpTo close (input i) (item i)) front fun j =>
      separatedUpTo close (front j) (item' j) := by
  have none : Viable (· = close) (· = close) input
      (fun i => (.ok [] (input i) 0 (length_lt_succ _) : Reply (List α) ((input i).length + 1)))
      front fun j => (.ok [] (front j) 0 (length_lt_succ _) :
        Reply (List α) ((front j).length + 1)) := .ok fun _ => id
  refine none.ite_yes (p := (· = close)) ?_ (.widen (viable_separated close ends other each))
  rintro _ rfl
  exact ⟨rfl, opens⟩

end Commas

end Repetition

end BlockSyntax
