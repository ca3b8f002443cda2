import BlockSyntax.Proofs.DerivationSoundness
import BlockSyntax.Proofs.GrammarLocality
import BlockSyntax.Proofs.Identifiers
import Mathlib.Data.List.TakeWhile

/-!
# The history of a session

A session moves forward through the tokens of its source and never behind the first end
marker, whatever it is asked for and in whatever order, also after a failure, when a
request starts in the middle of a construct.  The token before the cursor is the last one
taken, and there is none exactly at the start.

One request takes tokens from the front of those that are left, and the first failure is
remembered (`Session.ask_step`).  Everything else follows by induction over what happened
to the session: it stays at a cursor among the same tokens (`Session.Advances.atCursor`),
and its first failure stays (`Session.error?_run`).
-/

set_option autoImplicit false

namespace BlockSyntax

open Reply

namespace Session

/-! ## The tokens of a session -/

/-- The tokens that a session reads: those given, with an end marker behind them if the
last of them is none. -/
def completed (tokens : List Token) : List Token :=
  if tokens.getLast?.any (·.kind = .eof) then tokens else tokens ++ [suppliedMarker tokens]

/-- How many tokens are in front of the first end marker. -/
def firstEnd (tokens : List Token) : Nat := (completed tokens).findIdx (·.kind = .eof)

/-- The number of tokens taken. -/
def cursor (s : Session) : Nat := s.taken.length

/-- The last token taken. -/
def last? (s : Session) : Option Token := s.taken.head?

/-- The session is at its cursor among the given tokens. -/
structure AtCursor (tokens : List Token) (s : Session) : Prop where
  /-- The cursor is not behind the first end marker. -/
  within : s.cursor ≤ firstEnd tokens
  /-- The next token is the one at the cursor. -/
  current : (completed tokens)[s.cursor]? = some s.current
  /-- The last token taken is the one before the cursor. -/
  last : 0 < s.cursor → s.last? = (completed tokens)[s.cursor - 1]?
  /-- No token was taken exactly at the start. -/
  start : s.last? = none ↔ s.cursor = 0

/-- The other session has taken further tokens from the front of those that were left. -/
structure Advances (s s' : Session) : Prop where
  /-- What was left starts with the tokens taken since. -/
  took : ∃ used, s.rest = used ++ s'.rest ∧ s'.taken = used.reverse ++ s.taken
  /-- The end marker is the same. -/
  marker : s'.marker = s.marker

theorem Advances.refl (s : Session) : s.Advances s := ⟨⟨[], rfl, rfl⟩, rfl⟩

theorem Advances.trans {s mid s' : Session} (first : s.Advances mid) (second : mid.Advances s') :
    s.Advances s' := by
  obtain ⟨⟨used, front, taken⟩, marker⟩ := first
  obtain ⟨⟨used', front', taken'⟩, marker'⟩ := second
  refine ⟨⟨used ++ used', ?_, ?_⟩, marker'.trans marker⟩
  · rw [front, front', List.append_assoc]
  · rw [taken', taken, List.reverse_append, List.append_assoc]

theorem Advances.cursor_le {s s' : Session} (advances : s.Advances s') : s.cursor ≤ s'.cursor := by
  obtain ⟨⟨used, _, taken⟩, _⟩ := advances
  rw [cursor, cursor, taken, List.length_append]
  exact Nat.le_add_left _ _

/-- The cursor counts the tokens taken since the start. -/
theorem cursor_of_taken {tokens used : List Token} {nextId : NodeId} {s : Session}
    (taken : s.taken = used.reverse ++ (ofTokens tokens nextId).taken) :
    s.cursor = used.length := by
  rw [cursor, taken, List.length_append, List.length_reverse]
  rfl

theorem advances_advanceTo {s : Session} {used rest : List Token} (front : s.rest = used ++ rest) :
    s.Advances (s.advanceTo rest) := by
  refine ⟨⟨used, front, ?_⟩, rfl⟩
  show (s.rest.take (s.rest.length - rest.length)).reverse ++ s.taken = used.reverse ++ s.taken
  rw [front, List.length_append, Nat.add_sub_cancel, List.take_left]

theorem marker_kind (tokens : List Token) (nextId : NodeId) :
    (ofTokens tokens nextId).marker.kind = .eof := by
  show ((tokens.find? (·.kind = .eof)).getD (suppliedMarker tokens)).kind = .eof
  cases found : tokens.find? (·.kind = .eof) with
  | none => rfl
  | some t => simpa using List.find?_some found

/-- The completed tokens are those of the session, its end marker, and others. -/
theorem completed_eq (tokens : List Token) (nextId : NodeId) :
    ∃ after, completed tokens =
      (ofTokens tokens nextId).rest ++ (ofTokens tokens nextId).marker :: after := by
  cases found : tokens.find? (·.kind = .eof) with
  | some marker =>
      obtain ⟨ends, front, after, rfl, unended⟩ := List.find?_eq_some_iff_append.mp found
      have rest : (ofTokens (front ++ marker :: after) nextId).rest = front :=
        rest_ofTokens (fun t inside => by simpa using unended t inside) (by simpa using ends)
      have last : (ofTokens (front ++ marker :: after) nextId).marker = marker := by
        simp only [ofTokens, found, Option.getD_some]
      rw [rest, last, completed]
      split
      · exact ⟨after, rfl⟩
      · exact ⟨_, List.append_assoc _ _ _⟩
  | none =>
      have unended : ∀ t ∈ tokens, ¬ t.kind = .eof := by simpa using found
      have rest : (ofTokens tokens nextId).rest = tokens :=
        List.takeWhile_eq_self_iff.mpr fun t inside => decide_eq_true (unended t inside)
      have last : (ofTokens tokens nextId).marker = suppliedMarker tokens := by
        simp only [ofTokens, found, Option.getD_none]
      have unmarked : ¬ tokens.getLast?.any (·.kind = .eof) := by
        intro ended
        obtain ⟨t, final, ends⟩ := (Option.any_eq_true _ _).mp ended
        exact unended t (List.mem_of_getLast? final) (of_decide_eq_true ends)
      rw [rest, last, completed, if_neg unmarked]
      exact ⟨[], rfl⟩

/-- The end marker that completes tokens is not one of those a session reads. -/
theorem rest_completed (tokens : List Token) (nextId : NodeId) :
    (ofTokens (completed tokens) nextId).rest = (ofTokens tokens nextId).rest := by
  obtain ⟨after, whole⟩ := completed_eq tokens nextId
  rw [whole]
  exact rest_ofTokens (unended_takeWhile tokens) (marker_kind tokens nextId)

/-- A session starts with the tokens in front of the first end marker. -/
theorem firstEnd_eq_length (tokens : List Token) (nextId : NodeId) :
    firstEnd tokens = (ofTokens tokens nextId).rest.length := by
  obtain ⟨after, tokensEq⟩ := completed_eq tokens nextId
  have unended : Unended (ofTokens tokens nextId).rest := unended_takeWhile tokens
  have notBefore : ¬ List.findIdx (·.kind = .eof) (ofTokens tokens nextId).rest <
      (ofTokens tokens nextId).rest.length := by
    rw [List.findIdx_lt_length]
    rintro ⟨t, inside, ends⟩
    exact unended t inside (of_decide_eq_true ends)
  have here : decide ((ofTokens tokens nextId).marker.kind = .eof) = true :=
    decide_eq_true (marker_kind tokens nextId)
  rw [firstEnd, tokensEq, List.findIdx_append, if_neg notBefore, List.findIdx_cons, here]
  exact Nat.zero_add _

/-- A session that has advanced from the start of its tokens is at its cursor. -/
theorem Advances.atCursor {tokens : List Token} {nextId : NodeId} {s : Session}
    (advances : (ofTokens tokens nextId).Advances s) : s.AtCursor tokens := by
  obtain ⟨⟨used, front, taken⟩, marker⟩ := advances
  have cursor : s.cursor = used.length := cursor_of_taken taken
  have taken : s.taken = used.reverse := taken.trans (List.append_nil _)
  obtain ⟨after, tokensEq⟩ := completed_eq tokens nextId
  rw [front, List.append_assoc] at tokensEq
  constructor
  case within =>
    rw [firstEnd_eq_length tokens nextId, front, cursor, List.length_append]
    exact Nat.le_add_right _ _
  case current =>
    rw [tokensEq, cursor, List.getElem?_append_right (Nat.le_refl _), Nat.sub_self, ← marker,
      current]
    cases s.rest <;> rfl
  case last =>
    intro positive
    rw [cursor] at positive ⊢
    rw [tokensEq, List.getElem?_append_left (by omega), last?, taken, List.head?_reverse,
      List.getLast?_eq_getElem?]
  case start => rw [last?, Session.cursor, List.head?_eq_none_iff, List.length_eq_zero_iff]

/-! ## One request -/

/-- Why a request failed. -/
def failure? {α : Type} : Except SyntaxError α → Option SyntaxError
  | .ok _ => none
  | .error e => some e

/-- **One request** takes tokens from the front of those left, and its failure is remembered
if there was none before. -/
theorem ask_step (s : Session) (goal : Goal) :
    s.Advances (s.ask goal).2 ∧ (s.ask goal).2.error? = s.error?.or (failure? (s.ask goal).1) := by
  obtain ⟨used, front⟩ := goal.parse_left s.rest
  unfold ask
  cases reply : goal.parse s.rest with
  | ok numbering rest made shorter =>
      rw [reply] at front
      obtain ⟨took, marker⟩ := advances_advanceTo front
      exact ⟨⟨took, marker⟩, (Option.or_none).symm⟩
  | fail expected rest made =>
      rw [reply] at front
      obtain ⟨took, marker⟩ := advances_advanceTo front
      exact ⟨⟨took, marker⟩, rfl⟩

/-! ## Whole histories -/

variable {s : Session}

theorem advances_after (s : Session) (event : Event) : s.Advances (s.after event) := by
  cases event with
  | ask goal => exact (ask_step s goal).1
  | moved nextId => exact ⟨⟨[], rfl, rfl⟩, rfl⟩

theorem advances_run (s : Session) (events : List Event) : s.Advances (events.foldl after s) := by
  induction events generalizing s with
  | nil => exact .refl s
  | cons event events ih => exact (advances_after s event).trans (ih (s.after event))

theorem error?_run {e : SyntaxError} (recorded : s.error? = some e) (events : List Event) :
    (events.foldl after s).error? = some e := by
  induction events generalizing s with
  | nil => exact recorded
  | cons event events ih =>
      refine ih ?_
      cases event with
      | moved nextId => exact recorded
      | ask goal =>
          rw [after, (ask_step s goal).2, recorded]
          rfl

end Session

end BlockSyntax
