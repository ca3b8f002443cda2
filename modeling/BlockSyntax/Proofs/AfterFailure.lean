import BlockSyntax.Proofs.History

/-!
# Requests after a failure

A session that has failed answers on.  The failure stays recorded, but nothing that is read
depends on it: a request takes up the tokens that are left, wherever the failure has put the
cursor, and is answered with the tree that a new session over these tokens would give.
So there are trees after a failure, and where all tokens are taken a program without items can
always be had.
-/

set_option autoImplicit false

namespace BlockSyntax

namespace Session

variable {s t : Session} {root : Node}

/-- The session that starts at the tokens that are left. -/
def renewed (s : Session) : Session := ofTokens (s.rest ++ [s.marker]) s.nextId

theorem rest_renewed (unended : Unended s.rest) (ends : s.marker.kind = .eof) :
    s.renewed.rest = s.rest :=
  rest_ofTokens unended ends

/-- What a session reads, and how it numbers it, depends on the tokens that are left and on the
counter. -/
theorem ask_ok_congr (rest : s.rest = t.rest) (nextId : s.nextId = t.nextId) (goal : Goal) :
    (∃ s', s.ask goal = (.ok root, s')) ↔ ∃ t', t.ask goal = (.ok root, t') := by
  obtain ⟨_, left, _, first, _⟩ := s
  obtain ⟨_, _, _, _, _⟩ := t
  obtain rfl : left = _ := rest
  obtain rfl : first = _ := nextId
  simp only [ask_eq_ok]
  constructor
  · rintro ⟨_, walk, left, gives, tree, _⟩
    exact ⟨_, walk, left, gives, tree, rfl⟩
  · rintro ⟨_, walk, left, gives, tree, _⟩
    exact ⟨_, walk, left, gives, tree, rfl⟩

/-- Where no token is left there is a program without items. -/
theorem ask_program_of_rest_nil (none : s.rest = []) :
    s.ask .program = (.ok (.construct s.nextId .program []), s.behind [] (s.nextId + 1)) := by
  refine ask_program_eq_ok.mpr ⟨⟨[]⟩, [], ?_, rfl, rfl⟩
  rw [none, program, whileNext]
  exact ⟨rfl, rfl⟩

/-- The tokens that are left have no end marker, and there is one behind them. -/
theorem unended_run (tokens : List Token) (start : NodeId) (events : List Event) :
    Unended (events.foldl after (ofTokens tokens start)).rest ∧
      (events.foldl after (ofTokens tokens start)).marker.kind = .eof := by
  have advances := advances_run (ofTokens tokens start) events
  obtain ⟨used, left, _⟩ := advances.took
  have unended : Unended (ofTokens tokens start).rest := unended_takeWhile tokens
  rw [left] at unended
  refine ⟨fun t inside => unended t (List.mem_append_right _ inside), ?_⟩
  rw [advances.marker]
  exact marker_kind tokens start

end Session

/-- **A failure does not keep a session from answering.**  Let a request have failed, among any
others.  Then every later request is answered with a tree exactly when a new session over the
tokens that are left answers it so, and with the same tree; the failure stays what it was.  When
no tokens are left there is always a tree for a program: one without items. -/
theorem session_after_failure (tokens : List Token) (start : NodeId) (events : List Session.Event)
    (goal : Goal) :
    let s := events.foldl Session.after (.ofTokens tokens start)
    s.error?.isSome →
      (∀ root, (∃ s', s.ask goal = (.ok root, s')) ↔ ∃ s', s.renewed.ask goal = (.ok root, s')) ∧
        (s.ask goal).2.error? = s.error? ∧
        (s.rest = [] → (s.ask .program).1 = .ok (.construct s.nextId .program [])) := by
  intro s failed
  obtain ⟨unended, ends⟩ := Session.unended_run tokens start events
  have rest : s.rest = s.renewed.rest := (Session.rest_renewed unended ends).symm
  refine ⟨fun root => Session.ask_ok_congr rest rfl goal, ?_, ?_⟩
  · obtain ⟨e, recorded⟩ := Option.isSome_iff_exists.mp failed
    exact (Session.error?_run recorded [.ask goal]).trans recorded.symm
  · intro none
    rw [Session.ask_program_of_rest_nil none]

/-- The tokens of a `print` without parentheses. -/
def unparenthesized : List Token :=
  [TokenKind.kwPrint, .identifier, .semicolon].map TokenKind.token

/-- A failure in front of the value of a `print` leaves the value and its semicolon, which are a
program, and behind that program there is one without items. -/
theorem session_after_failure_print :
    let s := [Session.Event.ask .program].foldl Session.after (.ofTokens unparenthesized 1)
    let t := (s.ask .program).2
    s.error?.isSome ∧ (∃ root, s.ask .program = (.ok root, t) ∧ root.count = 4) ∧
      t.error? = s.error? ∧ (t.ask .program).1 = .ok (.construct 5 .program []) := by
  intro s t
  have failed : s.error?.isSome := by decide +kernel
  obtain ⟨answered, recorded, _⟩ :=
    session_after_failure unparenthesized 1 [.ask .program] .program failed
  refine ⟨failed, ?tree, recorded, ?empty⟩
  case tree =>
    have fresh : (s.renewed.ask .program).1.isOk := by decide +kernel
    obtain ⟨root, s', fresh⟩ := Session.exists_of_isOk fresh
    obtain ⟨t', asked⟩ := (answered root).mpr ⟨s', fresh⟩
    have nodes : (s.renewed.ask .program).1.toOption.map Node.count = some 4 := by decide +kernel
    rw [fresh] at nodes
    have tree : (s.ask .program).1 = .ok root := congrArg Prod.fst asked
    exact ⟨root, Prod.ext tree rfl, Option.some.inj nodes⟩
  case empty =>
    have failed' : t.error?.isSome := by decide +kernel
    obtain ⟨_, _, ended⟩ :=
      session_after_failure unparenthesized 1 [.ask .program, .ask .program] .program failed'
    have counter : t.nextId = 5 := by decide +kernel
    rw [← counter]
    exact ended (by decide +kernel)

/-- It is not so that every request fails once a failure is recorded. -/
theorem not_silent_after_failure :
    ¬ ∀ (tokens : List Token) (start : NodeId) (events : List Session.Event) (goal : Goal),
      let s := events.foldl Session.after (.ofTokens tokens start)
      s.error?.isSome → ¬ (s.ask goal).1.isOk := by
  intro silent
  exact silent unparenthesized 1 [.ask .program] .program (by decide +kernel) (by decide +kernel)

end BlockSyntax
