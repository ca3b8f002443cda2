import BlockSyntax.Proofs.StatementRoutines

/-!
# Statements and the statements inside them

A statement is read from its first token on, and the statements inside it are read in the
same way.  The equivalences here say so for every first token: they have `ReadsStmt` on
both sides, where those of the single routines speak of a parser for shorter lists.  The
bound on the lists is discharged once, by the fact that every part leaves fewer tokens
than it finds (`conditional_inner`, `loop_inner`, `block_inner`).
-/

set_option autoImplicit false

namespace BlockSyntax

open Reply

/-- The statement is read from the front of the tokens. -/
def ReadsStmt (s : Stmt) (us rest : List Token) : Prop := (statement us).Gives s rest

theorem ReadsStmt.length_lt {s : Stmt} {us rest : List Token} (reads : ReadsStmt s us rest) :
    rest.length < us.length :=
  Gives.length_lt reads

theorem ReadsExpr.length_lt {e : Expr} {us rest : List Token} (reads : ReadsExpr e us rest) :
    rest.length < us.length :=
  Gives.length_lt reads

/-- The parser for the statements inside a statement with the given number of tokens. -/
def inner (n : Nat) : Below n Stmt := fun us _ => statement us

theorem Inside.reads {n : Nat} {s : Stmt} {us rest : List Token}
    (inside : Inside (inner n) s us rest) : ReadsStmt s us rest := by
  obtain ⟨_, reads⟩ := inside
  exact reads

namespace Grammar

/-! ## Parts leave fewer tokens -/

theorem parenthesized_length_lt {e : Expr} {us rest : List Token}
    (inside : Parenthesized ReadsExpr e us rest) : rest.length < us.length := by
  obtain ⟨opening, closing, vs, rfl, _, reads, _⟩ := inside
  have shorter := reads.length_lt
  rw [List.length_cons] at shorter ⊢
  omega

theorem OrIf.length_lt {R : Stmt → List Token → List Token → Prop}
    (shrinks : ∀ s us vs, R s us vs → vs.length < us.length) {branch : Expr × Stmt}
    {us rest : List Token} (orIf : OrIf R branch us rest) : rest.length < us.length := by
  obtain ⟨word, next, vs, mid, rfl, _, _, inside, body⟩ := orIf
  have shorter := parenthesized_length_lt inside
  have bodyShorter := shrinks _ _ _ body
  rw [List.length_cons, List.length_cons]
  omega

/-! ## The parser for the statements inside -/

theorem readsStmt_iff {s : Stmt} {us rest : List Token} :
    ReadsStmt s us rest ↔ (statementAround (inner us.length) us (Nat.le_refl _)).Gives s rest := by
  rw [ReadsStmt, statement]
  rfl

theorem inside_inner {n : Nat} {s : Stmt} {us rest : List Token} (shorter : us.length < n) :
    Inside (inner n) s us rest ↔ ReadsStmt s us rest :=
  ⟨fun ⟨_, reads⟩ => reads, fun reads => ⟨shorter, reads⟩⟩

variable {n : Nat} {us rest : List Token}

theorem OrIf.mono {R S : Stmt → List Token → List Token → Prop} {branch : Expr × Stmt}
    (implies : ∀ s vs, vs.length < us.length → R s vs rest → S s vs rest)
    (orIf : OrIf R branch us rest) : OrIf S branch us rest := by
  obtain ⟨word, next, vs, mid, rfl, wordKind, nextKind, inside, body⟩ := orIf
  refine ⟨word, next, vs, mid, rfl, wordKind, nextKind, inside, implies _ _ ?_ body⟩
  have shorter := parenthesized_length_lt inside
  rw [List.length_cons, List.length_cons]
  omega

theorem orIfs_inner {orIfs : List (Expr × Stmt)} (bound : us.length < n) :
    Repeats (OrIf (Inside (inner n))) orIfs us rest ↔ Repeats (OrIf ReadsStmt) orIfs us rest := by
  constructor
  · exact Repeats.mono fun _ _ _ => OrIf.mono fun _ _ _ => Inside.reads
  · intro repeats
    refine Repeats.mono_below (fun _ _ _ => OrIf.length_lt fun _ _ _ => ReadsStmt.length_lt) ?_
      repeats bound
    intro branch vs ws shorter
    exact OrIf.mono fun s xs below => (inside_inner (Nat.lt_trans below shorter)).mpr

theorem otherwise_inner {last : Option Stmt} (bound : us.length < n) :
    Otherwise (Inside (inner n)) last us rest ↔ Otherwise ReadsStmt last us rest := by
  refine or_congr Iff.rfl ?_
  constructor
  · rintro ⟨body, word, vs, rfl, rfl, kind, inside⟩
    exact ⟨body, word, vs, rfl, rfl, kind, inside.reads⟩
  · rintro ⟨body, word, vs, rfl, rfl, kind, reads⟩
    exact ⟨body, word, vs, rfl, rfl, kind, Nat.lt_of_succ_lt bound, reads⟩

theorem conditional_inner {s : Stmt} {h : us.length ≤ n} :
    (conditional (inner n) us h).Gives s rest ↔ ReadsConditional ReadsStmt s us rest := by
  have shrinks : ∀ (branch : Expr × Stmt) (vs ws : List Token),
      OrIf ReadsStmt branch vs ws → ws.length < vs.length :=
    fun _ _ _ => OrIf.length_lt fun _ _ _ => ReadsStmt.length_lt
  rw [gives_conditional]
  constructor
  · rintro ⟨inside, branch, branches, stops, otherwise, ends⟩
    have shorter := parenthesized_length_lt inside
    have branchShorter := branch.reads.length_lt
    have branches' := (orIfs_inner (by omega)).mp branches
    have branchesShorter := branches'.length_le shrinks
    have otherwise' := (otherwise_inner (by omega)).mp otherwise
    exact .mk inside branch.reads branches' stops otherwise' ends
  · rintro ⟨inside, branch, branches, stops, otherwise, ends⟩
    have shorter := parenthesized_length_lt inside
    have branchShorter := branch.length_lt
    have branchesShorter := branches.length_le shrinks
    exact .mk inside ((inside_inner (by omega)).mpr branch) ((orIfs_inner (by omega)).mpr branches)
      stops ((otherwise_inner (by omega)).mpr otherwise) ends

theorem loop_inner {s : Stmt} {h : us.length ≤ n} :
    (loop (inner n) us h).Gives s rest ↔ ReadsLoop ReadsStmt s us rest := by
  rw [gives_loop]
  constructor
  · rintro ⟨opens, name, goesKind, startKind, lowerReads, boundKind, upperReads, closes, branch,
      ends⟩
    exact .mk opens name goesKind startKind lowerReads boundKind upperReads closes branch.reads
      ends
  · rintro ⟨opens, name, goesKind, startKind, lowerReads, boundKind, upperReads, closes, branch,
      ends⟩
    have lowerShorter := lowerReads.length_lt
    have upperShorter := upperReads.length_lt
    simp only [List.length_cons] at h lowerShorter upperShorter
    have inside := (inside_inner (by omega : _ < n)).mpr branch
    exact .mk opens name goesKind startKind lowerReads boundKind upperReads closes inside ends

theorem block_inner {s : Stmt} {h : us.length < n} :
    (block (inner n) us h).Gives s rest ↔ ReadsBlock ReadsStmt s us rest := by
  rw [gives_block]
  constructor
  · rintro ⟨inside, endKind⟩
    refine .mk (inside.mono ?_) endKind
    rintro s vs ws ⟨notEnd, notEof, reads⟩
    exact ⟨notEnd, notEof, reads.reads⟩
  · rintro ⟨inside, endKind⟩
    refine .mk (inside.mono_below ?_ ?_ h) endKind
    · rintro s vs ws ⟨_, _, reads⟩
      exact reads.length_lt
    · rintro s vs ws shorter ⟨notEnd, notEof, reads⟩
      exact ⟨notEnd, notEof, (inside_inner shorter).mpr reads⟩

/-! ## The first tokens of a statement -/

section FirstTokens

variable {t u : Token} {s : Stmt}

theorem reads_if (kind : t.kind = .kwIf) :
    ReadsStmt s (t :: us) rest ↔ ReadsConditional ReadsStmt s us rest := by
  rw [readsStmt_iff, gives_statement_if kind, conditional_inner]

theorem reads_begin_if (begins : t.kind = .kwBegin) (kind : u.kind = .kwIf) :
    ReadsStmt s (t :: u :: us) rest ↔ ReadsConditional ReadsStmt s us rest := by
  rw [readsStmt_iff, gives_statement_begin begins, gives_begun_if kind]
  constructor
  · rintro ⟨_, gives⟩
    exact conditional_inner.mp gives
  · intro reads
    have bound : us.length ≤ (t :: u :: us).length := by
      simp only [List.length_cons]
      omega
    exact ⟨bound, conditional_inner.mpr reads⟩

theorem reads_for (kind : t.kind = .kwFor) :
    ReadsStmt s (t :: us) rest ↔ ReadsLoop ReadsStmt s us rest := by
  rw [readsStmt_iff, gives_statement_for kind, loop_inner]

theorem reads_begin_for (begins : t.kind = .kwBegin) (kind : u.kind = .kwFor) :
    ReadsStmt s (t :: u :: us) rest ↔ ReadsLoop ReadsStmt s us rest := by
  rw [readsStmt_iff, gives_statement_begin begins, gives_begun_for kind]
  constructor
  · rintro ⟨_, gives⟩
    exact loop_inner.mp gives
  · intro reads
    have bound : us.length ≤ (t :: u :: us).length := by
      simp only [List.length_cons]
      omega
    exact ⟨bound, loop_inner.mpr reads⟩

theorem reads_begin_block (begins : t.kind = .kwBegin) (notIf : nextKind us ≠ .kwIf)
    (notFor : nextKind us ≠ .kwFor) :
    ReadsStmt s (t :: us) rest ↔ ReadsBlock ReadsStmt s us rest := by
  rw [readsStmt_iff, gives_statement_begin begins, gives_begun_block notIf notFor, block_inner]

theorem reads_type (kind : t.kind.isType) :
    ReadsStmt s (t :: us) rest ↔ (declaration t us).Gives s rest := by
  rw [readsStmt_iff, gives_statement_type kind]

theorem reads_print (kind : t.kind = .kwPrint) :
    ReadsStmt s (t :: us) rest ↔ (print us).Gives s rest := by
  rw [readsStmt_iff, gives_statement_print kind]

theorem reads_read (kind : t.kind = .kwRead) :
    ReadsStmt s (t :: us) rest ↔ (read us).Gives s rest := by
  rw [readsStmt_iff, gives_statement_read kind]

theorem reads_return (kind : t.kind = .kwReturn) :
    ReadsStmt s (t :: us) rest ↔ (result us).Gives s rest := by
  rw [readsStmt_iff, gives_statement_return kind]

theorem reads_expression (other : ¬ startsStatement (nextKind us)) :
    ReadsStmt s us rest ↔ (assignmentOrEvaluation us).Gives s rest := by
  rw [readsStmt_iff, gives_statement_expression other]

end FirstTokens

end Grammar

end BlockSyntax
