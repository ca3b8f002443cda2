import BlockSyntax.Proofs.GrammarLocality
import BlockSyntax.Proofs.Endings
import BlockSyntax.Proofs.Renumbering

/-!
# The same text in another file

The file that a text is in has no part in its analysis: it is only written into the locations.
Nor has the counter that nodes are numbered from: it is only added to the identifiers.  So the
analysis of a text in one file and from one counter is that in another file and from another
counter, with the other file in all locations and all identifiers moved (`analyze_placed`).

The scanner carries its file along and never looks at it.  A parse looks at the kinds of tokens
alone, as `program_determined` says, and its tree is numbered as `Program.number_moves` says.
-/

set_option autoImplicit false

namespace BlockSyntax

/-! ## What is in a file -/

section InFile

variable (file : FileId)

/-- The same place in another file. -/
def Location.inFile (l : Location) : Location := { l with file := file }

/-- The same token in another file. -/
def Token.inFile (t : Token) : Token := { t with location := t.location.inFile file }

/-- The same error in another file. -/
def LexicalError.inFile (e : LexicalError) : LexicalError :=
  { e with location := e.location.inFile file }

/-- The same scanner in another file. -/
def Scanner.inFile (s : Scanner) : Scanner := { s with file := file }

/-- The same finding in another file. -/
def Scanned.inFile {n : Nat} : Scanned n → Scanned n
  | .token t after shorter => .token (t.inFile file) (after.inFile file) shorter
  | .fault t e after => .fault (t.inFile file) (e.inFile file) (after.inFile file)
  | .finish t after => .finish (t.inFile file) (after.inFile file)

/-- The same stream in another file. -/
def Lexed.inFile (l : Lexed) : Lexed :=
  ⟨l.tokens.map (Token.inFile file), l.error?.map (LexicalError.inFile file), l.after.inFile file⟩

end InFile

/-- The same error over other tokens. -/
def SyntaxError.mapTokens (f : Token → Token) (e : SyntaxError) : SyntaxError :=
  { e with last := f e.last, found := f e.found }

/-- The same end of an analysis in another file, with all identifiers moved. -/
def Verdict.placed (file : FileId) (k : NodeId) : Verdict → Verdict
  | accepted root => .accepted (root.moved (Token.inFile file) k)
  | lexicalError e => .lexicalError (e.inFile file)
  | syntaxError e => .syntaxError (e.mapTokens (Token.inFile file))
  | unloaded failure => .unloaded failure

/-- The same report on a text in another file, with all identifiers moved. -/
def Report.placed (file : FileId) (k : NodeId) (r : Report) : Report :=
  ⟨file, r.tokens.map (Token.inFile file), r.verdict.placed file k⟩

/-! ## Scanning -/

namespace Scanner

variable {file : FileId}

/-- A step finds the same in every file. -/
theorem next_inFile (s : Scanner) : (s.inFile file).next = s.next.inFile file := by
  cases passed : Gap.pass .between s.position s.rest with
  | unclosed opener p =>
      have passed' : Gap.pass .between (s.inFile file).position (s.inFile file).rest =
        .unclosed opener p := passed
      rw [next_of_unclosed passed, next_of_unclosed passed']
      rfl
  | closed p behind =>
      have passed' : Gap.pass .between (s.inFile file).position (s.inFile file).rest =
        .closed p behind := passed
      cases behind with
      | nil =>
          rw [next_of_nil passed, next_of_nil passed']
          rfl
      | cons first rest =>
          cases fault : (Lexeme.read first rest).fault with
          | none =>
              obtain ⟨_, found⟩ := next_of_sound passed fault
              obtain ⟨_, found'⟩ := next_of_sound passed' fault
              rw [found, found']
              rfl
          | some e =>
              rw [next_of_faulty passed fault, next_of_faulty passed' fault]
              rfl

theorem tokenize_inFile (s : Scanner) : (s.inFile file).tokenize = s.tokenize.inFile file := by
  fun_induction tokenize s with
  | case1 s t after shorter found following ih =>
      rw [tokenize, next_inFile, found]
      show { (after.inFile file).tokenize with
        tokens := t.inFile file :: (after.inFile file).tokenize.tokens } = _
      rw [ih]
      rfl
  | case2 s t e after found =>
      rw [tokenize, next_inFile, found]
      rfl
  | case3 s t after found =>
      rw [tokenize, next_inFile, found]
      rfl

end Scanner

/-! ## Parsing -/

open Reply Numbered

section Moves

variable {f : Token → Token} (kinds : ∀ t, (f t).kind = t.kind) {k : NodeId}
include kinds

theorem nextKind_map (us : List Token) : nextKind (us.map f) = nextKind us := by
  cases us with
  | nil => rfl
  | cons t us => exact kinds t

/-- The reply to tokens determines that to the same tokens with others in their places. -/
theorem Reply.Determines.matches_map {α β : Type} {n : Nat} {bound : List Token → Nat}
    {v : α → β} {us : List Token} {r : Reply α n} {parse : (us : List Token) → Reply β (bound us)}
    (determines : r.Determines f v us id parse) :
    r.Matches v (r.left.map f) (parse (us.map f)) := by
  obtain ⟨used, parts, others⟩ := determines
  refine others (us.map f) (r.left.map f) ?_ (nextKind_map kinds r.left)
  rw [id, ← List.map_append, ← parts]

end Moves

/-- The other reply gives the walk from a moved counter, with other tokens left. -/
def Reply.Moves {m n : Nat} (f : Token → Token) (k : NodeId) (r : Reply (Numbered Node) m)
    (r' : Reply (Numbered Node) n) : Prop :=
  match r with
  | ok walk rest made _ => ∃ walk' h, r' = ok walk' (rest.map f) made h ∧
      Numbered.Moves k (Node.moved f k) walk walk'
  | fail e rest made => r' = fail e (rest.map f) made

theorem Reply.Matches.moves {α : Type} {m n : Nat} {f : Token → Token} {k : NodeId} {v : α → α}
    {number : α → Numbered Node} {r : Reply α m} {r' : Reply α n}
    (same : r.Matches v (r.left.map f) r')
    (moves : ∀ a, Numbered.Moves k (Node.moved f k) (number a) (number (v a))) :
    (r.map number).Moves f k (r'.map number) := by
  cases r with
  | ok a rest made h =>
      obtain ⟨h', rfl⟩ := same
      exact ⟨number (v a), h', rfl, moves a⟩
  | fail e rest made =>
      obtain rfl := same
      rfl

theorem Reply.Moves.widen {m n m' n' : Nat} {f : Token → Token} {k : NodeId}
    {r : Reply (Numbered Node) m} {r' : Reply (Numbered Node) n} {h : m ≤ m'} {h' : n ≤ n'}
    (moves : r.Moves f k r') : (r.widen h).Moves f k (r'.widen h') := by
  cases r with
  | ok walk rest made shorter =>
      obtain ⟨walk', shorter', rfl, walks⟩ := moves
      exact ⟨walk', Nat.lt_of_lt_of_le shorter' h', rfl, walks⟩
  | fail e rest made =>
      obtain rfl := moves
      rfl

theorem Goal.parse_moves {f : Token → Token} (kinds : ∀ t, (f t).kind = t.kind) {k : NodeId}
    (goal : Goal) (us : List Token) :
    (goal.parse us).Moves f k (goal.parse (us.map f)) := by
  cases goal with
  | program => exact ((program_determined kinds us).matches_map kinds).moves Program.number_moves
  | statement =>
      have moves : ((BlockSyntax.statement us).map Stmt.number).Moves f k
          ((BlockSyntax.statement (us.map f)).map Stmt.number) :=
        ((statement_determined kinds us).matches_map kinds).moves Stmt.number_moves
      rw [parse, parse]
      exact moves.widen
  | expression =>
      have moves : ((BlockSyntax.expression us).map Expr.number).Moves f k
          ((BlockSyntax.expression (us.map f)).map Expr.number) :=
        ((expression_determined kinds us).matches_map kinds).moves Expr.number_moves
      rw [parse, parse]
      exact moves.widen

namespace Session

/-- The session over other tokens, with its counter moved. -/
def moved (f : Token → Token) (k : NodeId) (s : Session) : Session :=
  ⟨s.taken.map f, s.rest.map f, f s.marker, s.nextId + k, s.error?.map (SyntaxError.mapTokens f)⟩

/-- The answer over other tokens, with the identifiers of its tree moved. -/
def movedAnswer (f : Token → Token) (k : NodeId) : Except SyntaxError Node → Except SyntaxError Node
  | .ok root => .ok (root.moved f k)
  | .error e => .error (e.mapTokens f)

variable {f : Token → Token} {k : NodeId}

theorem headD_map {α β : Type} (g : α → β) (as : List α) (a : α) :
    (as.map g).headD (g a) = g (as.headD a) := by
  cases as <;> rfl

theorem advanceTo_moved (s : Session) (rest : List Token) :
    (s.moved f k).advanceTo (rest.map f) = (s.advanceTo rest).moved f k := by
  simp only [advanceTo, moved, List.length_map, List.map_append, List.map_reverse, List.map_take]

theorem errorHere_moved (s : Session) (expected : Expectation) :
    (s.moved f k).errorHere expected = (s.errorHere expected).mapTokens f := by
  simp only [errorHere, current, moved, SyntaxError.mapTokens, headD_map]

theorem fail_moved (s : Session) (expected : Expectation) :
    (s.moved f k).fail expected = (s.fail expected).moved f k := by
  have error : (s.moved f k).error?.or (some ((s.moved f k).errorHere expected)) =
      (s.error?.or (some (s.errorHere expected))).map (SyntaxError.mapTokens f) := by
    rw [errorHere_moved, Option.map_or]
    rfl
  rw [fail, error]
  rfl

/-- **A session over other tokens of the same kinds, from a moved counter, answers the same**,
with the other tokens in the tree and moved identifiers, or in the syntax error. -/
theorem ask_moved (kinds : ∀ t, (f t).kind = t.kind) (s : Session) (goal : Goal) :
    (s.moved f k).ask goal = (movedAnswer f k (s.ask goal).1, (s.ask goal).2.moved f k) := by
  have moves : (goal.parse s.rest).Moves f k (goal.parse (s.moved f k).rest) :=
    goal.parse_moves kinds s.rest
  unfold ask
  cases reply : goal.parse s.rest with
  | ok walk rest made shorter =>
      rw [reply] at moves
      obtain ⟨walk', _, reply', walks⟩ := moves
      rw [reply']
      show (Except.ok (walk' (s.nextId + k)).1,
          { (s.moved f k).advanceTo (rest.map f) with nextId := (walk' (s.nextId + k)).2 }) = _
      rw [walks, advanceTo_moved]
      rfl
  | fail e rest made =>
      rw [reply] at moves
      have reply' : goal.parse (s.moved f k).rest = .fail e (rest.map f) made := moves
      have counter : s.nextId + k + made.toUInt64 = s.nextId + made.toUInt64 + k := by
        rw [UInt64.add_assoc, UInt64.add_comm k, ← UInt64.add_assoc]
      rw [reply']
      show (Except.error (((s.moved f k).advanceTo (rest.map f)).errorHere e),
          { ((s.moved f k).advanceTo (rest.map f)).fail e with
            nextId := s.nextId + k + made.toUInt64 }) = _
      rw [advanceTo_moved, errorHere_moved, fail_moved, counter]
      rfl

/-- A session over other tokens is the session over the tokens, moved, if they have an end
marker. -/
theorem ofTokens_map (kinds : ∀ t, (f t).kind = t.kind) {tokens : List Token}
    (ended : ∃ t ∈ tokens, t.kind = .eof) (nextId : NodeId) :
    ofTokens (tokens.map f) (nextId + k) = (ofTokens tokens nextId).moved f k := by
  have ends : (fun t : Token => decide (t.kind = .eof)) ∘ f = fun t => decide (t.kind = .eof) := by
    funext t
    simp only [Function.comp_apply, kinds]
  have goesOn : (fun t : Token => decide (t.kind ≠ .eof)) ∘ f =
      fun t => decide (t.kind ≠ .eof) := by
    funext t
    simp only [Function.comp_apply, kinds]
  have rest : (tokens.map f).takeWhile (·.kind ≠ .eof) =
      (tokens.takeWhile (·.kind ≠ .eof)).map f := by rw [List.takeWhile_map, goesOn]
  have marker : ((tokens.map f).find? (·.kind = .eof)).getD (suppliedMarker (tokens.map f)) =
      f ((tokens.find? (·.kind = .eof)).getD (suppliedMarker tokens)) := by
    rw [List.find?_map, ends]
    cases found : tokens.find? (·.kind = .eof) with
    | some t => rfl
    | none =>
        obtain ⟨t, inside, kind⟩ := ended
        exact absurd (decide_eq_true kind) (List.find?_eq_none.mp found t inside)
  rw [ofTokens, rest, marker]
  rfl

end Session

/-! ## Analyses -/

/-- **The analysis of a text in another file and from a moved counter** is the same analysis
with the other file in all locations and with moved identifiers. -/
theorem analyze_placed (file file' : FileId) (text : Bytes) (nextId k : NodeId) :
    analyze file' text (nextId + k) =
      ((analyze file text nextId).1.placed file' k, (analyze file text nextId).2 + k) := by
  have kinds : ∀ t : Token, (t.inFile file').kind = t.kind := fun _ => rfl
  have ends := (Scanner.ofText file text).tokenize_ends
  have scanned : (Scanner.ofText file' text).tokenize =
      (Scanner.ofText file text).tokenize.inFile file' :=
    (Scanner.ofText file text).tokenize_inFile
  unfold analyze
  rw [scanned]
  generalize (Scanner.ofText file text).tokenize = lexed at ends
  obtain ⟨tokens, error?, after⟩ := lexed
  cases error? with
  | some e => rfl
  | none =>
      obtain ⟨⟨front, t, rfl, kind, _⟩, _⟩ := ends
      have ended : ∃ u ∈ front ++ [t], u.kind = .eof := ⟨t, by simp, kind⟩
      have asked :=
        Session.ask_moved (k := k) kinds (Session.ofTokens (front ++ [t]) nextId) .program
      rw [← Session.ofTokens_map kinds ended] at asked
      simp only [Lexed.inFile, Option.map_none, asked]
      cases (Session.ofTokens (front ++ [t]) nextId).ask .program with
      | mk answer s => cases answer <;> rfl

end BlockSyntax
