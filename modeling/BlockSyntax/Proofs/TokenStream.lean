import BlockSyntax.Proofs.FaultLocations

/-!
# The stream of a scanner

A scanner can be asked for its next token and for all tokens up to the next end marker or
fault, in any order, also behind a fault and behind the end.  Every request takes some steps
(`Scanner.ask_takes`), and the next one goes on where they lead.  So what is returned by and by
is the stream that single steps find, however it is asked for (`Scanner.answers_take`).

A step that finds anything but the end marker takes at least one byte
(`Scanner.next_progresses`).  So there are no more such tokens than bytes, and the loop of a
request for all tokens ends (`Scanner.tokenizeWithin_eq`).  The end marker is found where no
bytes are left, and the scanner stays there (`Scanner.stepped_eof`).

A fault is found and reported in one step, and what is reported belongs to its error token
(`Scanner.next_reports`).
-/

set_option autoImplicit false

namespace BlockSyntax

/-- The diagnostic is an error of the scanner for the token, and it is located at the bytes of the
token if there are any. -/
structure Token.ReportedAs (t : Token) (d : Diagnostic) : Prop where
  /-- It is an error. -/
  severity : d.severity = .error
  /-- It has the code of lexical errors. -/
  code : d.code = ascii "B1001"
  /-- It is located where the token is. -/
  location : t.lexeme ≠ [] → d.location = t.location

namespace Scanner

/-! ## Steps -/

/-- The scanners from which the first steps are taken. -/
def visited (s : Scanner) (n : Nat) : List Scanner := (List.range n).map s.stepped

/-- The tokens that the first steps find. -/
def found (s : Scanner) (n : Nat) : List Token := (s.visited n).map (·.next.tokenFound)

/-- What the first steps report. -/
def reportedIn (s : Scanner) (n : Nat) : List Diagnostic :=
  (s.visited n).filterMap (·.next.error?.map LexicalError.diagnostic)

theorem stepped_add (s : Scanner) (m n : Nat) : s.stepped (m + n) = (s.stepped m).stepped n := by
  induction n with
  | zero => rfl
  | succ n ih => rw [← Nat.add_assoc, stepped, stepped, ih]

theorem stepped_succ (s : Scanner) (n : Nat) : s.stepped (n + 1) = s.next.after.stepped n := by
  rw [Nat.add_comm, stepped_add]
  rfl

theorem visited_add (s : Scanner) (m n : Nat) :
    s.visited (m + n) = s.visited m ++ (s.stepped m).visited n := by
  rw [visited, List.range_add, List.map_append, List.map_map]
  refine congrArg (s.visited m ++ ·) (List.map_congr_left fun k _ => ?_)
  exact s.stepped_add m k

theorem visited_succ (s : Scanner) (n : Nat) :
    s.visited (n + 1) = s :: s.next.after.visited n := by
  rw [Nat.add_comm, visited_add]
  rfl

theorem length_found (s : Scanner) (n : Nat) : (s.found n).length = n := by
  simp [found, visited]

theorem getElem?_found {s : Scanner} {n k : Nat} {t : Token} (there : (s.found n)[k]? = some t) :
    t = (s.stepped k).next.tokenFound := by
  obtain ⟨inside, rfl⟩ := List.getElem?_eq_some_iff.mp there
  simp [found, visited]

/-! ## Requests take steps -/

/-- The answer is what a number of steps find and report. -/
structure Answer.Takes (s : Scanner) (n : Nat) (a : Answer) : Prop where
  /-- The tokens are those found. -/
  tokens : a.tokens = s.found n
  /-- What is reported is what the steps report. -/
  reported : a.reported = s.reportedIn n
  /-- The steps lead to the scanner behind the tokens. -/
  after : a.after = s.stepped n

/-- A step and then an answer that takes steps are an answer that takes one step more. -/
theorem Answer.Takes.step {s : Scanner} {n : Nat} {a : Answer} (takes : a.Takes s.next.after n) :
    (⟨s.next.tokenFound :: a.tokens,
      (s.next.error?.map LexicalError.diagnostic).toList ++ a.reported, a.after⟩ : Answer).Takes
        s (n + 1) := by
  constructor
  case tokens => rw [takes.tokens, found, found, visited_succ, List.map_cons]
  case reported =>
    rw [takes.reported, reportedIn, reportedIn, visited_succ, List.filterMap_cons]
    cases s.next.error? <;> rfl
  case after => rw [takes.after, stepped_succ]

/-- One step answers a request for a token, and the last step one for all tokens. -/
theorem takes_one (s : Scanner) : (s.ask .token).Takes s 1 := by
  refine ⟨rfl, ?_, rfl⟩
  show (s.next.error?.map LexicalError.diagnostic).toList =
    [s].filterMap (·.next.error?.map LexicalError.diagnostic)
  rw [List.filterMap_cons]
  cases s.next.error? <;> rfl

/-- **An answer is what some steps find and report.** -/
theorem ask_takes (s : Scanner) (request : Request) : ∃ n, (s.ask request).Takes s n := by
  cases request with
  | token => exact ⟨1, s.takes_one⟩
  | stream =>
      fun_induction tokenize s with
      | case1 s t after shorter found following ih =>
          obtain ⟨n, takes⟩ := ih
          have next : s.next.after = after := by rw [found]; rfl
          rw [← next] at takes
          have longer := takes.step
          rw [found] at longer
          refine ⟨n + 1, ?_⟩
          rw [ask, tokenize, found]
          exact longer
      | case2 s t e after found | case3 s t after found =>
          refine ⟨1, ?_⟩
          have same : s.ask .stream = s.ask .token := by
            rw [ask, ask, tokenize, found]
            rfl
          rw [same]
          exact s.takes_one

/-- **What is returned and reported is what steps find and report**, however it is asked for. -/
theorem answers_take (s : Scanner) (requests : List Request) :
    ∃ n, (s.answers requests).flatMap (·.tokens) = s.found n ∧
      (s.answers requests).flatMap (·.reported) = s.reportedIn n := by
  induction requests generalizing s with
  | nil => exact ⟨0, rfl, rfl⟩
  | cons request requests ih =>
      obtain ⟨m, takes⟩ := s.ask_takes request
      obtain ⟨n, tokens, reported⟩ := ih (s.ask request).after
      refine ⟨m + n, ?_, ?_⟩
      · rw [answers, List.flatMap_cons, tokens, takes.tokens, takes.after, found, found, found,
          visited_add, List.map_append]
      · rw [answers, List.flatMap_cons, reported, takes.reported, takes.after, reportedIn,
          reportedIn, reportedIn, visited_add, List.filterMap_append]

/-- An answer to a request for all tokens ends with its only end marker or error token. -/
theorem answers_stream {s : Scanner} {requests : List Request} {i : Nat}
    (asked : requests[i]? = some .stream) :
    ∃ a, (s.answers requests)[i]? = some a ∧
      (EndsWithOnly .eof .error a.tokens ∨ EndsWithOnly .error .eof a.tokens) := by
  induction requests generalizing s i with
  | nil => cases asked
  | cons request requests ih =>
      cases i with
      | zero =>
          obtain rfl := Option.some.inj asked
          refine ⟨_, rfl, ?_⟩
          have ends := s.tokenize_ends
          split at ends
          case h_1 => exact .inr ends
          case h_2 => exact .inl ends
      | succ i => exact ih asked

/-! ## Every step but the last takes bytes -/

/-- **A step takes bytes from the front of those left**, and at least one unless it finds the end
marker. -/
theorem next_progresses (s : Scanner) :
    ∃ passed, s.rest = passed ++ s.next.after.rest ∧
      s.next.after = s.behind passed s.next.after.rest ∧
      (s.next.tokenFound.kind ≠ .eof → passed ≠ []) := by
  obtain ⟨gap, behind, split, finds⟩ := s.next_finds
  obtain ⟨passed, cut, after⟩ := finds.after_eq
  refine ⟨passed, split.parts.trans cut, after, ?_⟩
  rintro more rfl
  -- then all that was left is left still, and neither a gap nor a lexeme was passed
  have all : (gap ++ behind).length = s.next.after.rest.length := congrArg List.length cut
  revert more all
  generalize s.next = found at finds
  cases finds with
  | finish => exact fun more _ => absurd rfl more
  | unclosed unclosed =>
      intro _ all
      obtain ⟨body, rfl, _⟩ := unclosed
      simp [Scanned.after, Scanner.behind] at all
  | token _ longest | fault _ longest =>
      intro _ all
      have nonempty := List.length_pos_iff.mpr longest.isLexeme.ne_nil
      simp only [Scanned.after, Scanner.behind, List.length_append] at all
      omega

/-- There are no more tokens in front of the end than bytes. -/
theorem countP_found_le (s : Scanner) (n : Nat) :
    (s.found n).countP (·.kind ≠ .eof) ≤ s.rest.length := by
  induction n generalizing s with
  | zero => exact Nat.zero_le _
  | succ n ih =>
      obtain ⟨passed, parts, _, taken⟩ := s.next_progresses
      have total := congrArg List.length parts
      rw [List.length_append] at total
      have others := ih s.next.after
      rw [found, visited_succ, List.map_cons, List.countP_cons]
      rw [found] at others
      split
      case isTrue more =>
        have some := List.length_pos_iff.mpr (taken (of_decide_eq_true more))
        omega
      case isFalse => omega

/-- Takes steps until the end marker or a fault; behind a number of rounds another scanner goes
on. -/
def tokenizeWithin (beyond : Scanner → Lexed) : Nat → Scanner → Lexed
  | 0, s => beyond s
  | rounds + 1, s =>
    match s.next with
    | .token t after _ =>
      let following := tokenizeWithin beyond rounds after
      { following with tokens := t :: following.tokens }
    | .fault t e after => ⟨[t], some e, after⟩
    | .finish t after => ⟨[t], none, after⟩

/-- **The loop goes round no more often than there are bytes, and once for the end**: cut off
behind more rounds, with anything beyond, it gives the same. -/
theorem tokenizeWithin_eq {beyond : Scanner → Lexed} {rounds : Nat} {s : Scanner}
    (enough : s.rest.length < rounds) : tokenizeWithin beyond rounds s = s.tokenize := by
  induction rounds generalizing s with
  | zero => exact absurd enough (Nat.not_lt_zero _)
  | succ rounds ih =>
      rw [tokenizeWithin, tokenize]
      cases s.next with
      | token t after shorter =>
          have following : tokenizeWithin beyond rounds after = after.tokenize := ih (by omega)
          dsimp only
          rw [following]
      | fault t e after => rfl
      | finish t after => rfl

/-- No steps lead to more bytes. -/
theorem length_rest_stepped_le (s : Scanner) (n : Nat) :
    (s.stepped n).rest.length ≤ s.rest.length := by
  induction n with
  | zero => exact Nat.le_refl _
  | succ n ih =>
      obtain ⟨passed, parts, _, _⟩ := (s.stepped n).next_progresses
      have total := congrArg List.length parts
      rw [List.length_append] at total
      rw [stepped]
      omega

/-! ## The end -/

/-- A step that finds the end marker goes to the end of the text, ... -/
theorem next_of_eof {s : Scanner} (ended : s.next.tokenFound.kind = .eof) :
    s.next.tokenFound = ⟨.eof, [], s.locateBehind s.rest⟩ ∧ s.next.after.rest = [] := by
  obtain ⟨gap, behind, split, finds⟩ := s.next_finds
  have parts := split.parts
  revert ended
  generalize s.next = found at finds
  intro ended
  cases finds with
  | finish =>
      rw [parts, List.append_nil]
      exact ⟨rfl, rfl⟩
  | unclosed _ => cases ended
  | token _ longest => exact absurd ended longest.isLexeme.kind_ne_eof
  | fault => cases ended

/-- ... and there it is found again. -/
theorem eof_of_rest_nil {s : Scanner} (none : s.rest = []) : s.next.tokenFound.kind = .eof := by
  have passed : Gap.pass .between s.position s.rest = .closed s.position [] := by
    rw [none]
    rfl
  rw [next_of_nil passed]
  rfl

/-- **Behind an end marker there are only end markers.** -/
theorem stepped_eof {s : Scanner} {i j : Nat} (ended : (s.stepped i).next.tokenFound.kind = .eof)
    (later : i ≤ j) : (s.stepped j).next.tokenFound.kind = .eof := by
  induction later with
  | refl => exact ended
  | step _ ih => exact eof_of_rest_nil (next_of_eof ih).2

/-! ## What is reported -/

/-- **A step reports one error for an error token and nothing else.** -/
theorem next_reports (s : Scanner) :
    (s.next.error? = none ∧ s.next.tokenFound.kind ≠ .error) ∨
      ∃ e, s.next.error? = some e ∧ s.next.tokenFound.kind = .error ∧
        s.next.tokenFound.ReportedAs e.diagnostic := by
  obtain ⟨gap, behind, _, finds⟩ := s.next_finds
  generalize s.next = found at finds
  cases finds with
  | finish => exact .inl ⟨rfl, nofun⟩
  | unclosed _ => exact .inr ⟨_, rfl, rfl, rfl, rfl, fun nonempty => absurd rfl nonempty⟩
  | token _ _ sound => exact .inl ⟨rfl, sound⟩
  | fault => exact .inr ⟨_, rfl, rfl, rfl, rfl, fun _ => rfl⟩

/-- What steps report belongs to the error tokens that they find, one to one and in order. -/
theorem found_reported (s : Scanner) (n : Nat) :
    List.Forall₂ Token.ReportedAs ((s.found n).filter (·.kind = .error)) (s.reportedIn n) := by
  rw [found, reportedIn]
  induction s.visited n with
  | nil => exact .nil
  | cons s ss ih =>
      rw [List.map_cons, List.filterMap_cons]
      rcases s.next_reports with ⟨none, sound⟩ | ⟨e, some, error, reported⟩
      · rw [none, List.filter_cons_of_neg (by simpa using sound)]
        exact ih
      · rw [some, List.filter_cons_of_pos (by simpa using error)]
        exact .cons reported ih

/-! ## All requests -/

/-- **Every way of asking a scanner gives the stream of its steps.**  Let a scanner at the start
of a text be asked for tokens in any way.

* What it returns are the tokens found by as many steps.
* A step that finds anything but the end marker takes at least one byte, and so no more such
  tokens are returned than there are bytes.
* A request for all tokens ends wherever it is made: its loop goes round at most once for each
  byte, and once more.
* The answer to such a request ends with its only end marker or error token.
* Behind an end marker there is only that same end marker, at the end of the text.
* One error is reported for each error token returned, in the same order. -/
theorem answers_history (file : FileId) (text : Bytes) (requests : List Request) :
    let s := ofText file text
    let answers := s.answers requests
    let tokens := answers.flatMap (·.tokens)
    tokens = s.found tokens.length ∧
      (∀ k, (s.stepped k).next.tokenFound.kind ≠ .eof →
        ∃ passed, passed ≠ [] ∧ (s.stepped k).rest = passed ++ (s.stepped (k + 1)).rest ∧
          s.stepped (k + 1) = (s.stepped k).behind passed (s.stepped (k + 1)).rest) ∧
      tokens.countP (·.kind ≠ .eof) ≤ text.length ∧
      (∀ k beyond rounds, text.length < rounds →
        tokenizeWithin beyond rounds (s.stepped k) = (s.stepped k).tokenize) ∧
      (∀ i : Nat, requests[i]? = some .stream → ∃ a, answers[i]? = some a ∧
        (EndsWithOnly .eof .error a.tokens ∨ EndsWithOnly .error .eof a.tokens)) ∧
      (∀ i j : Nat, ∀ t u, i ≤ j → tokens[i]? = some t → t.kind = .eof → tokens[j]? = some u →
        u = ⟨.eof, [], s.locateBehind text⟩) ∧
      List.Forall₂ Token.ReportedAs (tokens.filter (·.kind = .error))
        (answers.flatMap (·.reported)) := by
  intro s answers tokens
  obtain ⟨n, returned, reported⟩ := s.answers_take requests
  have all : tokens = s.found n := returned
  have length : tokens.length = n := by rw [all, length_found]
  refine ⟨?stream, ?progress, ?bound, ?ends, ?last, ?stays, ?reports⟩
  case stream => rw [length, all]
  case progress =>
    intro k more
    obtain ⟨passed, parts, after, taken⟩ := (s.stepped k).next_progresses
    exact ⟨passed, taken more, parts, after⟩
  case bound =>
    rw [all]
    exact s.countP_found_le n
  case ends =>
    intro k beyond rounds enough
    exact tokenizeWithin_eq (Nat.lt_of_le_of_lt (s.length_rest_stepped_le k) enough)
  case last => exact fun i asked => answers_stream asked
  case stays =>
    intro i j t u later first ended second
    rw [all] at first second
    obtain rfl := getElem?_found first
    obtain rfl := getElem?_found second
    obtain ⟨before, parts, stands⟩ := stepped_stands file text j
    rw [(next_of_eof (stepped_eof ended later)).1, stands.locateBehind_eq, ← parts]
    rfl
  case reports =>
    rw [all, reported]
    exact s.found_reported n

end Scanner

end BlockSyntax
