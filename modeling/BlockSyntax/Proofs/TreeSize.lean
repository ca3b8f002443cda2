import BlockSyntax.Proofs.FileAnalysis
import BlockSyntax.Proofs.History
import BlockSyntax.Proofs.Isolation
import BlockSyntax.Proofs.NodeBudget
import BlockSyntax.Proofs.TokenStream

/-!
# The size of trees and of batches

A program draws at most two identifiers for each of its tokens and one for itself, and there are
no more tokens than bytes.  So how far a text moves the counter of its batch is bounded by its
size, whether it is accepted or not (`Analysis.Draws`), and by induction a batch whose texts
are not too large together never reaches the end of the counter.  Its trees then have all their
identifiers to themselves (`identifiers_unique`).
-/

set_option autoImplicit false

namespace BlockSyntax

/-! ## What a request draws -/

mutual

/-- Numbering moves the counter by the number of nodes, also where it runs over. -/
theorem Numbering.last_eq {next last : NodeId} {shape node : Node} :
    Numbering next shape node last → last = next + node.count.toUInt64
  | .terminal => rfl
  | .list inside | .construct inside => by
      rw [Node.count, toUInt64_add, ← UInt64.add_assoc, ← inside.last_eq]
      rfl
  | @Numbering.declaration _ _ _ _ _ _ _ _ t _ nodes _ ns typed front back => by
      have total : t.count + (Node.countAll nodes + 1 + (Node.countAll ns + 1 + 0)) + 1 =
          t.count + Node.countAll nodes + Node.countAll ns + 1 + 1 + 1 := by omega
      simp only [Node.count, Node.countAll, total, toUInt64_add, ← UInt64.add_assoc]
      rw [← typed.last_eq, ← front.last_eq, ← back.last_eq]
      rfl

theorem NumberingAll.last_eq {next last : NodeId} {shapes nodes : List Node} :
    NumberingAll next shapes nodes last → last = next + (Node.countAll nodes).toUInt64
  | .nil => (UInt64.add_zero _).symm
  | .cons head tail => by
      rw [Node.countAll, toUInt64_add, ← UInt64.add_assoc, ← head.last_eq, ← tail.last_eq]

end

/-- A program is numbered with as many identifiers as it is worth. -/
theorem Program.number_eq (p : Program) (next : NodeId) :
    (p.number next).1.count = p.nodes ∧ (p.number next).2 = next + p.nodes.toUInt64 := by
  obtain ⟨nodes, parts, last, numbering, perm, same⟩ := p.numbering next
  have count := Program.countAll_parts numbering perm
  rw [same]
  refine ⟨count, ?_⟩
  rw [← count, toUInt64_add, ← UInt64.add_assoc, Node.countAll_perm perm, ← numbering.last_eq]
  rfl

namespace Reply

variable {α β : Type} {n : Nat} {r : Reply α n}

theorem made_map (f : α → β) (r : Reply α n) : (r.map f).made = r.made := by
  cases r <;> rfl

theorem Counts.made_eq {worth : α → Nat} {a : α} {rest : List Token} (counts : r.Counts 0 worth)
    (gives : r.Gives a rest) : r.made = worth a := by
  cases r with
  | ok v us made h =>
      obtain ⟨rfl, _⟩ := gives
      exact (Nat.zero_add _).symm.trans counts
  | fail e us made => exact gives.elim

theorem Affords.made_le {tokens : List Token} {credit : Nat} {spare : α → Nat}
    (affords : r.Affords tokens credit spare) : r.made ≤ 2 * tokens.length + credit := by
  cases r with
  | ok a rest made h | fail e rest made =>
      simp only [Affords] at affords
      simp only [Reply.made]
      omega

end Reply

namespace Session

variable {s s' : Session} {root : Node}

theorem drawn_program (s : Session) : s.drawn .program = (program s.rest).made :=
  Reply.made_map _ _

/-- A program draws at most two identifiers for each token that is left and one for itself. -/
theorem drawn_program_le (s : Session) : s.drawn .program ≤ 2 * s.rest.length + 1 := by
  rw [drawn_program]
  exact (program_affords s.rest).made_le

/-- A program is answered with as many nodes as were drawn. -/
theorem count_of_ask_program (answers : s.ask .program = (.ok root, s')) :
    root.count = s.drawn .program := by
  obtain ⟨p, rest, gives, rfl, _⟩ := ask_program_eq_ok.mp answers
  rw [drawn_program, (program_counts s.rest).made_eq gives]
  exact (p.number_eq s.nextId).1

/-- A request for a program moves the counter by what it draws. -/
theorem nextId_ask_program (s : Session) :
    (s.ask .program).2.nextId = s.nextId + (s.drawn .program).toUInt64 := by
  cases answers : s.ask .program with
  | mk answer s' =>
      cases answer with
      | ok root =>
          obtain ⟨p, rest, gives, _, rfl⟩ := ask_program_eq_ok.mp answers
          rw [drawn_program, (program_counts s.rest).made_eq gives]
          exact (p.number_eq s.nextId).2
      | error e => exact ask_error_nextId answers

/-- Whatever was asked before, no more tokens are left than there are in front of the end. -/
theorem length_rest_run (tokens : List Token) (start : NodeId) (events : List Event) :
    (events.foldl after (ofTokens tokens start)).rest.length ≤
      (tokens.takeWhile (·.kind ≠ .eof)).length := by
  obtain ⟨used, left, _⟩ := (advances_run (ofTokens tokens start) events).took
  have total := congrArg List.length left
  rw [List.length_append] at total
  have all : (ofTokens tokens start).rest.length = (tokens.takeWhile (·.kind ≠ .eof)).length := rfl
  omega

end Session

/-! ## Texts -/

/-- **There are no more tokens in front of the end than bytes.** -/
theorem countP_tokenize_le (file : FileId) (text : Bytes) :
    (Scanner.ofText file text).tokenize.tokens.countP (·.kind ≠ .eof) ≤ text.length := by
  obtain ⟨n, takes⟩ := (Scanner.ofText file text).ask_takes .stream
  have found : (Scanner.ofText file text).tokenize.tokens = _ := takes.tokens
  rw [found]
  exact (Scanner.ofText file text).countP_found_le n

theorem length_takeWhile_le_countP {α : Type} (p : α → Bool) (as : List α) :
    (as.takeWhile p).length ≤ as.countP p := by
  have all : (as.takeWhile p).countP p = (as.takeWhile p).length :=
    List.countP_eq_length.mpr fun _ => List.mem_takeWhile_imp
  rw [← all]
  exact (List.takeWhile_sublist p).countP_le

/-- A text draws at most two identifiers for each byte and one for the program. -/
theorem draws_le (text : Bytes) : draws text ≤ 2 * text.length + 1 := by
  unfold draws
  dsimp only
  split
  · exact Nat.zero_le _
  · have drawn := Session.drawn_program_le
      (.ofTokens (Scanner.ofText 0 text).tokenize.tokens 0)
    have tokens := length_takeWhile_le_countP (·.kind ≠ .eof)
      (Scanner.ofText 0 text).tokenize.tokens
    have bytes := countP_tokenize_le 0 text
    have rest : (Session.ofTokens (Scanner.ofText 0 text).tokenize.tokens 0).rest.length =
      ((Scanner.ofText 0 text).tokenize.tokens.takeWhile (·.kind ≠ .eof)).length := rfl
    omega

/-! ## Batches -/

namespace Batch

/-- The number of bytes that are analyzed. -/
def Input.size : Input → Nat
  | text _ source => source.text.length
  | file _ _ (.text bytes) => bytes.length
  | file _ _ .missing | file _ _ .oversize => 0

end Batch

/-- The identifiers of the tree of an analysis, if there is one. -/
def Analysis.identifiers (a : Analysis) : List Nat :=
  (a.report.verdict.root?.map Node.identifiers).getD []

/-- The counter went on from the given identifier as far as the size of an input allows, and the
identifiers in the tree are among those that it passed, each once. -/
structure Analysis.Draws (before : NodeId) (size : Nat) (a : Analysis) : Prop where
  /-- The counter did not run over. -/
  forward : before.toNat ≤ a.batch.nextId.toNat
  /-- It moved by at most two for each byte and one more. -/
  bounded : a.batch.nextId.toNat ≤ before.toNat + (2 * size + 1)
  /-- The identifiers of the tree were passed. -/
  within : ∀ i ∈ a.identifiers, before.toNat ≤ i ∧ i < a.batch.nextId.toNat
  /-- They are different from each other. -/
  distinct : a.identifiers.Nodup

/-- A tree that was numbered from the counter has identifiers that the counter passed. -/
theorem Analysis.draws_of_numbered {before : NodeId} {drawn size : Nat} {a : Analysis}
    (moved : a.batch.nextId.toNat = before.toNat + drawn) (few : drawn ≤ 2 * size + 1)
    (numbered : ∀ root, a.report.verdict.root? = some root →
      root.NumberedFrom before ∧ root.count = drawn) : a.Draws before size := by
  have interval : ∃ k, k ≤ drawn ∧ a.identifiers.Perm (List.range' before.toNat k) := by
    unfold identifiers
    cases tree : a.report.verdict.root? with
    | none => exact ⟨0, Nat.zero_le _, .nil⟩
    | some root =>
        obtain ⟨from', count⟩ := numbered root tree
        exact ⟨root.count, Nat.le_of_eq count, from'.interval⟩
  obtain ⟨k, below, perm⟩ := interval
  refine ⟨by omega, by omega, ?_, perm.nodup_iff.mpr List.nodup_range'⟩
  intro i inside
  have passed := List.mem_range'_1.mp (perm.subset inside)
  omega

/-- An analysis without a tree that leaves the counter alone. -/
theorem Analysis.draws_of_unloaded {before : NodeId} {size : Nat} {a : Analysis}
    (unloaded : a.report.Unloaded) (same : a.batch.nextId = before) : a.Draws before size := by
  have moved : a.batch.nextId.toNat = before.toNat + 0 := congrArg UInt64.toNat same
  refine draws_of_numbered moved (Nat.zero_le _) ?_
  intro root tree
  rw [unloaded.root] at tree
  cases tree

namespace Batch

variable {b : Batch} {inputs : List Input}

/-- **One input** moves the counter as far as its size allows. -/
theorem analyzed_draws (input : Input)
    (room : b.nextId.toNat + (2 * input.size + 1) < UInt64.size) :
    (b.analyzed input).Draws b.nextId input.size := by
  have texts : ∀ (tracing : Bool) (source : SourceText),
      b.nextId.toNat + (2 * source.text.length + 1) < UInt64.size →
        (b.analyzeText tracing source).Draws b.nextId source.text.length := by
    intro tracing source room
    have few := draws_le source.text
    obtain ⟨moved, numbered⟩ := b.analyzeText_numbered tracing source (by omega)
    exact Analysis.draws_of_numbered moved few numbered
  cases input with
  | text tracing source => exact texts tracing source room
  | file tracing path found =>
      by_cases readable : ∃ bytes, found = .text bytes
      · obtain ⟨bytes, rfl⟩ := readable
        by_cases numbered : (b.registry.add path).id = 0
        · obtain ⟨unloaded, left⟩ := analyzeFile_of_id_eq_zero tracing bytes numbered
          exact Analysis.draws_of_unloaded unloaded (by rw [analyzed, left])
        · rw [analyzed, analyzeFile_of_id_ne_zero numbered]
          exact texts tracing ⟨bytes, path, none⟩ room
      · obtain ⟨unloaded, left⟩ :=
          analyzeFile_of_not_text b tracing path (not_exists.mp readable)
        exact Analysis.draws_of_unloaded unloaded (by rw [analyzed, left])

/-- The bytes of all inputs. -/
def totalSize (inputs : List Input) : Nat := (inputs.map Input.size).sum

theorem totalSize_cons (input : Input) (inputs : List Input) :
    totalSize (input :: inputs) = input.size + totalSize inputs :=
  List.sum_cons

theorem totalSize_append (inputs others : List Input) :
    totalSize (inputs ++ others) = totalSize inputs + totalSize others := by
  rw [totalSize, List.map_append, List.sum_append, totalSize, totalSize]

/-- The counter goes on during a run, as far as the sizes allow. -/
theorem run_forward (b : Batch) (inputs : List Input)
    (room : b.nextId.toNat + (2 * totalSize inputs + inputs.length) < UInt64.size) :
    b.nextId.toNat ≤ (b.run inputs).nextId.toNat ∧
      (b.run inputs).nextId.toNat ≤ b.nextId.toNat + (2 * totalSize inputs + inputs.length) := by
  induction inputs generalizing b with
  | nil => exact ⟨Nat.le_refl _, Nat.le_refl _⟩
  | cons input inputs ih =>
      rw [totalSize_cons, List.length_cons] at room ⊢
      have first := analyzed_draws (b := b) input (by omega)
      have lower := first.forward
      have upper := first.bounded
      obtain ⟨lower', upper'⟩ := ih (b.analyzed input).batch (by omega)
      rw [run, List.foldl_cons, ← run]
      omega

/-- **The trees of a batch have different identifiers**, and all of them were passed by the
counter. -/
theorem analyses_identifiers
    (room : b.nextId.toNat + (2 * totalSize inputs + inputs.length) < UInt64.size) :
    ((b.analyses inputs).flatMap Analysis.identifiers).Nodup ∧
      ∀ i ∈ (b.analyses inputs).flatMap Analysis.identifiers, b.nextId.toNat ≤ i := by
  induction inputs generalizing b with
  | nil => exact ⟨.nil, nofun⟩
  | cons input inputs ih =>
      rw [totalSize_cons, List.length_cons] at room
      have first := analyzed_draws (b := b) input (by omega)
      have forward := first.forward
      have bounded := first.bounded
      obtain ⟨nodup, later⟩ := ih (b := (b.analyzed input).batch) (by omega)
      rw [analyses, List.flatMap_cons]
      constructor
      · refine List.nodup_append.mpr ⟨first.distinct, nodup, ?_⟩
        rintro i inside _ behind rfl
        exact Nat.not_lt.mpr (later i behind) (first.within i inside).2
      · refine List.forall_mem_append.mpr ⟨fun i inside => (first.within i inside).1, ?_⟩
        exact fun i behind => Nat.le_trans forward (later i behind)

end Batch

/-- **Trees are linear in their tokens, and identifiers are unique in a batch.**  Whatever was
asked of a session before, a request for a program moves the counter by at most two for each
token in front of the end and one more, also when it fails, and a tree has as many nodes.  A text
has no more such tokens than bytes.  So in a batch of texts and files, from a counter that has
room for two identifiers for each byte and one for each input, the counter never runs over: each
input moves it forward by at most two for each of its bytes and one more, the identifiers of its
tree are among those that were passed, and no two nodes of all trees have the same one. -/
theorem identifiers_unique :
    (∀ (tokens : List Token) (start : NodeId) (events : List Session.Event),
      let n := (tokens.takeWhile (·.kind ≠ .eof)).length
      let s := events.foldl Session.after (.ofTokens tokens start)
      s.drawn .program ≤ 2 * n + 1 ∧
        (s.ask .program).2.nextId = s.nextId + (s.drawn .program).toUInt64 ∧
        ∀ root s', s.ask .program = (.ok root, s') →
          root.count = s.drawn .program ∧ root.count ≤ 2 * n + 1) ∧
    (∀ (file : FileId) (text : Bytes),
      (Scanner.ofText file text).tokenize.tokens.countP (·.kind ≠ .eof) ≤ text.length) ∧
    ∀ (b : Batch) (inputs : List Batch.Input),
      b.nextId.toNat + (2 * Batch.totalSize inputs + inputs.length) < UInt64.size →
        (∀ before input later, inputs = before ++ input :: later →
          ((b.run before).analyzed input).Draws (b.run before).nextId input.size) ∧
        ((b.analyses inputs).flatMap Analysis.identifiers).Nodup := by
  refine ⟨?requests, countP_tokenize_le, ?batches⟩
  case requests =>
    intro tokens start events n s
    have left : s.rest.length ≤ n := Session.length_rest_run tokens start events
    have few := s.drawn_program_le
    refine ⟨by omega, s.nextId_ask_program, ?_⟩
    intro root s' answers
    have count := Session.count_of_ask_program answers
    exact ⟨count, by omega⟩
  case batches =>
    intro b inputs room
    refine ⟨?_, (Batch.analyses_identifiers room).1⟩
    rintro before input later rfl
    rw [Batch.totalSize_append, Batch.totalSize_cons, List.length_append, List.length_cons] at room
    have moved := b.run_forward before (by omega)
    exact Batch.analyzed_draws input (by omega)

/-- A declaration draws all it can.  In a batch with a text that breaks off behind a terminal, a
file that is not there, and a file and a text that are programs, the second program is numbered
behind the first, and the terminal that was lost keeps its identifier. -/
theorem identifiers_unique_tight :
    let tokens := [TokenKind.kwInt, .identifier, .semicolon, .eof].map TokenKind.token
    let inputs : List Batch.Input := [.text true ⟨ascii "enum a 1", ascii "a.bg", none⟩,
      .file false (ascii "b.bg") .missing, .file false (ascii "c.bg") (.text (ascii "int a;")),
      .text false ⟨ascii "1;", ascii "d.bg", none⟩]
    (∃ root s', (Session.ofTokens tokens 1).ask .program = (.ok root, s') ∧
      root.count = 2 * 3 + 1) ∧
      (Batch.start.run (inputs.take 2)).nextId = 2 ∧
      ((Batch.start.run (inputs.take 2)).analyzed (inputs[2])).Draws 2 6 ∧
      (Batch.start.analyses inputs).flatMap Analysis.identifiers =
        [8, 7, 2, 5, 6, 4, 3, 12, 11, 10, 9] ∧
      ((Batch.start.analyses inputs).flatMap Analysis.identifiers).Nodup := by
  intro tokens inputs
  obtain ⟨requests, _, batches⟩ := identifiers_unique
  have ok : ((Session.ofTokens tokens 1).ask .program).1.isOk := by decide +kernel
  obtain ⟨root, s', answers⟩ := Session.exists_of_isOk ok
  obtain ⟨_, _, counted⟩ := requests tokens 1 []
  have drawn : (Session.ofTokens tokens 1).drawn .program = 2 * 3 + 1 := by decide +kernel
  have room : Batch.start.nextId.toNat + (2 * Batch.totalSize inputs + inputs.length) <
      UInt64.size := by decide +kernel
  have counter : (Batch.start.run (inputs.take 2)).nextId = 2 := by decide +kernel
  obtain ⟨each, nodup⟩ := batches .start inputs room
  have third := each (inputs.take 2) inputs[2] (inputs.drop 3) rfl
  rw [counter] at third
  exact ⟨⟨root, s', answers, (counted root s' answers).1.trans drawn⟩, counter, third,
    by decide +kernel, nodup⟩

end BlockSyntax
