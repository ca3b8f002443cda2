import BlockSyntax.Proofs.Registration
import BlockSyntax.Proofs.Relocation

/-!
# The texts of a batch do not disturb each other

The texts of a batch share the registry of files and the counter that nodes are numbered from,
and nothing else.  So a text is analyzed in a batch as it is alone: its report is the one on
the text alone, in its own file and with its identifiers moved by what the counter has counted
before, and what is printed of it is the same (`analyzeText_isolated`).  It does not matter
what the texts before were, and which of them failed.

The identifiers of a text end where those of the next begin, as long as the counter does not
run over.  How many a text draws depends on the text alone (`SourceText.draws`).
-/

set_option autoImplicit false

namespace BlockSyntax

/-! ## Printed diagnostics -/

/-- The same diagnostic in another file. -/
def Diagnostic.inFile (file : FileId) (d : Diagnostic) : Diagnostic :=
  { d with location := d.location.inFile file }

/-- A diagnostic is printed the same in every file with the same path. -/
theorem Diagnostic.render_inFile {file file' : FileId} {pathOf pathOf' : FileId → Bytes}
    (used : file ≠ 0) (used' : file' ≠ 0) (same : pathOf file = pathOf' file') (d : Diagnostic) :
    (d.inFile file).render pathOf = (d.inFile file').render pathOf' := by
  have known : (d.inFile file).location.hasFile = true := bne_iff_ne.mpr used
  have known' : (d.inFile file').location.hasFile = true := bne_iff_ne.mpr used'
  have paths : pathOf (d.inFile file).location.file = pathOf' (d.inFile file').location.file := same
  rw [render, render, if_pos known, if_pos known', paths]
  rfl

theorem Diagnostic.renderAll_inFile {file file' : FileId} {pathOf pathOf' : FileId → Bytes}
    (used : file ≠ 0) (used' : file' ≠ 0) (same : pathOf file = pathOf' file')
    (ds : List Diagnostic) :
    renderAll pathOf (ds.map (inFile file)) = renderAll pathOf' (ds.map (inFile file')) := by
  rw [renderAll, renderAll, List.flatMap_map, List.flatMap_map]
  congr 1
  funext d
  exact render_inFile used used' same d

namespace Verdict

variable {file : FileId} {k : NodeId}

/-- What is reported on a text is reported on it in another file. -/
theorem diagnostics_placed {v : Verdict} (loaded : ∀ failure, v ≠ .unloaded failure) :
    (v.placed file k).diagnostics = v.diagnostics.map (Diagnostic.inFile file) := by
  cases v with
  | accepted root | lexicalError e | syntaxError e => rfl
  | unloaded failure => exact absurd rfl (loaded failure)

theorem trace_placed (v : Verdict) : (v.placed file k).trace = v.trace := by
  cases v <;> rfl

end Verdict

theorem analyze_ne_unloaded (file : FileId) (text : Bytes) (nextId : NodeId)
    (failure : LoadFailure) : (analyze file text nextId).1.verdict ≠ .unloaded failure := by
  rcases analyze_cases file text nextId with
    ⟨_, _, same⟩ | ⟨_, _, _, _, same⟩ | ⟨_, _, _, _, same⟩ <;> rw [same] <;> nofun

/-! ## Identifiers -/

/-- How many identifiers the analysis of a text draws. -/
def draws (text : Bytes) : Nat :=
  let lexed := (Scanner.ofText 0 text).tokenize
  match lexed.error? with
  | some _ => 0
  | none => (Session.ofTokens lexed.tokens 0).drawn .program

theorem Reply.Moves.made_eq {m n : Nat} {f : Token → Token} {k : NodeId}
    {r : Reply (Numbered Node) m} {r' : Reply (Numbered Node) n} (moves : r.Moves f k r') :
    r'.made = r.made := by
  cases r with
  | ok walk rest made h =>
      obtain ⟨_, _, rfl, _⟩ := moves
      rfl
  | fail e rest made =>
      obtain rfl := moves
      rfl

theorem Session.drawn_moved {f : Token → Token} (kinds : ∀ t, (f t).kind = t.kind) {k : NodeId}
    (s : Session) (goal : Goal) : (s.moved f k).drawn goal = s.drawn goal :=
  (goal.parse_moves (k := k) kinds s.rest).made_eq

/-- A text draws as many identifiers in every file. -/
theorem drawn_eq_draws {file : FileId} {text : Bytes} (nextId : NodeId)
    (sound : (Scanner.ofText file text).tokenize.error? = none) :
    (Session.ofTokens (Scanner.ofText file text).tokenize.tokens nextId).drawn .program =
      draws text := by
  have kinds : ∀ t : Token, (t.inFile file).kind = t.kind := fun _ => rfl
  have scanned : (Scanner.ofText file text).tokenize =
      (Scanner.ofText 0 text).tokenize.inFile file := (Scanner.ofText 0 text).tokenize_inFile
  have ends := (Scanner.ofText 0 text).tokenize_ends
  rw [scanned] at sound ⊢
  have sound' : (Scanner.ofText 0 text).tokenize.error? = none := Option.map_eq_none_iff.mp sound
  rw [sound'] at ends
  obtain ⟨⟨front, t, tokens, kind, _⟩, _⟩ := ends
  have ended : ∃ u ∈ (Scanner.ofText 0 text).tokenize.tokens, u.kind = .eof :=
    ⟨t, by simp [tokens], kind⟩
  have session := Session.ofTokens_map (k := nextId) kinds ended 0
  rw [UInt64.zero_add] at session
  rw [Lexed.inFile, session, Session.drawn_moved kinds, draws, sound']

/-- **The identifiers of a text**: a tree is numbered from the counter, and the counter ends
behind the identifiers drawn. -/
theorem analyze_numbered (file : FileId) (text : Bytes) (nextId : NodeId)
    (room : nextId.toNat + draws text < UInt64.size) :
    (analyze file text nextId).2.toNat = nextId.toNat + draws text ∧
      ∀ root, (analyze file text nextId).1.verdict.root? = some root →
        root.NumberedFrom nextId ∧ root.count = draws text := by
  rcases analyze_cases file text nextId with
    ⟨e, error, same⟩ | ⟨sound, root, s, asked, same⟩ | ⟨sound, e, s, asked, same⟩
  · have none : draws text = 0 := by
      have scanned : (Scanner.ofText file text).tokenize =
          (Scanner.ofText 0 text).tokenize.inFile file := (Scanner.ofText 0 text).tokenize_inFile
      rw [scanned] at error
      obtain ⟨e', error', _⟩ := Option.map_eq_some_iff.mp error
      rw [draws, error']
    rw [same, none]
    exact ⟨rfl, nofun⟩
  · have drawn := drawn_eq_draws nextId sound
    obtain ⟨count, numbered, moved⟩ := Session.ask_ok_numbered asked (by rw [drawn]; exact room)
    rw [drawn] at count moved
    rw [same]
    refine ⟨moved, ?_⟩
    intro root' tree
    obtain rfl := Option.some.inj tree
    exact ⟨numbered, count⟩
  · have drawn := drawn_eq_draws nextId sound
    have moved := Session.ask_error_nextId asked
    rw [drawn] at moved
    have small : (draws text).toUInt64.toNat = draws text := UInt64.toNat_ofNat_of_lt' (by omega)
    have counter : (nextId + (draws text).toUInt64).toNat = nextId.toNat + draws text := by
      rw [UInt64.toNat_add, small]
      exact Nat.mod_eq_of_lt room
    rw [same]
    refine ⟨?_, nofun⟩
    show s.nextId.toNat = _
    rw [moved]
    exact counter

namespace Batch

/-! ## Batches -/

/-- How many identifiers are drawn at an event. -/
def Event.draws : Event → Nat
  | .registered _ => 0
  | .analyzed _ source => BlockSyntax.draws source.text

/-- A text has a place in a batch: the file it is said to be in is registered under its path,
or there is a number left for its path. -/
def Places (b : Batch) (source : SourceText) : Prop :=
  match source.file? with
  | some file => b.registry.Holds (Path.normal source.path) file
  | none => ¬ b.registry.isExhausted

/-- The file of a text: the one it is said to be in, or the one its path is registered under. -/
def enter (b : Batch) (source : SourceText) : Registry.Registered :=
  match source.file? with
  | some file => ⟨file, b.registry, []⟩
  | none => b.registry.add source.path

/-- A text is analyzed in its file, from the counter of the batch. -/
theorem analyzeText_eq (b : Batch) (tracing : Bool) (source : SourceText) :
    b.analyzeText tracing source =
      let entered := b.enter source
      let (report, nextId) := analyze entered.id source.text b.nextId
      ⟨report, ⟨entered.registry, nextId⟩,
        entered.complaint ++ if tracing then report.verdict.trace else []⟩ := by
  unfold analyzeText enter
  cases source.file? <;> rfl

theorem enter_consecutive {b : Batch} (consecutive : b.registry.Consecutive)
    (source : SourceText) : (b.enter source).registry.Consecutive := by
  unfold enter
  cases source.file? with
  | some file => exact consecutive
  | none => exact consecutive.add source.path

theorem enter_keeps {b : Batch} {normal : Bytes} {file : FileId}
    (holds : b.registry.Holds normal file) (source : SourceText) :
    (b.enter source).registry.Holds normal file := by
  unfold enter
  cases source.file? with
  | some file => exact holds
  | none => exact holds.add source.path

/-- A text that has a place gets a file that leads to its path, without complaint. -/
theorem Places.enter {b : Batch} (consecutive : b.registry.Consecutive) {source : SourceText}
    (places : b.Places source) :
    (b.enter source).registry.Holds (Path.normal source.path) (b.enter source).id ∧
      (b.enter source).complaint = [] := by
  unfold Places at places
  unfold Batch.enter
  cases named : source.file? with
  | some file =>
      rw [named] at places
      exact ⟨places, rfl⟩
  | none =>
      rw [named] at places
      exact consecutive.add_holds places source.path

/-! ### One event -/

theorem after_consecutive {b : Batch} (consecutive : b.registry.Consecutive) (event : Event) :
    (b.after event).registry.Consecutive := by
  cases event with
  | registered path => exact consecutive.add path
  | analyzed tracing source =>
      rw [after, analyzeText_eq]
      exact enter_consecutive consecutive source

theorem after_keeps {b : Batch} {normal : Bytes} {file : FileId}
    (holds : b.registry.Holds normal file) (event : Event) :
    (b.after event).registry.Holds normal file := by
  cases event with
  | registered path => exact holds.add path
  | analyzed tracing source =>
      rw [after, analyzeText_eq]
      exact enter_keeps holds source

/-- An event moves the counter behind what it draws. -/
theorem after_nextId {b : Batch} {event : Event}
    (room : b.nextId.toNat + event.draws < UInt64.size) :
    (b.after event).nextId.toNat = b.nextId.toNat + event.draws := by
  cases event with
  | registered path => rfl
  | analyzed tracing source =>
      rw [after, analyzeText_eq]
      exact (analyze_numbered _ source.text b.nextId room).1

/-! ### Runs -/

theorem run_consecutive {b : Batch} (consecutive : b.registry.Consecutive)
    (events : List Event) : (events.foldl after b).registry.Consecutive := by
  induction events generalizing b with
  | nil => exact consecutive
  | cons event events ih => exact ih (after_consecutive consecutive event)

theorem run_keeps {b : Batch} {normal : Bytes} {file : FileId}
    (holds : b.registry.Holds normal file) (events : List Event) :
    (events.foldl after b).registry.Holds normal file := by
  induction events generalizing b with
  | nil => exact holds
  | cons event events ih => exact ih (after_keeps holds event)

/-- How many identifiers are drawn at one event after the other. -/
def drawn (events : List Event) : Nat := (events.map Event.draws).sum

theorem run_nextId {b : Batch} {events : List Event}
    (room : b.nextId.toNat + drawn events < UInt64.size) :
    (events.foldl after b).nextId.toNat = b.nextId.toNat + drawn events := by
  induction events generalizing b with
  | nil => rfl
  | cons event events ih =>
      have parts : drawn (event :: events) = event.draws + drawn events := List.sum_cons
      have step : (b.after event).nextId.toNat = b.nextId.toNat + event.draws :=
        after_nextId (by omega)
      rw [List.foldl_cons, ih (by omega)]
      omega

/-! ### A text in a batch and alone -/

/-- The analysis of a text in a batch of its own. -/
def alone (tracing : Bool) (source : SourceText) : Analysis :=
  start.analyzeText tracing { source with file? := none }

/-- A text has a place in a batch of its own. -/
theorem start_places (source : SourceText) : start.Places { source with file? := none } := by
  show ¬ Registry.empty.isExhausted
  decide

/-- The file of a text in a batch of its own. -/
theorem alone_holds (tracing : Bool) (source : SourceText) :
    (alone tracing source).batch.registry.Holds (Path.normal source.path)
      (alone tracing source).report.file := by
  obtain ⟨holds, _⟩ := (start_places source).enter Registry.empty_consecutive
  rw [alone, analyzeText_eq]
  simp only [analyze_file]
  exact holds

variable {b : Batch} {tracing : Bool} {source : SourceText}

/-- The report on a text in a batch is that on the text alone, placed in the batch. -/
theorem report_placed (b : Batch) (tracing : Bool) (source : SourceText) :
    (b.analyzeText tracing source).report = (alone tracing source).report.placed
      (b.analyzeText tracing source).report.file (b.nextId - Session.firstId) := by
  have counted : Session.firstId + (b.nextId - Session.firstId) = b.nextId := by
    rw [UInt64.add_comm, UInt64.sub_add_cancel]
  rw [alone, analyzeText_eq, analyzeText_eq]
  simp only [analyze_file]
  have placed := analyze_placed (start.enter { source with file? := none }).id (b.enter source).id
    source.text Session.firstId (b.nextId - Session.firstId)
  rw [counted] at placed
  exact congrArg Prod.fst placed

/-- The same is reported on a text, in its file. -/
theorem diagnostics_placed (b : Batch) (tracing : Bool) (source : SourceText) :
    (b.analyzeText tracing source).report.verdict.diagnostics =
      (alone tracing source).report.verdict.diagnostics.map
        (Diagnostic.inFile (b.analyzeText tracing source).report.file) := by
  have loaded : ∀ failure, (alone tracing source).report.verdict ≠ .unloaded failure := by
    rw [alone, analyzeText_eq]
    exact analyze_ne_unloaded _ _ _
  rw [← Verdict.diagnostics_placed (k := b.nextId - Session.firstId) loaded]
  exact congrArg (fun r => r.verdict.diagnostics) (report_placed b tracing source)

/-- What is printed of a text with the path of its file is what is printed of it alone. -/
theorem renderAll_placed {pathOf : FileId → Bytes}
    (used : (b.analyzeText tracing source).report.file ≠ 0)
    (path : pathOf (b.analyzeText tracing source).report.file = Path.normal source.path) :
    Diagnostic.renderAll pathOf (b.analyzeText tracing source).report.verdict.diagnostics =
      Diagnostic.renderAll (alone tracing source).batch.registry.path
        (alone tracing source).report.verdict.diagnostics := by
  obtain ⟨usedAlone, pathAlone⟩ := (alone_holds tracing source).path_eq
  have itself : (alone tracing source).report.verdict.diagnostics =
      (alone tracing source).report.verdict.diagnostics.map
        (Diagnostic.inFile (alone tracing source).report.file) :=
    diagnostics_placed start tracing { source with file? := none }
  rw [diagnostics_placed, itself, List.map_map]
  exact Diagnostic.renderAll_inFile used usedAlone (path.trans pathAlone.symm) _

/-- For a text that has a place only the trace is written. -/
theorem Places.stderr (consecutive : b.registry.Consecutive) (places : b.Places source) :
    (b.analyzeText tracing source).stderr =
      if tracing then (b.analyzeText tracing source).report.verdict.trace else [] := by
  have quiet := (places.enter consecutive).2
  rw [analyzeText_eq]
  simp only [quiet, List.nil_append]

/-- A text is numbered from the counter of its batch. -/
theorem analyzeText_numbered (b : Batch) (tracing : Bool) (source : SourceText)
    (room : b.nextId.toNat + draws source.text < UInt64.size) :
    (b.analyzeText tracing source).batch.nextId.toNat = b.nextId.toNat + draws source.text ∧
      ∀ root, (b.analyzeText tracing source).report.verdict.root? = some root →
        root.NumberedFrom b.nextId ∧ root.count = draws source.text := by
  rw [analyzeText_eq]
  exact analyze_numbered _ source.text b.nextId room

/-- The identifiers that a text draws in a batch. -/
theorem analyzeText_identifiers (b : Batch) (tracing : Bool) (source : SourceText)
    (room : b.nextId.toNat + draws source.text < UInt64.size) :
    (b.analyzeText tracing source).batch.nextId.toNat = b.nextId.toNat + draws source.text ∧
      ∀ root, (b.analyzeText tracing source).report.verdict.root? = some root →
        ∀ n ∈ root.preorder,
          b.nextId.toNat ≤ n.id.toNat ∧ n.id.toNat < b.nextId.toNat + draws source.text := by
  obtain ⟨moved, numbered⟩ := b.analyzeText_numbered tracing source room
  refine ⟨moved, fun root tree n inside => ?_⟩
  obtain ⟨interval, count⟩ := numbered root tree
  rw [← count]
  exact interval.within inside

end Batch

/-- **A text is analyzed in a batch as it is alone.**  Let a text that has a place in a batch be
analyzed there, after whatever happened in the batch before.  Its report is that on the text
alone, in the file of the text and with its identifiers moved by what the counter has counted;
the same is reported, and what is printed of it at any later time, with the paths of the batch,
is what is printed of the text alone.  Every identifier of a text that is analyzed later is
greater than every identifier of this one, if the counter does not run over. -/
theorem analyzeText_isolated (first : NodeId) (events later : List Batch.Event)
    (tracing tracing' : Bool) (source source' : SourceText) :
    let b := events.foldl Batch.after ⟨.empty, first⟩
    let a := b.analyzeText tracing source
    let b' := later.foldl Batch.after a.batch
    let a' := b'.analyzeText tracing' source'
    let alone := Batch.alone tracing source
    b.Places source →
      b'.registry.Holds (Path.normal source.path) a.report.file ∧
      a.report = alone.report.placed a.report.file (b.nextId - Session.firstId) ∧
      a.report.verdict.diagnostics =
        alone.report.verdict.diagnostics.map (Diagnostic.inFile a.report.file) ∧
      Diagnostic.renderAll b'.registry.path a.report.verdict.diagnostics =
        Diagnostic.renderAll alone.batch.registry.path alone.report.verdict.diagnostics ∧
      a.stderr = alone.stderr ∧
      (first.toNat + Batch.drawn (events ++ [.analyzed tracing source] ++ later ++
          [.analyzed tracing' source']) < UInt64.size →
        ∀ root root', a.report.verdict.root? = some root → a'.report.verdict.root? = some root' →
          ∀ n ∈ root.preorder, ∀ n' ∈ root'.preorder, n.id < n'.id) := by
  intro b a b' a' alone places
  have consecutive : b.registry.Consecutive :=
    Batch.run_consecutive (b := ⟨.empty, first⟩) Registry.empty_consecutive events
  obtain ⟨entered, quiet⟩ := places.enter consecutive
  have holds : a.batch.registry.Holds (Path.normal source.path) a.report.file := by
    show (b.analyzeText tracing source).batch.registry.Holds _
      (b.analyzeText tracing source).report.file
    rw [Batch.analyzeText_eq]
    simp only [analyze_file]
    exact entered
  have kept : b'.registry.Holds (Path.normal source.path) a.report.file :=
    Batch.run_keeps holds later
  refine ⟨kept, Batch.report_placed b tracing source, Batch.diagnostics_placed b tracing source,
    ?printed, ?traced, ?ordered⟩
  case printed =>
    obtain ⟨used, path⟩ := kept.path_eq
    exact Batch.renderAll_placed used path
  case traced =>
    show (b.analyzeText tracing source).stderr = (Batch.alone tracing source).stderr
    have same := Batch.report_placed b tracing source
    rw [places.stderr consecutive, Batch.alone,
      (Batch.start_places source).stderr Registry.empty_consecutive, same]
    simp only [Report.placed, Verdict.trace_placed, Batch.alone]
  case ordered =>
    intro room root root' tree tree' n inside n' inside'
    have total : Batch.drawn (events ++ [.analyzed tracing source] ++ later ++
        [.analyzed tracing' source']) =
        Batch.drawn events + draws source.text + Batch.drawn later + draws source'.text := by
      simp [Batch.drawn, Batch.Event.draws, Nat.add_assoc]
    rw [total] at room
    have before : b.nextId.toNat = first.toNat + Batch.drawn events :=
      Batch.run_nextId (b := ⟨.empty, first⟩) (by show first.toNat + _ < _; omega)
    obtain ⟨moved, within⟩ := b.analyzeText_identifiers tracing source (by omega)
    have moved : a.batch.nextId.toNat = b.nextId.toNat + draws source.text := moved
    have between : b'.nextId.toNat = a.batch.nextId.toNat + Batch.drawn later :=
      Batch.run_nextId (by omega)
    obtain ⟨_, within'⟩ := b'.analyzeText_identifiers tracing' source' (by omega)
    have lower := within root tree n inside
    have second := within' root' tree' n' inside'
    exact UInt64.lt_iff_toNat_lt.mpr (by omega)

/-- Behind a registered path, a text with a syntax error and one with a lexical error, a text in
the registered file is analyzed as it is alone, and a later text has greater identifiers. -/
theorem analyzeText_isolated_behind_failures :
    let events := [Batch.Event.registered (ascii "a.bg"),
      .analyzed false ⟨ascii "int[1] a, ;", ascii "b.bg", none⟩,
      .analyzed false ⟨ascii "@", ascii "c.bg", none⟩]
    let source : SourceText := ⟨ascii "1;", ascii "./a.bg", some 1⟩
    let source' : SourceText := ⟨ascii "2;", ascii "d.bg", none⟩
    let b := events.foldl Batch.after .start
    let a := b.analyzeText false source
    let a' := a.batch.analyzeText false source'
    b.Places source ∧ b.nextId = 6 ∧
      a.report = (Batch.alone false source).report.placed 1 5 ∧
      ∃ root root', a.report.verdict.root? = some root ∧ a'.report.verdict.root? = some root' ∧
        ∀ n ∈ root.preorder, ∀ n' ∈ root'.preorder, n.id < n'.id := by
  intro events source source' b a a'
  have places : b.Places source := ⟨0, by decide +kernel, rfl⟩
  have counter : b.nextId = 6 := by decide +kernel
  obtain ⟨_, report, _, _, _, ordered⟩ :=
    analyzeText_isolated Session.firstId events [] false false source source' places
  have room : Session.firstId.toNat + Batch.drawn (events ++ [.analyzed false source] ++ [] ++
      [.analyzed false source']) < UInt64.size := by decide +kernel
  have tree : a.report.verdict.root?.isSome := by decide +kernel
  have tree' : a'.report.verdict.root?.isSome := by decide +kernel
  obtain ⟨root, found⟩ := Option.isSome_iff_exists.mp tree
  obtain ⟨root', found'⟩ := Option.isSome_iff_exists.mp tree'
  have offset : b.nextId - Session.firstId = 5 := by
    rw [counter]
    decide
  have file : a.report.file = 1 := by decide +kernel
  refine ⟨places, counter, ?_, root, root', found, found', ordered room root root' found found'⟩
  rw [← offset, ← file]
  exact report

end BlockSyntax
