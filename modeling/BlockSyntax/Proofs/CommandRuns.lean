import BlockSyntax.CommandLine.Run
import BlockSyntax.Proofs.Arguments
import BlockSyntax.Proofs.FileChanges
import Mathlib.Data.List.Induction

/-!
# Runs of the command over a file system

A run gives every file its turn, in the order of the arguments and whatever the turns before
made of theirs.  A turn sees the files as they are when it comes (`CommandLine.Turn`).  One turn
writes at most the tree of its program, and succeeds when there is one and it could be written
(`CommandLine.present_step`); by induction a run succeeds when every turn does, and leaves the
files that the trees written one over the other leave.

All trees are written to one place, and a tree that is written there changes nothing else and
not whether another can be.  So the trees before the last leave no trace
(`CommandLine.Options.Leaves`).

Not every path need be open to the command, whatever is there (`CommandLine.Rights`); with all
rights a run is `World.execute`.
-/

set_option autoImplicit false

namespace BlockSyntax.CommandLine

/-! ## Rights -/

namespace Rights

/-- The place at which a text can be stored. -/
def place? (rights : Rights) (fs : FileSystem) (path : Bytes) : Option (List Bytes) :=
  if rights.writes path then fs.place? path else none

variable {rights : Rights} {fs : FileSystem} {path : Bytes} {names : List Bytes}

/-- A place at which a text can be stored is one that the path leads to. -/
theorem place?_of_place? (place : rights.place? fs path = some names) :
    fs.place? path = some names := by
  unfold place? at place
  split at place
  · exact place
  · cases place

theorem place?_congr {fs' : FileSystem} (same : fs'.place? path = fs.place? path) :
    rights.place? fs' path = rights.place? fs path := by
  unfold place?
  rw [same]

/-- A text is stored at the place for it. -/
theorem store_eq (rights : Rights) (fs : FileSystem) (path text : Bytes) :
    rights.store fs path text = (rights.place? fs path).map (fs.set · text) := by
  unfold store place?
  split
  · exact fs.store_eq path text
  · rfl

end Rights

/-! ## Written trees -/

/-- The text that a tree is written as. -/
def Options.json (o : Options) (root : Node) : Bytes := root.renderJson o.layout ++ [lineFeed]

/-- The place for JSON, if it is to be written and can be. -/
def Options.target? (o : Options) (rights : Rights) (fs : FileSystem) : Option (List Bytes) :=
  if o.writeJson then rights.place? fs o.jsonPath else none

/-- The files after a tree was written, if it is to be written and can be. -/
def Options.writes (o : Options) (rights : Rights) (fs : FileSystem) (root : Node) : FileSystem :=
  ((o.target? rights fs).map (fs.set · (o.json root))).getD fs

/-- What the trees of some programs leave of the files when they are written one over the
other. -/
structure Options.Leaves (o : Options) (rights : Rights) (before : FileSystem) (trees : List Node)
    (after : FileSystem) : Prop where
  /-- Nothing is changed when there is no tree, or none is to be written or can be. -/
  untouched : trees = [] ∨ o.writeJson = false ∨ rights.place? before o.jsonPath = none →
    after = before
  /-- The last tree is at the path for JSON. -/
  written : ∀ {root names}, trees.getLast? = some root → o.writeJson = true →
    rights.place? before o.jsonPath = some names →
      after.locate o.jsonPath = .file names (.bytes (o.json root))
  /-- All other names lead to what they led to. -/
  others : ∀ {names}, before.place? o.jsonPath ≠ some names → after.file? names = before.file? names
  /-- All paths to other places lead to what they led to. -/
  elsewhere : ∀ {path}, before.place? path ≠ before.place? o.jsonPath →
    after.locate path = before.locate path
  /-- No path leads to another place than it did. -/
  places : ∀ path, after.place? path = before.place? path

section Writes

variable {o : Options} {rights : Rights} {fs : FileSystem}

theorem Options.target?_eq_some {names : List Bytes} :
    o.target? rights fs = some names ↔
      o.writeJson = true ∧ rights.place? fs o.jsonPath = some names := by
  unfold target?
  cases o.writeJson with
  | false => exact iff_of_false nofun fun on => nomatch on.1
  | true => exact (and_iff_right rfl).symm

theorem Options.target?_eq_none :
    o.target? rights fs = none ↔ o.writeJson = false ∨ rights.place? fs o.jsonPath = none := by
  unfold target?
  cases o.writeJson with
  | false => exact iff_of_true rfl (.inl rfl)
  | true => exact (or_iff_right nofun).symm

theorem Options.target?_congr {fs' : FileSystem}
    (same : fs'.place? o.jsonPath = fs.place? o.jsonPath) :
    o.target? rights fs' = o.target? rights fs := by
  unfold target?
  rw [Rights.place?_congr same]

/-- The ways in which a tree is written or not. -/
theorem Options.writes_cases (o : Options) (rights : Rights) (fs : FileSystem) (root : Node) :
    (o.target? rights fs = none ∧ o.writes rights fs root = fs) ∨
      ∃ names, o.target? rights fs = some names ∧ fs.place? o.jsonPath = some names ∧
        o.writes rights fs root = fs.set names (o.json root) := by
  unfold writes
  cases target : o.target? rights fs with
  | none => exact .inl ⟨rfl, rfl⟩
  | some names =>
      have place := Rights.place?_of_place? (target?_eq_some.mp target).2
      exact .inr ⟨names, rfl, place, rfl⟩

theorem Options.place?_writes (o : Options) (rights : Rights) (fs : FileSystem) (root : Node)
    (path : Bytes) : (o.writes rights fs root).place? path = fs.place? path := by
  rcases o.writes_cases rights fs root with ⟨_, same⟩ | ⟨names, _, place, same⟩
  · rw [same]
  · rw [same, FileSystem.place?_set (FileSystem.place?_parent place)]

/-- A tree that is written over another leaves nothing of it. -/
theorem Options.writes_writes (o : Options) (rights : Rights) (fs : FileSystem)
    (root root' : Node) :
    o.writes rights (o.writes rights fs root) root' = o.writes rights fs root' := by
  have again : o.target? rights (o.writes rights fs root) = o.target? rights fs :=
    target?_congr (o.place?_writes rights fs root o.jsonPath)
  rcases o.writes_cases rights fs root with ⟨_, same⟩ | ⟨names, target, _, same⟩
  · rw [same]
  · rw [same, target] at again
    rw [same, writes, writes, again, target]
    exact FileSystem.set_set fs names _ _

theorem Options.Leaves.nil (o : Options) (rights : Rights) (fs : FileSystem) :
    o.Leaves rights fs [] fs where
  untouched _ := rfl
  written := nofun
  others _ := rfl
  elsewhere _ := rfl
  places _ := rfl

theorem Options.Leaves.last (o : Options) (rights : Rights) (fs : FileSystem) (trees : List Node)
    (root : Node) : o.Leaves rights fs (trees ++ [root]) (o.writes rights fs root) := by
  have places := o.place?_writes rights fs root
  rcases o.writes_cases rights fs root with ⟨none, same⟩ | ⟨names, target, place, same⟩
  · rw [same] at places ⊢
    refine ⟨fun _ => rfl, ?_, fun _ => rfl, fun _ => rfl, fun _ => rfl⟩
    intro root' names _ on place
    rw [target?_eq_some.mpr ⟨on, place⟩] at none
    cases none
  · have parent := FileSystem.place?_parent place
    rw [same] at places ⊢
    constructor
    case untouched =>
      rintro (empty | without)
      · exact absurd empty (List.append_ne_nil_of_right_ne_nil _ (List.cons_ne_nil _ _))
      · rw [target?_eq_none.mpr without] at target
        cases target
    case written =>
      intro root' names' isLast _ place'
      obtain rfl := Option.some.inj (List.getLast?_concat.symm.trans isLast)
      obtain rfl := Option.some.inj (place.symm.trans (Rights.place?_of_place? place'))
      rw [FileSystem.locate_set parent]
      exact FileSystem.Target.stored_place place
    case others =>
      intro names' other
      rw [FileSystem.file?_set, if_neg]
      rintro rfl
      exact other place
    case elsewhere =>
      intro path other
      rw [place] at other
      rw [FileSystem.locate_set parent]
      exact FileSystem.Target.stored_of_ne other
    case places => exact places

/-- **Trees that are written one after the other leave what the last one leaves.** -/
theorem Options.leaves_foldl (o : Options) (rights : Rights) (fs : FileSystem)
    (trees : List Node) : o.Leaves rights fs trees (trees.foldl (o.writes rights) fs) := by
  have replaced : ∀ (trees : List Node) (root : Node),
      o.writes rights (trees.foldl (o.writes rights) fs) root = o.writes rights fs root := by
    intro trees root
    induction trees using List.reverseRecOn with
    | nil => rfl
    | append_singleton trees root' ih => rw [List.foldl_concat, writes_writes, ih]
  cases trees using List.reverseRecOn with
  | nil => exact .nil o rights fs
  | append_singleton trees root =>
      rw [List.foldl_concat, replaced]
      exact .last o rights fs trees root

/-- What the trees have changed below the working directory is one file, which holds the last of
them. -/
theorem Options.Leaves.changes {trees : List Node} {after : FileSystem}
    (leaves : o.Leaves rights fs trees after) {change : Bytes × Bytes}
    (changed : change ∈ after.changesSince fs) :
    ∃ names root, rights.place? fs o.jsonPath = some names ∧ trees.getLast? = some root ∧
      change = (Path.join (names.drop after.working.length), o.json root) := by
  obtain ⟨names, content, rfl, there, differs⟩ := FileSystem.of_mem_changesSince changed
  have place : fs.place? o.jsonPath = some names := by
    by_contra other
    exact differs (leaves.others other).symm
  have touched := mt leaves.untouched fun same => differs (by rw [same])
  push Not at touched
  obtain ⟨some, on, can⟩ := touched
  obtain ⟨root, last⟩ := Option.isSome_iff_exists.mp (List.getLast?_isSome.mpr some)
  obtain ⟨names', place'⟩ := Option.ne_none_iff_exists'.mp can
  obtain rfl := Option.some.inj (place.symm.trans (Rights.place?_of_place? place'))
  have written := leaves.written last (Bool.of_not_eq_false on) place'
  obtain rfl := Option.some.inj (there.symm.trans (FileSystem.locate_file written))
  exact ⟨names, root, place', last, rfl⟩

end Writes

/-! ## One turn -/

/-- The turn of a file in a run. -/
structure Turn where
  /-- The path of the file. -/
  path : Bytes
  /-- The world when the turn comes. -/
  world : World
  /-- The batch when the turn comes. -/
  batch : Batch

namespace Turn

variable (rights : Rights) (o : Options) (tracing : Bool) (t : Turn)

/-- The analysis of what is at the path when the turn comes. -/
def analysis : Analysis :=
  t.batch.analyzeFile tracing t.path (rights.opened t.world.files t.path).found

/-- The tree, if the file is a program. -/
def root? : Option Node := (t.analysis rights tracing).report.verdict.root?

/-- What the turn comes to: whether it succeeds, and the world it leaves. -/
def shown : Bool × World :=
  present (World.hostWith rights) o t.path (t.analysis rights tracing) t.world

/-- What is at the path when the turn comes can be loaded and is a program with the given
tree. -/
def Yields (root : Node) : Prop :=
  ∃ text file, (t.batch.registry.load t.path (rights.opened t.world.files t.path).found).outcome =
      .ok (text, file) ∧
    (analyze file text t.batch.nextId).1.verdict = .accepted root

/-- The turn is that of a program, and its tree can be written if it is to be. -/
def Succeeds : Prop :=
  ∃ root, t.Yields rights root ∧ (o.writeJson = true →
    ((World.hostWith rights).store o.jsonPath (o.json root) t.world).1 = true)

variable {rights tracing t}

/-- The tree of a turn is that of the program that is found. -/
theorem root?_eq_some {root : Node} :
    t.root? rights tracing = some root ↔ t.Yields rights root := by
  unfold root? analysis Batch.analyzeFile Yields
  dsimp only
  cases (t.batch.registry.load t.path (rights.opened t.world.files t.path).found).outcome with
  | error failure =>
      refine iff_of_false nofun ?_
      rintro ⟨_, _, impossible, _⟩
      cases impossible
  | ok source =>
      obtain ⟨text, file⟩ := source
      show (analyze file text t.batch.nextId).1.verdict.root? = some root ↔ _
      constructor
      · intro tree
        refine ⟨text, file, rfl, ?_⟩
        cases verdict : (analyze file text t.batch.nextId).1.verdict with
        | accepted root' =>
            rw [verdict] at tree
            rw [Option.some.inj tree]
        | lexicalError | syntaxError | unloaded =>
            rw [verdict] at tree
            cases tree
      · rintro ⟨text', file', same, accepted⟩
        obtain ⟨rfl, rfl⟩ := Prod.mk.inj (Except.ok.inj same)
        rw [accepted]
        rfl

end Turn

/-- With all rights the command runs as it does. -/
theorem execute_hostWith_all (environmentTraces : Bool) (arguments : List Bytes) (w : World) :
    execute (World.hostWith .all) environmentTraces arguments w =
      w.execute environmentTraces arguments := rfl

/-- One effect after the other. -/
theorem bind_apply {α β : Type} (x : StateM World α) (f : α → StateM World β) (w : World) :
    (x >>= f) w = f (x w).1 (x w).2 := rfl

section Steps

variable (rights : Rights) (o : Options)

/-- A world stores a text at the place that the path leads to, or says that it cannot. -/
theorem World.hostWith_store (path text : Bytes) (w : World) :
    (World.hostWith rights).store path text w =
      (rights.place? w.files path).elim (false, w) fun names =>
        (true, { w with files := w.files.set names text }) := by
  unfold World.hostWith
  simp only [Rights.store_eq]
  cases rights.place? w.files path <;> rfl

theorem World.hostWith_store_fst (path text : Bytes) (w : World) :
    ((World.hostWith rights).store path text w).1 = (rights.place? w.files path).isSome := by
  rw [World.hostWith_store]
  cases rights.place? w.files path <;> rfl

/-- Writing a tree succeeds when there is nothing to write or a place for it. -/
theorem writeTree_step (root : Node) (w : World) :
    (writeTree (World.hostWith rights) o root w).2.files = o.writes rights w.files root ∧
      ((writeTree (World.hostWith rights) o root w).1 = true ↔
        (o.writeJson = true → (rights.place? w.files o.jsonPath).isSome)) := by
  unfold writeTree Options.writes Options.target?
  cases o.writeJson with
  | false => exact ⟨rfl, iff_of_true rfl nofun⟩
  | true =>
      rw [if_pos rfl, if_pos rfl, bind_apply, World.hostWith_store]
      cases rights.place? w.files o.jsonPath with
      | none => exact ⟨rfl, iff_of_false nofun fun can => nomatch can rfl⟩
      | some names => exact ⟨rfl, iff_of_true rfl fun _ => rfl⟩

/-- **One turn** writes the tree of its program, and succeeds when there is one and it is
written if it is to be. -/
theorem present_step (name : Bytes) (a : Analysis) (w : World) :
    (present (World.hostWith rights) o name a w).2.files =
        a.report.verdict.root?.toList.foldl (o.writes rights) w.files ∧
      ((present (World.hostWith rights) o name a w).1 = true ↔ a.report.verdict.root?.isSome ∧
        (o.writeJson = true → (rights.place? w.files o.jsonPath).isSome)) := by
  unfold present
  rw [bind_apply]
  cases a.report.verdict with
  | unloaded | lexicalError | syntaxError =>
      exact ⟨rfl, iff_of_false nofun fun impossible => nomatch impossible.1⟩
  | accepted root =>
      let shown : World :=
        { w with
          stderr := w.stderr ++ a.stderr
          stdout := w.stdout ++ (tokenSection o name a.report.tokens ++ treeSection o name root) }
      obtain ⟨files, good⟩ := writeTree_step rights o root shown
      refine ⟨files, ?_⟩
      exact good.trans ⟨fun can => ⟨rfl, can⟩, And.right⟩

/-- A turn writes its tree if it has one, and is good when it succeeds. -/
theorem Turn.shown_step (tracing : Bool) (t : Turn) :
    (t.shown rights o tracing).2.files =
        (t.root? rights tracing).toList.foldl (o.writes rights) t.world.files ∧
      ((t.shown rights o tracing).1 = true ↔ t.Succeeds rights o) := by
  obtain ⟨files, good⟩ := present_step rights o t.path (t.analysis rights tracing) t.world
  refine ⟨files, good.trans ?_⟩
  rw [Succeeds, Option.isSome_iff_exists]
  simp only [World.hostWith_store_fst, ← @root?_eq_some rights tracing]
  exact exists_and_right.symm

end Steps

/-! ## All turns -/

section Turns

variable (rights : Rights) (o : Options) (tracing : Bool)

/-- The turns of files, each in the world and the batch that the one before it leaves. -/
def turns : List Bytes → Batch → World → List Turn
  | [], _, _ => []
  | path :: paths, batch, w =>
    let t : Turn := ⟨path, w, batch⟩
    t :: turns paths (t.analysis rights tracing).batch (t.shown rights o tracing).2

/-- The trees of the programs among the files that had their turns. -/
def treesOf (ts : List Turn) : List Node := ts.filterMap (Turn.root? rights tracing)

theorem treesOf_cons (t : Turn) (ts : List Turn) :
    treesOf rights tracing (t :: ts) =
      (t.root? rights tracing).toList ++ treesOf rights tracing ts := by
  unfold treesOf
  cases tree : t.root? rights tracing with
  | none => exact List.filterMap_cons_none tree
  | some root => exact List.filterMap_cons_some tree

variable (paths : List Bytes) (batch : Batch) (w : World)

theorem turns_paths : (turns rights o tracing paths batch w).map Turn.path = paths := by
  induction paths generalizing batch w with
  | nil => rfl
  | cons path paths ih => exact congrArg (path :: ·) (ih _ _)

/-- A run shows the turn of its first file and goes on in the world that it leaves. -/
theorem runFiles_cons (path : Bytes) :
    let t : Turn := ⟨path, w, batch⟩
    let behind := runFiles (World.hostWith rights) o tracing paths
      (t.analysis rights tracing).batch (t.shown rights o tracing).2
    runFiles (World.hostWith rights) o tracing (path :: paths) batch w =
      ((t.shown rights o tracing).1 && behind.1, behind.2) := by
  intro t behind
  rw [runFiles, bind_apply]
  rfl

/-- A run shows every turn, and is good when all of them are. -/
theorem runFiles_eq :
    runFiles (World.hostWith rights) o tracing paths batch w =
      ((turns rights o tracing paths batch w).all fun t => (t.shown rights o tracing).1,
        (turns rights o tracing paths batch w).foldl
          (fun _ t => (t.shown rights o tracing).2) w) := by
  induction paths generalizing batch w with
  | nil => rfl
  | cons path paths ih =>
      rw [runFiles_cons, ih]
      rfl

/-- The files that a turn sees are those that the trees before it have left. -/
theorem turns_files {front behind : List Turn} {t : Turn}
    (parts : turns rights o tracing paths batch w = front ++ t :: behind) :
    t.world.files = (treesOf rights tracing front).foldl (o.writes rights) w.files := by
  induction paths generalizing batch w front with
  | nil => exact absurd parts.symm (List.append_ne_nil_of_right_ne_nil _ (List.cons_ne_nil _ _))
  | cons path paths ih =>
      rw [turns] at parts
      cases front with
      | nil =>
          obtain ⟨rfl, _⟩ := List.cons.inj parts
          rfl
      | cons first front =>
          obtain ⟨rfl, others⟩ := List.cons.inj parts
          rw [ih _ _ others, treesOf_cons, List.foldl_append]
          rw [(Turn.shown_step rights o tracing _).1]

/-- The files that all turns leave are those that their trees leave. -/
theorem foldl_turns_files :
    ((turns rights o tracing paths batch w).foldl
        (fun _ t => (t.shown rights o tracing).2) w).files =
      (treesOf rights tracing (turns rights o tracing paths batch w)).foldl
        (o.writes rights) w.files := by
  induction paths generalizing batch w with
  | nil => rfl
  | cons path paths ih =>
      rw [turns, List.foldl_cons, ih, treesOf_cons, List.foldl_append]
      rw [(Turn.shown_step rights o tracing _).1]

end Turns

/-- A run over files gives every file its turn and ends with the status that says whether all of
them were good. -/
theorem execute_eq (rights : Rights) (environmentTraces : Bool) {arguments : List Bytes}
    {o : Options} (asked : Request.of arguments = .run o) (some : o.files ≠ []) (w : World) :
    let tracing := o.tracing || environmentTraces
    let ts := turns rights o tracing o.files .start w
    execute (World.hostWith rights) environmentTraces arguments w =
      (if ts.all (fun t => (t.shown rights o tracing).1) then 0 else 1,
        ts.foldl (fun _ t => (t.shown rights o tracing).2) w) := by
  intro tracing ts
  have goes : run (World.hostWith rights) o tracing =
      runFiles (World.hostWith rights) o tracing o.files .start := by
    rw [run, List.isEmpty_eq_false_iff.mpr some]
    rfl
  rw [execute, asked]
  dsimp only
  rw [goes, bind_apply, runFiles_eq]
  rfl

/-- **A run of the command over files.**  Let the arguments ask for a run with files, in a world
that lets some paths be opened for reading and some for writing.  The options are those of the
words of the arguments.  Every file has its turn, in order.  The turn sees the files as the trees
before it have left them, and whether a tree can be written is the same for all of them.  The
exit status is zero when every turn succeeds, and one otherwise, and the files are those that the
trees of all turns leave: nothing but the path for JSON is changed, and that holds the last
tree. -/
theorem execute_leaves (rights : Rights) (w : World) (environmentTraces : Bool)
    (arguments : List Bytes) (o : Options) (asked : Request.of arguments = .run o)
    (some : o.files ≠ []) :
    let tracing := o.tracing || environmentTraces
    let ts := turns rights o tracing o.files .start w
    let ran := execute (World.hostWith rights) environmentTraces arguments w
    Options.default.Given (wordsOf arguments) o ∧
      ts.map Turn.path = o.files ∧
      (∀ front t behind, ts = front ++ t :: behind →
        o.Leaves rights w.files (treesOf rights tracing front) t.world.files ∧
          ∀ text, ((World.hostWith rights).store o.jsonPath text t.world).1 =
            (rights.place? w.files o.jsonPath).isSome) ∧
      (ran.1 = 0 ↔ ∀ t ∈ ts, t.Succeeds rights o) ∧ (ran.1 = 0 ∨ ran.1 = 1) ∧
      ran.2 = ts.foldl (fun _ t => (t.shown rights o tracing).2) w ∧
      o.Leaves rights w.files (treesOf rights tracing ts) ran.2.files := by
  intro tracing ts ran
  have ends := execute_eq rights environmentTraces asked some w
  have status : ran.1 = if ts.all (fun t => (t.shown rights o tracing).1) then 0 else 1 :=
    congrArg Prod.fst ends
  have left : ran.2 = ts.foldl (fun _ t => (t.shown rights o tracing).2) w :=
    congrArg Prod.snd ends
  have good : ts.all (fun t => (t.shown rights o tracing).1) = true ↔
      ∀ t ∈ ts, t.Succeeds rights o := by
    rw [List.all_eq_true]
    exact forall₂_congr fun t _ => (t.shown_step rights o tracing).2
  refine ⟨Request.read_run asked, turns_paths rights o tracing _ _ w, ?turns, ?zero, ?one, left,
    ?files⟩
  case turns =>
    intro front t behind parts
    have leaves := o.leaves_foldl rights w.files (treesOf rights tracing front)
    rw [← turns_files rights o tracing _ _ w parts] at leaves
    refine ⟨leaves, fun text => ?_⟩
    rw [World.hostWith_store_fst, Rights.place?_congr (leaves.places _)]
  case zero =>
    rw [status, ← good]
    cases ts.all fun t => (t.shown rights o tracing).1 <;> decide
  case one =>
    rw [status]
    cases ts.all fun t => (t.shown rights o tracing).1 <;> decide
  case files =>
    rw [left, foldl_turns_files]
    exact o.leaves_foldl rights w.files _

/-- A program writes its tree over the next file, which is named by another path, from the
working directory, and is then no program; a file is missing, and the program behind it is
written after all. -/
theorem execute_leaves_last_tree :
    let w : World := ⟨⟨[ascii "home"], [[ascii "tmp"]],
      [([ascii "home", ascii "a"], .bytes (ascii "1;")),
        ([ascii "tmp", ascii "b"], .bytes (ascii "2;")),
        ([ascii "home", ascii "c"], .bytes (ascii "3;"))]⟩, [], []⟩
    let arguments :=
      ["--json", "/tmp/b", "a", "../tmp/b", "--compact", "/tmp/d", "/home/c"].map ascii
    let o : Options :=
      ⟨["a", "../tmp/b", "/tmp/d", "/home/c"].map ascii, true, true, true, ascii "/tmp/b",
        .compact, false⟩
    Request.of arguments = .run o ∧ o.files ≠ [] ∧ (w.execute false arguments).1 = 1 ∧
      ∃ first last, o.Leaves .all w.files [first, last] (w.execute false arguments).2.files := by
  intro w arguments o
  have asked : Request.of arguments = .run o := by decide +kernel
  have some : o.files ≠ [] := List.cons_ne_nil _ _
  obtain ⟨_, _, _, _, _, _, leaves⟩ := execute_leaves .all w false arguments o asked some
  have trees : (treesOf .all (o.tracing || false)
      (turns .all o (o.tracing || false) o.files .start w)).length = 2 := by decide +kernel
  obtain ⟨first, last, both⟩ := List.length_eq_two.mp trees
  have failed : (w.execute false arguments).1 = 1 := by decide +kernel
  rw [both, execute_hostWith_all] at leaves
  exact ⟨asked, some, failed, first, last, leaves⟩

end BlockSyntax.CommandLine
