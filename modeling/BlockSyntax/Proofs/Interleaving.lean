import BlockSyntax.CommandLine.Run
import BlockSyntax.Proofs.Arguments
import Mathlib.Data.List.Perm.Basic

/-!
# Files and options in any order

Arguments are read from the left, and the first word that ends the reading decides what happens,
with its exit status.  Where no word does, the arguments are put together from their words, and
other arguments can be put together from the same words: with the files among the options in
another way, but the files in their order and the options in theirs
(`CommandLine.Reordered`).  They ask for the same run.

Each setting looks at options only and the files at files only, so each finds the same words in the
same order.  The operand of a `--json` goes along with it, for it is part of its word
(`CommandLine.wordsOf_flatMap`).
-/

set_option autoImplicit false

namespace BlockSyntax.CommandLine

/-! ## Words put together -/

/-- The arguments that make a word. -/
def Word.arguments (w : Word) : List Bytes := w.text :: w.operand?.toList

/-- The argument for JSON has an operand, and no other argument has one. -/
def Word.IsWhole (w : Word) : Prop := w.operand?.isSome ↔ w.text = ascii "--json"

/-- The words of arguments make up the arguments. -/
theorem flatMap_wordsOf (arguments : List Bytes) :
    (wordsOf arguments).flatMap Word.arguments = arguments := by
  fun_induction wordsOf arguments with
  | case1 => rfl
  | case2 text => rfl
  | case3 next rest ih => rw [List.flatMap_cons, ih]; rfl
  | case4 text next rest _ ih => rw [List.flatMap_cons, ih]; rfl

/-- Arguments that are made of whole words have these words. -/
theorem wordsOf_flatMap {words : List Word} (whole : ∀ w ∈ words, w.IsWhole) :
    wordsOf (words.flatMap Word.arguments) = words := by
  induction words with
  | nil => rfl
  | cons w words ih =>
      obtain ⟨first, others⟩ := List.forall_mem_cons.mp whole
      obtain ⟨text, operand?⟩ := w
      rw [List.flatMap_cons]
      cases operand? with
      | none =>
          have other : text ≠ ascii "--json" := fun json => nomatch first.mpr json
          exact (wordsOf_single other _).trans (congrArg _ (ih others))
      | some path =>
          obtain rfl : text = ascii "--json" := first.mp rfl
          exact (wordsOf_json path _).trans (congrArg _ (ih others))

/-- Only the argument for JSON is given an operand. -/
theorem text_of_operand (arguments : List Bytes) :
    ∀ w ∈ wordsOf arguments, w.operand?.isSome → w.text = ascii "--json" := by
  fun_induction wordsOf arguments with
  | case1 => exact List.forall_mem_nil _
  | case2 text => exact List.forall_mem_singleton.mpr nofun
  | case3 next rest ih => exact List.forall_mem_cons.mpr ⟨fun _ => rfl, ih⟩
  | case4 text next rest _ ih => exact List.forall_mem_cons.mpr ⟨nofun, ih⟩

/-- A word that does not end the reading is whole. -/
theorem isWhole_of_mem {arguments : List Bytes} {w : Word} (inside : w ∈ wordsOf arguments)
    (goes : w.request? = none) : w.IsWhole := by
  constructor
  · exact text_of_operand arguments w inside
  · intro json
    obtain ⟨text, operand?⟩ := w
    subst json
    cases operand? with
    | some path => rfl
    | none => cases goes

/-! ## Other orders -/

/-- The words are the same, with files among options in another way: the files are in the same
order, and so are the options. -/
structure Reordered (words words' : List Word) : Prop where
  /-- The files are in the same order. -/
  files : words'.filter (·.file?.isSome) = words.filter (·.file?.isSome)
  /-- The options are in the same order. -/
  options : words'.filter (!·.file?.isSome) = words.filter (!·.file?.isSome)

/-- What is found at elements of one sort only depends on the elements of this sort. -/
theorem filterMap_eq_of_filter_eq {α β : Type} {p : α → Bool} {f : α → Option β} {l l' : List α}
    (same : l'.filter p = l.filter p) (only : ∀ a ∈ l, p a = false → f a = none)
    (only' : ∀ a ∈ l', p a = false → f a = none) : l'.filterMap f = l.filterMap f := by
  have sorted {l : List α} (only : ∀ a ∈ l, p a = false → f a = none) :
      (l.filter p).filterMap f = l.filterMap f := by
    rw [List.filterMap_filter]
    apply List.filterMap_congr
    intro a inside
    cases sort : p a with
    | true => rfl
    | false => exact (only a inside sort).symm
  rw [← sorted only, ← same, sorted only']

/-- The text of a file is not an option. -/
theorem Word.text_ne_of_file {w : Word} (file : w.file?.isSome) {option : Bytes}
    (hyphen : option.head? = some (byte '-')) : w.text ≠ option := by
  intro same
  rw [file?, same, if_pos hyphen] at file
  cases file

namespace Reordered

variable {words words' : List Word}

theorem perm (reordered : Reordered words words') : words'.Perm words := by
  have parts := List.filter_append_perm (·.file?.isSome) words'
  rw [reordered.files, reordered.options] at parts
  exact parts.symm.trans (List.filter_append_perm _ _)

theorem filterMap_file (reordered : Reordered words words') :
    words'.filterMap Word.file? = words.filterMap Word.file? := by
  apply filterMap_eq_of_filter_eq reordered.files <;>
    exact fun w _ option => by simpa using option

/-- What files have nothing to do with is found in the same order. -/
theorem filterMap_option {β : Type} {f : Word → Option β} (reordered : Reordered words words')
    (none : ∀ w ∈ words, w.file?.isSome → f w = none) :
    words'.filterMap f = words.filterMap f := by
  apply filterMap_eq_of_filter_eq reordered.options
  · intro w inside file
    exact none w inside (by simpa using file)
  · intro w inside file
    exact none w (reordered.perm.mem_iff.mp inside) (by simpa using file)

theorem filterMap_switch (reordered : Reordered words words') {on off : Bytes}
    (isOn : on.head? = some (byte '-')) (isOff : off.head? = some (byte '-')) :
    words'.filterMap (Word.switch? on off) = words.filterMap (Word.switch? on off) := by
  apply reordered.filterMap_option
  intro w _ file
  rw [Word.switch?, if_neg (w.text_ne_of_file file isOn), if_neg (w.text_ne_of_file file isOff)]

end Reordered

/-- **The order of files among options makes no difference** to the options. -/
theorem Options.changedBy_reordered {words words' : List Word} (reordered : Reordered words words')
    (whole : ∀ w ∈ words, w.IsWhole) (before : Options) :
    before.changedBy words' = before.changedBy words := by
  have tokens : words'.filterMap (Word.switch? (ascii "--tokens") (ascii "--no-tokens")) = _ :=
    reordered.filterMap_switch rfl rfl
  have tree : words'.filterMap (Word.switch? (ascii "--tree") (ascii "--no-tree")) = _ :=
    reordered.filterMap_switch rfl rfl
  have json : words'.filterMap Word.json? = words.filterMap Word.json? :=
    reordered.filterMap_switch rfl rfl
  have operands : words'.filterMap Word.operand? = words.filterMap Word.operand? := by
    apply reordered.filterMap_option
    intro w inside file
    simpa using mt (whole w inside).mp (w.text_ne_of_file file rfl)
  simp only [changedBy, reordered.filterMap_file, tokens, tree, json, operands,
    reordered.perm.any_eq]

/-! ## Exit statuses -/

/-- The exit status when no run is asked for. -/
def Request.status? : Request → Option UInt32
  | help | version => some 0
  | unknownOption _ | missingOperand => some 1
  | run _ => none

/-- Without a run the exit status is that of what is asked for, and no file is touched. -/
theorem World.execute_status {arguments : List Bytes} {request : Request}
    (asked : Request.of arguments = request) (ends : request.status?.isSome) (world : World)
    (environmentTraces : Bool) :
    some (world.execute environmentTraces arguments).1 = request.status? ∧
      (world.execute environmentTraces arguments).2.files = world.files := by
  rw [World.execute, CommandLine.execute, asked]
  cases request with
  | run o => cases ends
  | _ => exact ⟨rfl, rfl⟩

/-- Only a run has no exit status of its own. -/
theorem Word.status?_of_request? {w : Word} {request : Request}
    (ends : w.request? = some request) : request.status?.isSome := by
  cases request with
  | run o => exact absurd ends (w.request?_ne_run o)
  | _ => rfl

/-! ## Reading in any order -/

/-- **How files and options are interleaved makes no difference.**  Arguments are made up of words.
The first word that ends the reading decides what is asked for and the exit status, whatever is in
front of it and behind it.  Without such a word a run is asked for, with the options as the words
change them; and so it is by arguments that are made up of these words with the files among the
options in another way. -/
theorem arguments_interleaved (arguments : List Bytes) (world : World)
    (environmentTraces : Bool) :
    let words := wordsOf arguments
    words.flatMap Word.arguments = arguments ∧
      (∀ front ending behind request, words = front ++ ending :: behind →
        (∀ w ∈ front, w.request? = none) → ending.request? = some request →
          Request.of arguments = request ∧
            some (world.execute environmentTraces arguments).1 = request.status? ∧
            (world.execute environmentTraces arguments).2.files = world.files) ∧
      ((∀ w ∈ words, w.request? = none) →
        Request.of arguments = .run (Options.default.changedBy words) ∧
          ∀ words', Reordered words words' →
            Request.of (words'.flatMap Word.arguments) =
              .run (Options.default.changedBy words)) := by
  intro words
  have read (arguments : List Bytes) : Request.of arguments =
      ((wordsOf arguments).findSome? Word.request?).getD
        (.run (Options.default.changedBy (wordsOf arguments))) := Request.read_eq .default arguments
  refine ⟨flatMap_wordsOf arguments, ?ends, ?runs⟩
  case ends =>
    intro front ending behind request parts goes ends
    have asked : Request.of arguments = request := by
      rw [read, show wordsOf arguments = _ from parts, List.findSome?_append,
        List.findSome?_eq_none_iff.mpr goes, List.findSome?_cons, ends]
      rfl
    exact ⟨asked, World.execute_status asked (Word.status?_of_request? ends) world
      environmentTraces⟩
  case runs =>
    intro goes
    have run : Request.of arguments = .run (Options.default.changedBy words) := by
      rw [read, List.findSome?_eq_none_iff.mpr goes]
      rfl
    refine ⟨run, ?_⟩
    intro words' reordered
    have inside {w : Word} (inside' : w ∈ words') : w ∈ words :=
      reordered.perm.mem_iff.mp inside'
    have whole : ∀ w ∈ words, w.IsWhole := fun w here => isWhole_of_mem here (goes w here)
    have goes' : words'.findSome? Word.request? = none :=
      List.findSome?_eq_none_iff.mpr fun w inside' => goes w (inside inside')
    rw [read, wordsOf_flatMap fun w inside' => whole w (inside inside'), goes',
      Options.changedBy_reordered reordered whole]
    rfl

/-- A help option is an operand and no request for help.  All files may be named first, but the
paths for JSON stay where they are.  An unknown option in front of a request for the version is an
error, with an operand in front of it that looks like one. -/
theorem arguments_interleaved_operands :
    let arguments := ["a", "--json", "--help", "--no-tree", "", "--json", "-", "--tree", "b",
      "--no-json"].map ascii
    let filesFirst := ["a", "", "b", "--json", "--help", "--no-tree", "--json", "-", "--tree",
      "--no-json"].map ascii
    let refused := ["a", "--json", "-h", "-x", "--version", "--json"].map ascii
    let world : World := ⟨.ofFiles [], [], []⟩
    let o : Options :=
      ⟨["a", "", "b"].map ascii, true, true, false, ascii "-", .pretty, false⟩
    Request.of arguments = .run o ∧ Request.of filesFirst = .run o ∧
      Request.of refused = .unknownOption (ascii "-x") ∧ (world.execute false refused).1 = 1 := by
  intro arguments filesFirst refused world o
  obtain ⟨_, _, runs⟩ := arguments_interleaved arguments world false
  obtain ⟨run, reorder⟩ := runs (by decide +kernel)
  have options : Options.default.changedBy (wordsOf arguments) = o := by decide +kernel
  have reordered : Reordered (wordsOf arguments) (wordsOf filesFirst) :=
    ⟨by decide +kernel, by decide +kernel⟩
  have other := reorder _ reordered
  rw [flatMap_wordsOf, options] at other
  obtain ⟨_, ends, _⟩ := arguments_interleaved refused world false
  obtain ⟨asked, status, _⟩ := ends [⟨ascii "a", none⟩, ⟨ascii "--json", some (ascii "-h")⟩]
    ⟨ascii "-x", none⟩ [⟨ascii "--version", none⟩, ⟨ascii "--json", none⟩]
    (.unknownOption (ascii "-x")) (by decide +kernel) (by decide +kernel) (by decide +kernel)
  exact ⟨options ▸ run, other, asked, Option.some.inj status⟩

end BlockSyntax.CommandLine
