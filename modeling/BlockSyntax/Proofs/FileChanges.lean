import BlockSyntax.Source.Files
import Mathlib.Data.List.Basic

/-!
# What storing a text changes

A path leads to a place when there is a file or could be one (`FileSystem.place?`), and a text
can be stored at exactly these paths.  The directory of a place exists, and so a text that is
stored there makes no directory and removes none.  After it every path leads where it did,
the places of all other paths hold what they held, and the place itself holds the text
(`FileSystem.locate_set`).

Hence whether a text can be stored at a path is not changed by storing texts, and of several
texts that are stored at one path the last alone is there (`FileSystem.set_set`).
-/

set_option autoImplicit false

namespace BlockSyntax.FileSystem

variable {fs : FileSystem} {names there : List Bytes} {text : Bytes}

/-! ## Files by their names -/

theorem lookup_map_replace (files : List (List Bytes × Content)) (content : Content) :
    (files.map fun (path, old) => (path, if path = names then content else old)).lookup there =
      (files.lookup there).map fun old => if there = names then content else old := by
  induction files with
  | nil => rfl
  | cons entry files ih =>
      obtain ⟨path, old⟩ := entry
      rw [List.map_cons, List.lookup_cons, List.lookup_cons]
      split
      · rename_i same
        rw [eq_of_beq same]
        rfl
      · exact ih

theorem files_set_of_old (text : Bytes) (old : (fs.file? names).isSome) :
    (fs.set names text).files =
      fs.files.map fun (path, content) => (path, if path = names then .bytes text else content) :=
  if_pos old

theorem files_set_of_new (text : Bytes) (new : ¬ (fs.file? names).isSome) :
    (fs.set names text).files = fs.files ++ [(names, .bytes text)] :=
  if_neg new

/-- The names that a text is stored at hold it, and all others hold what they held. -/
theorem file?_set (fs : FileSystem) (names : List Bytes) (text : Bytes) (there : List Bytes) :
    (fs.set names text).file? there =
      if there = names then some (.bytes text) else fs.file? there := by
  by_cases old : (fs.file? names).isSome
  · rw [file?, files_set_of_old text old, lookup_map_replace]
    obtain ⟨content, found⟩ := Option.isSome_iff_exists.mp old
    split
    · rename_i here
      subst here
      rw [file?] at found
      rw [found]
      rfl
    · exact Option.map_id'
  · rw [file?, files_set_of_new text old, List.lookup_append]
    by_cases here : there = names
    · subst here
      have none : fs.files.lookup there = none := Option.not_isSome_iff_eq_none.mp old
      rw [if_pos rfl, none, List.lookup_cons_self]
      rfl
    · rw [if_neg here, List.lookup_cons, beq_false_of_ne here]
      exact Option.or_none

/-- The second of two texts at the same names replaces the first. -/
theorem set_set (fs : FileSystem) (names : List Bytes) (text text' : Bytes) :
    (fs.set names text).set names text' = fs.set names text' := by
  have old : ((fs.set names text).file? names).isSome := by
    rw [file?_set, if_pos rfl]
    rfl
  refine congrArg (FileSystem.mk fs.working fs.directories) ?_
  change ((fs.set names text).set names text').files = (fs.set names text').files
  rw [files_set_of_old text' old]
  by_cases before : (fs.file? names).isSome
  · rw [files_set_of_old text before, files_set_of_old text' before, List.map_map]
    refine List.map_congr_left fun entry _ => ?_
    dsimp only [Function.comp]
    split <;> rfl
  · have absent : ∀ entry ∈ fs.files, entry.1 ≠ names := by
      intro entry inside same
      have none : fs.files.lookup names = none := Option.not_isSome_iff_eq_none.mp before
      have differ := List.lookup_eq_none_iff.mp none entry inside
      rw [same, bne_self_eq_false] at differ
      cases differ
    rw [files_set_of_new text before, files_set_of_new text' before, List.map_append,
      List.map_singleton]
    dsimp only
    rw [if_pos rfl]
    congr 1
    refine (List.map_congr_left fun entry inside => ?_).trans (List.map_id _)
    rw [if_neg (absent entry inside)]
    rfl

/-! ## Directories -/

theorem isDirectory_iff : fs.isDirectory names ↔
    (∃ directory ∈ fs.working :: fs.directories, names <+: directory) ∨
      ∃ entry ∈ fs.files, names <+: entry.1 ∧ names ≠ entry.1 := by
  simp [isDirectory]

/-- What a directory is in is a directory. -/
theorem isDirectory_mono (directory : fs.isDirectory names) (above : there <+: names) :
    fs.isDirectory there := by
  rw [isDirectory_iff] at directory ⊢
  rcases directory with ⟨known, inside, below⟩ | ⟨entry, inside, below, other⟩
  · exact .inl ⟨known, inside, above.trans below⟩
  · refine .inr ⟨entry, inside, above.trans below, ?_⟩
    rintro rfl
    exact other (below.eq_of_length_le above.length_le)

/-- A path starts in a directory. -/
theorem isDirectory_origin (fs : FileSystem) (path : Bytes) : fs.isDirectory (fs.origin path) := by
  have working : fs.isDirectory fs.working :=
    isDirectory_iff.mpr (.inl ⟨fs.working, List.mem_cons_self, List.prefix_rfl⟩)
  rw [origin]
  split
  · exact isDirectory_mono working List.nil_prefix
  · exact working

theorem prefix_dropLast {α : Type} {as bs : List α} (before : as <+: bs) (other : as ≠ bs) :
    as <+: bs.dropLast := by
  have shorter : as.length < bs.length :=
    Nat.lt_of_le_of_ne before.length_le fun same => other (before.eq_of_length same)
  apply List.prefix_of_prefix_length_le before (List.dropLast_prefix bs)
  rw [List.length_dropLast]
  exact Nat.le_sub_one_of_lt shorter

/-- **A text stored in a directory leaves the directories as they are.** -/
theorem isDirectory_set (parent : fs.isDirectory names.dropLast) (text : Bytes) :
    (fs.set names text).isDirectory = fs.isDirectory := by
  funext there
  by_cases old : (fs.file? names).isSome
  · rw [isDirectory, isDirectory, files_set_of_old text old, List.any_map]
    rfl
  · rw [Bool.eq_iff_iff]
    constructor
    · intro directory
      rcases isDirectory_iff.mp directory with known | ⟨entry, inside, below, other⟩
      · exact isDirectory_iff.mpr (.inl known)
      · rw [files_set_of_new text old] at inside
        rcases List.mem_append.mp inside with before | new
        · exact isDirectory_iff.mpr (.inr ⟨entry, before, below, other⟩)
        · obtain rfl := List.mem_singleton.mp new
          exact isDirectory_mono parent (prefix_dropLast below other)
    · intro directory
      rcases isDirectory_iff.mp directory with known | ⟨entry, inside, below⟩
      · exact isDirectory_iff.mpr (.inl known)
      · refine isDirectory_iff.mpr (.inr ⟨entry, ?_, below⟩)
        rw [files_set_of_new text old]
        exact List.mem_append_left _ inside

/-! ## Places -/

/-- The names of the file that a target is or could be. -/
def Target.place? : Target → Option (List Bytes)
  | file names _ | vacant names => some names
  | directory | nowhere => none

/-- The place that a path leads to. -/
def place? (fs : FileSystem) (path : Bytes) : Option (List Bytes) := (fs.locate path).place?

/-- A target after a text was stored at the given names. -/
def Target.stored (names : List Bytes) (text : Bytes) : Target → Target
  | file there content => .file there (if there = names then .bytes text else content)
  | vacant there => if there = names then .file there (.bytes text) else .vacant there
  | directory => .directory
  | nowhere => .nowhere

theorem Target.place?_stored (t : Target) : (t.stored names text).place? = t.place? := by
  cases t with
  | vacant there =>
      rw [stored]
      split <;> rfl
  | file | directory | nowhere => rfl

theorem Target.stored_of_ne {t : Target} (other : t.place? ≠ some names) :
    t.stored names text = t := by
  cases t with
  | file there content =>
      have differ : there ≠ names := fun same => other (congrArg some same)
      rw [stored, if_neg differ]
  | vacant there =>
      have differ : there ≠ names := fun same => other (congrArg some same)
      rw [stored, if_neg differ]
  | directory | nowhere => rfl

theorem Target.stored_place {t : Target} (here : t.place? = some names) :
    t.stored names text = .file names (.bytes text) := by
  cases t with
  | file there content | vacant there =>
      obtain rfl := Option.some.inj here
      rw [stored, if_pos rfl]
  | directory | nowhere => cases here

/-- A file that is found is the one that its names lead to. -/
theorem follow_file {here cs : List Bytes} {content : Content}
    (found : fs.follow here cs = .file names content) : fs.file? names = some content := by
  fun_induction follow fs here cs with
  | case1 | case4 | case7 | case8 => cases found
  | case2 here c cs _ ih | case3 here cs _ ih | case5 here c cs _ _ _ _ ih => exact ih found
  | case6 here c cs _ _ _ _ _ old there =>
      obtain ⟨rfl, rfl⟩ := Target.file.inj found
      exact there

theorem locate_file {path : Bytes} {content : Content}
    (found : fs.locate path = .file names content) : fs.file? names = some content := by
  rw [locate] at found
  split at found
  · cases found
  · exact follow_file found

/-- The directory of a place that is found from a directory is a directory. -/
theorem follow_parent {here cs : List Bytes} (directory : fs.isDirectory here)
    (found : (fs.follow here cs).place? = some names) : fs.isDirectory names.dropLast := by
  fun_induction follow fs here cs with
  | case1 => cases found
  | case2 here c cs _ ih => exact ih directory found
  | case3 here cs _ ih => exact ih (isDirectory_mono directory (List.dropLast_prefix _)) found
  | case4 => cases found
  | case5 here c cs _ _ _ further ih => exact ih further found
  | case6 | case7 =>
      obtain rfl := Option.some.inj found
      rwa [List.dropLast_concat]
  | case8 => cases found

/-- The directory of a place exists. -/
theorem place?_parent {path : Bytes} (found : fs.place? path = some names) :
    fs.isDirectory names.dropLast := by
  rw [place?, locate] at found
  split at found
  · cases found
  · exact follow_parent (isDirectory_origin fs _) found

theorem follow_set (parent : fs.isDirectory names.dropLast) (text : Bytes)
    (here cs : List Bytes) :
    (fs.set names text).follow here cs = (fs.follow here cs).stored names text := by
  have directories := isDirectory_set parent text
  induction cs generalizing here with
  | nil => rfl
  | cons c cs ih =>
      rw [follow, follow, directories, file?_set]
      split
      · exact ih here
      split
      · exact ih _
      split
      · rfl
      split
      · exact ih _
      split
      · by_cases same : here ++ [c] = names
        · rw [if_pos same, same]
          cases fs.file? names <;> exact (Target.stored_place rfl).symm
        · have other : some (here ++ [c]) ≠ some names := fun equal => same (Option.some.inj equal)
          rw [if_neg same]
          cases fs.file? (here ++ [c]) with
          | none => exact (Target.stored_of_ne (t := .vacant _) other).symm
          | some content => exact (Target.stored_of_ne (t := .file _ content) other).symm
      · rfl

/-- **Where paths lead after a text was stored.** -/
theorem locate_set (parent : fs.isDirectory names.dropLast) (text path : Bytes) :
    (fs.set names text).locate path = (fs.locate path).stored names text := by
  rw [locate, locate]
  split
  · rfl
  · exact follow_set parent text _ _

theorem place?_set (parent : fs.isDirectory names.dropLast) (text path : Bytes) :
    (fs.set names text).place? path = fs.place? path := by
  rw [place?, locate_set parent, Target.place?_stored, place?]

/-- A change is at names that lead to something else than they did. -/
theorem of_mem_changesSince {now before : FileSystem} {change : Bytes × Bytes}
    (changed : change ∈ now.changesSince before) :
    ∃ names content, change = (Path.join (names.drop now.working.length), content.text) ∧
      now.file? names = some content ∧ before.file? names ≠ now.file? names := by
  obtain ⟨⟨names, _⟩, _, shown⟩ := List.mem_filterMap.mp changed
  dsimp only at shown
  split at shown
  · cases shown
  · cases shown
  · rename_i content there _
    split at shown
    · cases shown
    · rename_i differs
      refine ⟨names, content, (Option.some.inj shown).symm, there, ?_⟩
      intro same
      rw [same, there] at differs
      simp at differs

/-- A text is stored at the place that the path leads to. -/
theorem store_eq (fs : FileSystem) (path text : Bytes) :
    fs.store path text = (fs.place? path).map (fs.set · text) := by
  rw [store, place?]
  cases fs.locate path <;> rfl

end BlockSyntax.FileSystem
