import BlockSyntax.Source.Registry

/-!
# Numbers for files

A registry that started empty gives out the numbers from one on, each once, and the number of
a path is its place in the order of registration (`Registry.Consecutive`).  So the number that
a path was given leads back to it, in normal form, and goes on doing so whatever is registered
later (`Registry.Holds`).  As long as there is a number left every path is given one.
-/

set_option autoImplicit false

namespace BlockSyntax

namespace Registry

variable {r : Registry}

/-- The files of a registry have the numbers from one on. -/
structure Consecutive (r : Registry) : Prop where
  /-- The next number is the one behind the last. -/
  counter : r.counter.toNat = r.count + 1
  /-- All numbers fit a word. -/
  fits : r.count < UInt32.size
  /-- The number of a file is its place. -/
  place : ∀ i normal id, r.entries[i]? = some (normal, id) → id.toNat = i + 1

/-- A path in normal form is registered under the number. -/
def Holds (r : Registry) (normal : Bytes) (id : FileId) : Prop :=
  ∃ i, r.entries[i]? = some (normal, id) ∧ id.toNat = i + 1

/-- A number in use leads to its path. -/
theorem Holds.path_eq {normal : Bytes} {id : FileId} (holds : r.Holds normal id) :
    id ≠ 0 ∧ r.path id = normal := by
  obtain ⟨i, entry, place⟩ := holds
  have used : id ≠ 0 := by
    rintro rfl
    exact absurd place (Nat.succ_ne_zero i).symm
  refine ⟨used, ?_⟩
  rw [path, if_neg used, place, Nat.add_sub_cancel, entry]
  rfl

/-- A path that is found is stored with its number. -/
theorem exists_entry {normal : Bytes} {id : FileId} (found : r.find? normal = some id) :
    ∃ i : Nat, r.entries[i]? = some (normal, id) := by
  obtain ⟨front, behind, parts, _⟩ := List.lookup_eq_some_iff.mp found
  refine ⟨front.length, ?_⟩
  rw [parts, List.getElem?_append_right (Nat.le_refl _), Nat.sub_self]
  rfl

/-- What registering a path does: it is found, or it is refused, or it is stored. -/
theorem add_cases (r : Registry) (path : Bytes) :
    (∃ id, r.find? (Path.normal path) = some id ∧ r.add path = ⟨id, r, []⟩) ∨
    (r.find? (Path.normal path) = none ∧
      ((r.isExhausted ∧ (r.add path).id = 0 ∧ (r.add path).registry = r) ∨
      (¬ r.isExhausted ∧ r.add path = ⟨r.counter.toUInt32,
        ⟨r.entries ++ [(Path.normal path, r.counter.toUInt32)], r.counter + 1⟩, []⟩))) := by
  cases found : r.find? (Path.normal path) with
  | some id => exact .inl ⟨id, rfl, by simp only [add, found]⟩
  | none =>
      refine .inr ⟨rfl, ?_⟩
      by_cases full : r.isExhausted
      · exact .inl ⟨full, by simp only [add, found, full, if_true],
          by simp only [add, found, full, if_true]⟩
      · exact .inr ⟨full, by simp only [add, found, full]; rfl⟩

theorem not_isExhausted_iff : ¬ r.isExhausted ↔ r.counter.toNat < UInt32.size := by
  rw [isExhausted, decide_eq_true_iff, UInt64.lt_iff_toNat_lt]
  show ¬ 4294967295 < r.counter.toNat ↔ r.counter.toNat < 4294967296
  omega

/-- A number that fits a word is its low half. -/
theorem word_toNat {n : UInt64} (small : n.toNat < UInt32.size) : n.toUInt32.toNat = n.toNat := by
  rw [UInt64.toNat_toUInt32]
  exact Nat.mod_eq_of_lt small

/-- The counter is far from running over while a number is left. -/
theorem counter_succ_toNat (room : ¬ r.isExhausted) :
    (r.counter + 1).toNat = r.counter.toNat + 1 := by
  have words : UInt32.size < UInt64.size := by decide
  rw [UInt64.toNat_add]
  exact Nat.mod_eq_of_lt (Nat.lt_of_le_of_lt (not_isExhausted_iff.mp room) words)

theorem empty_consecutive : empty.Consecutive := ⟨rfl, by decide, by simp [empty]⟩

theorem Consecutive.add (consecutive : r.Consecutive) (path : Bytes) :
    (r.add path).registry.Consecutive := by
  rcases r.add_cases path with ⟨id, _, same⟩ | ⟨_, ⟨_, _, same⟩ | ⟨room, same⟩⟩
  · rw [same]
    exact consecutive
  · rw [same]
    exact consecutive
  · rw [same]
    have small := not_isExhausted_iff.mp room
    have counter := counter_succ_toNat room
    have size : (r.entries ++ [(Path.normal path, r.counter.toUInt32)]).length = r.count + 1 :=
      List.length_append
    have last := consecutive.counter
    constructor
    case counter =>
      rw [count, size]
      show (r.counter + 1).toNat = _
      omega
    case fits =>
      rw [count, size]
      omega
    case place =>
      intro i normal id entry
      rcases Nat.lt_or_ge i r.entries.length with before | behind
      · rw [List.getElem?_append_left before] at entry
        exact consecutive.place i normal id entry
      · have here : i = r.entries.length := by
          have within := (List.getElem?_eq_some_iff.mp entry).1
          rw [size] at within
          exact Nat.le_antisymm (Nat.le_of_lt_succ within) behind
        rw [List.getElem?_append_right behind, here, Nat.sub_self] at entry
        obtain ⟨_, rfl⟩ := Prod.mk.inj (Option.some.inj entry)
        rw [here, word_toNat small, last]
        rfl

theorem Holds.add {normal : Bytes} {id : FileId} (holds : r.Holds normal id) (path : Bytes) :
    (r.add path).registry.Holds normal id := by
  rcases r.add_cases path with ⟨_, _, same⟩ | ⟨_, ⟨_, _, same⟩ | ⟨_, same⟩⟩
  · rw [same]
    exact holds
  · rw [same]
    exact holds
  · obtain ⟨i, entry, place⟩ := holds
    rw [same]
    refine ⟨i, ?_, place⟩
    rw [List.getElem?_append_left (List.getElem?_eq_some_iff.mp entry).1]
    exact entry

/-- **A path that is registered while there is a number left is given one that leads to it.** -/
theorem Consecutive.add_holds (consecutive : r.Consecutive) (room : ¬ r.isExhausted)
    (path : Bytes) :
    (r.add path).registry.Holds (Path.normal path) (r.add path).id ∧
      (r.add path).complaint = [] := by
  rcases r.add_cases path with ⟨id, found, same⟩ | ⟨_, ⟨full, _⟩ | ⟨_, same⟩⟩
  · obtain ⟨i, entry⟩ := exists_entry found
    rw [same]
    exact ⟨⟨i, entry, consecutive.place _ _ _ entry⟩, rfl⟩
  · exact absurd full room
  · rw [same]
    refine ⟨⟨r.entries.length, ?_, ?_⟩, rfl⟩
    · rw [List.getElem?_append_right (Nat.le_refl _), Nat.sub_self]
      rfl
    · exact (word_toNat (not_isExhausted_iff.mp room)).trans consecutive.counter

end Registry

end BlockSyntax
