import BlockSyntax.Proofs.NormalPaths
import BlockSyntax.Proofs.Registration
import Mathlib.Data.List.Induction
import Mathlib.Data.List.Nodup

/-!
# The history of a registry

A registry that paths are added to one after the other remembers the different normal forms
among them in the order in which they came first, as many of them as there are numbers
(`Registry.Remembers`).  One addition appends a normal form that is new, or finds one that is
not, or refuses a new one because all numbers are given out; the rest follows by induction over
the paths.

So the number of a path is the place of its normal form in this list, the path of a number is
the normal form at that place, and neither is ever changed by what is added later
(`registry_history`).  A path that was read back from the registry is in normal form already,
and adding it again finds it.
-/

set_option autoImplicit false

namespace BlockSyntax

/-! ## The first of equal elements -/

section EraseDups

variable {α : Type} [BEq α] [LawfulBEq α]

theorem eraseDups_concat_of_mem {as : List α} {a : α} (before : a ∈ as) :
    (as ++ [a]).eraseDups = as.eraseDups := by
  rw [List.eraseDups_append]
  simp [List.removeAll, before]

theorem eraseDups_concat_of_not_mem {as : List α} {a : α} (new : a ∉ as) :
    (as ++ [a]).eraseDups = as.eraseDups ++ [a] := by
  have alone : [a].removeAll as = [a] := by simp [List.removeAll, new]
  rw [List.eraseDups_append, alone]
  rfl

theorem nodup_eraseDups (as : List α) : as.eraseDups.Nodup := by
  induction as using List.reverseRecOn with
  | nil => exact .nil
  | append_singleton as a ih =>
      by_cases before : a ∈ as
      · rwa [eraseDups_concat_of_mem before]
      · rw [eraseDups_concat_of_not_mem before, ← List.concat_eq_append]
        exact ih.concat (mt List.mem_eraseDups.mp before)

end EraseDups

namespace Registry

/-! ## What a registry remembers -/

/-- The greatest number of a file. -/
def greatestId : Nat := UInt32.size - 1

/-- The different normal forms of the paths in the order in which they come first, as many as
there are numbers. -/
def known (paths : List Bytes) : List Bytes :=
  (paths.map Path.normal).eraseDups.take greatestId

/-- The stored paths in the order of registration. -/
def stored (r : Registry) : List Bytes := r.entries.map (·.1)

variable {r : Registry}

theorem length_stored (r : Registry) : r.stored.length = r.count := List.length_map _

theorem stored_of_entry {i : Nat} {normal : Bytes} {id : FileId}
    (entry : r.entries[i]? = some (normal, id)) : r.stored[i]? = some normal := by
  rw [stored, List.getElem?_map, entry]
  rfl

theorem find?_eq_none_iff {normal : Bytes} : r.find? normal = none ↔ normal ∉ r.stored := by
  rw [find?, List.lookup_eq_none_iff, stored, List.mem_map]
  constructor
  · rintro other ⟨entry, inside, rfl⟩
    simpa using other entry inside
  · intro other entry inside
    exact bne_iff_ne.mpr fun same => other ⟨entry, inside, same.symm⟩

theorem path_eq {k : FileId} (used : k ≠ 0) :
    r.path k = (r.stored[k.toNat - 1]?).getD [] := by
  rw [path, if_neg used, stored, List.getElem?_map]

/-- The path of a number in use is stored at its place. -/
theorem stored_path {k : FileId} (used : 1 ≤ k.toNat) (within : k.toNat ≤ r.count) :
    r.stored[k.toNat - 1]? = some (r.path k) := by
  have nonzero : k ≠ 0 := by
    rintro rfl
    exact absurd used (by decide)
  have inside : k.toNat - 1 < r.stored.length := by
    rw [length_stored]
    omega
  rw [path_eq nonzero, List.getElem?_eq_getElem inside, Option.getD_some]

/-- The registry has the normal forms that came first among the given ones. -/
structure Remembers (normals : List Bytes) (r : Registry) : Prop where
  /-- Its files have the numbers from one on. -/
  consecutive : r.Consecutive
  /-- It stores as many as there are numbers. -/
  stores : r.stored = normals.eraseDups.take greatestId

section Remembers

variable {normals : List Bytes}

theorem Remembers.nodup (remembers : Remembers normals r) : r.stored.Nodup := by
  rw [remembers.stores]
  exact (nodup_eraseDups normals).sublist (List.take_sublist _ _)

theorem Consecutive.isExhausted_iff (consecutive : r.Consecutive) :
    r.isExhausted ↔ ¬ r.count < greatestId := by
  rw [← not_iff_not, not_not, not_isExhausted_iff, consecutive.counter]
  show r.count + 1 < 4294967296 ↔ r.count < 4294967295
  omega

/-- **One addition** remembers the normal form of the path. -/
theorem Remembers.add (remembers : Remembers normals r) (path : Bytes) :
    Remembers (normals ++ [Path.normal path]) (r.add path).registry := by
  refine ⟨remembers.consecutive.add path, ?_⟩
  have size := congrArg List.length remembers.stores
  rw [length_stored, List.length_take] at size
  rcases r.add_cases path with ⟨id, found, same⟩ | ⟨missing, ⟨full, _, same⟩ | ⟨room, same⟩⟩
  · -- the path is found, so its normal form came before
    have inside : Path.normal path ∈ r.stored := by
      by_contra missing
      rw [find?_eq_none_iff.mpr missing] at found
      cases found
    rw [remembers.stores] at inside
    rw [same, eraseDups_concat_of_mem (List.mem_eraseDups.mp (List.mem_of_mem_take inside))]
    exact remembers.stores
  · -- all numbers are given out, so nothing behind the list is taken
    rw [remembers.consecutive.isExhausted_iff] at full
    rw [same, remembers.stores, List.eraseDups_append, List.take_append_of_le_length]
    omega
  · -- the path is stored
    have room' : r.count < greatestId := by
      rwa [remembers.consecutive.isExhausted_iff, not_not] at room
    have all : r.stored = normals.eraseDups := by
      rw [remembers.stores, List.take_of_length_le]
      omega
    have new : Path.normal path ∉ normals := by
      rw [← List.mem_eraseDups, ← all, ← find?_eq_none_iff]
      exact missing
    have shorter : (r.stored ++ [Path.normal path]).length ≤ greatestId := by
      rw [List.length_append, length_stored]
      exact room'
    rw [same, eraseDups_concat_of_not_mem new, ← all, List.take_of_length_le shorter]
    exact List.map_append

theorem remembers_addAll (paths : List Bytes) :
    Remembers (paths.map Path.normal) (empty.addAll paths) := by
  induction paths using List.reverseRecOn with
  | nil => exact ⟨empty_consecutive, rfl⟩
  | append_singleton paths path ih =>
      rw [addAll, List.foldl_append, List.map_append]
      exact ih.add path

end Remembers

/-! ## What a registry answers -/

/-- The registry has stored the given normal forms in their order, and answers by them. -/
structure Lists (known : List Bytes) (r : Registry) : Prop where
  /-- They are different from each other. -/
  distinct : known.Nodup
  /-- They are all that is stored. -/
  count : r.count = known.length
  /-- The path of a number in use is the one at its place. -/
  path : ∀ k : FileId, 1 ≤ k.toNat → k.toNat ≤ r.count → known[k.toNat - 1]? = some (r.path k)
  /-- The path of every other number is empty. -/
  unused : ∀ k : FileId, k = 0 ∨ r.count < k.toNat → r.path k = []
  /-- A path that is listed gets the number of its place, and nothing is stored. -/
  listed : ∀ path i, known[i]? = some (Path.normal path) →
    (r.add path).id.toNat = i + 1 ∧ (r.add path).registry = r
  /-- A path that is not listed gets the next number as long as there is one, ... -/
  next : ∀ path, Path.normal path ∉ known → r.count < greatestId →
    (r.add path).id.toNat = r.count + 1 ∧
      (r.add path).registry.stored = known ++ [Path.normal path]
  /-- ... and then it is refused, and the registry stays as it is. -/
  refused : ∀ path, Path.normal path ∉ known → greatestId ≤ r.count →
    (r.add path).id = 0 ∧ (r.add path).registry = r
  /-- A path that is read back from the registry gets its number again. -/
  again : ∀ k : FileId, 1 ≤ k.toNat → k.toNat ≤ r.count → (r.add (r.path k)).id = k

section Answers

variable {normals : List Bytes}

/-- What is added depends on the normal form of the path alone. -/
theorem add_congr {path path' : Bytes} (same : Path.normal path' = Path.normal path) :
    r.add path' = r.add path := by
  unfold add
  rw [same]

/-- A path that is stored has a number. -/
theorem exists_entry_of_stored {i : Nat} {normal : Bytes} (place : r.stored[i]? = some normal) :
    ∃ id, r.entries[i]? = some (normal, id) := by
  rw [stored, List.getElem?_map] at place
  obtain ⟨⟨_, id⟩, entry, rfl⟩ := Option.map_eq_some_iff.mp place
  exact ⟨id, entry⟩

/-- A path that is stored is found at its place. -/
theorem Remembers.add_listed (remembers : Remembers normals r) {path : Bytes} {i : Nat}
    (place : r.stored[i]? = some (Path.normal path)) :
    (r.add path).id.toNat = i + 1 ∧ (r.add path).registry = r := by
  rcases r.add_cases path with ⟨id, found, same⟩ | ⟨missing, _⟩
  · obtain ⟨j, entry⟩ := exists_entry found
    have place' := stored_of_entry entry
    have within : j < r.stored.length := (List.getElem?_eq_some_iff.mp place').1
    have here : j = i := (List.getElem?_inj within remembers.nodup).mp (place'.trans place.symm)
    rw [same, ← here]
    exact ⟨remembers.consecutive.place _ _ _ entry, rfl⟩
  · exact absurd (List.mem_of_getElem? place) (find?_eq_none_iff.mp missing)

theorem Remembers.add_next (remembers : Remembers normals r) {path : Bytes}
    (new : Path.normal path ∉ r.stored) (room : r.count < greatestId) :
    (r.add path).id.toNat = r.count + 1 ∧
      (r.add path).registry.stored = r.stored ++ [Path.normal path] := by
  rcases r.add_cases path with ⟨id, found, _⟩ | ⟨_, ⟨full, _⟩ | ⟨room', same⟩⟩
  · rw [find?_eq_none_iff.mpr new] at found
    cases found
  · exact absurd room (remembers.consecutive.isExhausted_iff.mp full)
  · rw [same]
    exact ⟨(word_toNat (not_isExhausted_iff.mp room')).trans remembers.consecutive.counter,
      List.map_append⟩

theorem Remembers.add_refused (remembers : Remembers normals r) {path : Bytes}
    (new : Path.normal path ∉ r.stored) (full : greatestId ≤ r.count) :
    (r.add path).id = 0 ∧ (r.add path).registry = r := by
  rcases r.add_cases path with ⟨id, found, _⟩ | ⟨_, ⟨_, refused⟩ | ⟨room, _⟩⟩
  · rw [find?_eq_none_iff.mpr new] at found
    cases found
  · exact refused
  · exact absurd (remembers.consecutive.isExhausted_iff.mpr (Nat.not_lt.mpr full)) room

/-- **A registry answers by the normal forms that it remembers.** -/
theorem Remembers.lists (remembers : Remembers normals r)
    (normal : ∀ n ∈ normals, Path.normal n = n) : r.Lists (normals.eraseDups.take greatestId) := by
  rw [← remembers.stores]
  constructor
  case distinct => exact remembers.nodup
  case count => exact r.length_stored.symm
  case path => exact fun _ => stored_path
  case unused =>
    intro k unused
    by_cases zero : k = 0
    · rw [Registry.path, if_pos zero]
    · have behind : r.stored.length ≤ k.toNat - 1 := by
        have := unused.resolve_left zero
        rw [length_stored]
        omega
      rw [path_eq zero, List.getElem?_eq_none behind, Option.getD_none]
  case listed => exact fun _ _ place => remembers.add_listed place
  case next => exact fun _ new room => remembers.add_next new room
  case refused => exact fun _ new full => remembers.add_refused new full
  case again =>
    intro k used within
    have place := stored_path used within
    have inside : r.path k ∈ normals := by
      have stored := List.mem_of_getElem? place
      rw [remembers.stores] at stored
      exact List.mem_eraseDups.mp (List.mem_of_mem_take stored)
    rw [← normal _ inside] at place
    have number := (remembers.add_listed place).1
    exact UInt32.toNat_inj.mp (by omega)

end Answers

/-! ## Later additions -/

section Later

variable {normals : List Bytes}

theorem Remembers.addAll (remembers : Remembers normals r) (paths : List Bytes) :
    Remembers (normals ++ paths.map Path.normal) (r.addAll paths) := by
  induction paths generalizing r normals with
  | nil => simpa using remembers
  | cons path paths ih => simpa using ih (remembers.add path)

theorem Holds.addAll {normal : Bytes} {id : FileId} (holds : r.Holds normal id)
    (paths : List Bytes) : (r.addAll paths).Holds normal id := by
  induction paths generalizing r with
  | nil => exact holds
  | cons path paths ih => exact ih (holds.add path)

/-- Once all numbers are given out nothing is stored any more. -/
theorem addAll_of_isExhausted (full : r.isExhausted) (paths : List Bytes) :
    r.addAll paths = r := by
  induction paths with
  | nil => rfl
  | cons path paths ih =>
      have same : (r.add path).registry = r := by
        rcases r.add_cases path with ⟨id, _, same⟩ | ⟨_, ⟨_, _, same⟩ | ⟨room, _⟩⟩
        · rw [same]
        · exact same
        · exact absurd full room
      rw [addAll_cons, same, ih]

/-- A path is given a number under which it is stored, or it is refused. -/
theorem Consecutive.add_holds_or_refused (consecutive : r.Consecutive) (path : Bytes) :
    ((r.add path).id ≠ 0 ∧ (r.add path).registry.Holds (Path.normal path) (r.add path).id) ∨
      (r.isExhausted ∧ (r.add path).id = 0 ∧ (r.add path).registry = r) := by
  have used : ∀ {r' : Registry} {normal : Bytes} {id : FileId}, r'.Holds normal id →
      id ≠ 0 ∧ r'.Holds normal id := fun holds => ⟨holds.path_eq.1, holds⟩
  rcases r.add_cases path with ⟨id, found, same⟩ | ⟨_, refused | ⟨room, _⟩⟩
  · obtain ⟨i, entry⟩ := exists_entry found
    rw [same]
    exact .inl (used ⟨i, entry, consecutive.place _ _ _ entry⟩)
  · exact .inr refused
  · exact .inl (used (consecutive.add_holds room path).1)

/-- A number in use is that of its path. -/
theorem Consecutive.holds_path (consecutive : r.Consecutive) {k : FileId} (used : 1 ≤ k.toNat)
    (within : k.toNat ≤ r.count) : r.Holds (r.path k) k := by
  obtain ⟨id, entry⟩ := exists_entry_of_stored (stored_path used within)
  have place := consecutive.place _ _ _ entry
  have same : id = k := UInt32.toNat_inj.mp (by omega)
  exact ⟨k.toNat - 1, same ▸ entry, same ▸ place⟩

/-- A path that is stored under a number is given this number again. -/
theorem Remembers.add_id (remembers : Remembers normals r) {path : Bytes} {id : FileId}
    (holds : r.Holds (Path.normal path) id) : (r.add path).id = id := by
  obtain ⟨i, entry, place⟩ := holds
  have number := (remembers.add_listed (stored_of_entry entry)).1
  exact UInt32.toNat_inj.mp (number.trans place.symm)

/-- A path with the same normal form is given the same number later on, and is refused later on
if the first one was. -/
theorem Remembers.add_again (remembers : Remembers normals r) {path path' : Bytes}
    (same : Path.normal path' = Path.normal path) (between : List Bytes) :
    (((r.add path).registry.addAll between).add path').id = (r.add path).id := by
  rcases remembers.consecutive.add_holds_or_refused path with ⟨_, holds⟩ | ⟨full, _, unchanged⟩
  · apply ((remembers.add path).addAll between).add_id
    rw [same]
    exact holds.addAll between
  · rw [unchanged, addAll_of_isExhausted full, add_congr same]

/-- A number that is given twice is given for one normal form. -/
theorem Remembers.normal_eq_of_id_eq (remembers : Remembers normals r) {path path' : Bytes}
    {between : List Bytes} (nonzero : (r.add path).id ≠ 0)
    (same : (((r.add path).registry.addAll between).add path').id = (r.add path).id) :
    Path.normal path' = Path.normal path := by
  have remembers' := (remembers.add path).addAll between
  rcases remembers.consecutive.add_holds_or_refused path with ⟨_, holds⟩ | ⟨_, zero, _⟩
  · rcases remembers'.consecutive.add_holds_or_refused path' with ⟨_, holds'⟩ | ⟨_, zero, _⟩
    · rw [same] at holds'
      exact holds'.path_eq.2.symm.trans ((holds.addAll between).add path').path_eq.2
    · exact absurd (same.symm.trans zero) nonzero
  · exact absurd zero nonzero

/-- The path of a number in use stays what it is. -/
theorem Consecutive.path_addAll (consecutive : r.Consecutive) {k : FileId} (used : 1 ≤ k.toNat)
    (within : k.toNat ≤ r.count) (paths : List Bytes) : (r.addAll paths).path k = r.path k :=
  ((consecutive.holds_path used within).addAll paths).path_eq.2

end Later

end Registry

/-- **The history of a registry.**  Whatever was added to an empty registry, it lists the
different normal forms in the order in which they came first, as many as there are numbers, and
answers by this list.  Two additions, with any others before and between them, give paths with
the same normal form the same number, and never give one number to two normal forms; only zero
is given to all that are refused.  The paths of the numbers in use stay what they are. -/
theorem registry_history (before : List Bytes) (path : Bytes) (between : List Bytes)
    (path' : Bytes) :
    let r := Registry.empty.addAll before
    let first := r.add path
    let r' := first.registry.addAll between
    let second := r'.add path'
    r.Lists (Registry.known before) ∧
      (Path.normal path' = Path.normal path → second.id = first.id) ∧
      (second.id = first.id → first.id ≠ 0 → Path.normal path' = Path.normal path) ∧
      ∀ k : FileId, 1 ≤ k.toNat → k.toNat ≤ r.count → r'.path k = r.path k := by
  intro r first r' second
  have remembers : Registry.Remembers (before.map Path.normal) r :=
    Registry.remembers_addAll before
  have normal : ∀ n ∈ before.map Path.normal, Path.normal n = n := by
    intro n inside
    obtain ⟨p, _, rfl⟩ := List.mem_map.mp inside
    exact Path.normal_normal p
  refine ⟨remembers.lists normal, ?same, ?different, ?kept⟩
  case same => exact fun same => remembers.add_again same between
  case different => exact fun same nonzero => remembers.normal_eq_of_id_eq nonzero same
  case kept =>
    intro k used within
    exact remembers.consecutive.path_addAll used within (path :: between)

/-- Three paths with two normal forms; the second of them is added again, in other spellings,
and its number leads to its normal form. -/
theorem registry_history_spellings :
    let before := [ascii "b/../a.bg", ascii "/x//", ascii "./a.bg"]
    let r := Registry.empty.addAll before
    let first := r.add (ascii "/x/.")
    let r' := first.registry.addAll [ascii "c"]
    let second := r'.add (ascii "/y/../x/")
    r.Lists [ascii "a.bg", ascii "/x/"] ∧
      Path.normal (ascii "/y/../x/") = Path.normal (ascii "/x/.") ∧ second.id = first.id ∧
      first.id = 2 ∧ r'.path 2 = ascii "/x/" := by
  intro before r first r' second
  have same : Path.normal (ascii "/y/../x/") = Path.normal (ascii "/x/.") := by decide +kernel
  have listed : Registry.known before = [ascii "a.bg", ascii "/x/"] := by decide +kernel
  obtain ⟨lists, again, _, kept⟩ :=
    registry_history before (ascii "/x/.") [ascii "c"] (ascii "/y/../x/")
  rw [listed] at lists
  have two : (2 : FileId).toNat ≤ r.count := by
    rw [lists.count]
    decide
  have number := (lists.listed (ascii "/x/.") 1 (by decide +kernel)).1
  have place := lists.path 2 (by decide) two
  exact ⟨lists, same, again same, UInt32.toNat_inj.mp number,
    (kept 2 (by decide) two).trans (Option.some.inj place).symm⟩

end BlockSyntax
