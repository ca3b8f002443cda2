import BlockSyntax.Token.Reserved

/-!
# Looking up reserved words

Halving a table finds the place where the entries that come before what is looked for end,
provided that they stand in front of all the others (`firstNotBefore_separates`).  Every
step keeps the invariant of the search, that the entries below the range come before what
is looked for and the entries above it do not.

The table of reserved words is sorted by spelling, so the search is exact: a word is found
with a kind if and only if the table has an entry of that word and kind
(`Reserved.kind?_eq_some_iff`).  No word has two entries, so this is what going through the whole
table finds.
-/

set_option autoImplicit false

namespace BlockSyntax

/-! ## Searching a sorted table -/

/-- The entries below `i` come before what is looked for, and those from `j` on do not. -/
structure Separates {α : Type} (before : α → Bool) (table : Array α) (i j : Nat) : Prop where
  /-- What is below the range comes before. -/
  below : ∀ k (inside : k < table.size), k < i → before table[k]
  /-- What is above the range does not. -/
  above : ∀ k (inside : k < table.size), j ≤ k → ¬ before table[k]

/-- **The search finds the border** between the entries that come before what is looked for
and the others. -/
theorem firstNotBefore_separates {α : Type} {before : α → Bool} {table : Array α}
    (sorted : ∀ i j (_ : i ≤ j) (inside : j < table.size), before table[j] → before table[i])
    {lo hi : Nat} (inside : hi ≤ table.size) (range : lo ≤ hi)
    (invariant : Separates before table lo hi) :
    Separates before table (firstNotBefore before table lo hi inside)
      (firstNotBefore before table lo hi inside) := by
  fun_induction firstNotBefore before table lo hi inside with
  | case1 lo hi inside nonempty bound comes ih =>
      refine ih (by omega) ⟨?_, invariant.above⟩
      intro k _ low
      exact sorted k _ (by omega) bound comes
  | case2 lo hi inside nonempty bound comes ih =>
      refine ih (by omega) ⟨invariant.below, ?_⟩
      intro k inside' high earlier
      exact comes (sorted _ k high inside' earlier)
  | case3 lo hi inside empty =>
      obtain rfl : lo = hi := by omega
      exact invariant

/-! ## The table -/

namespace Reserved

/-- The table is sorted by spelling, and no word has two entries. -/
theorem table_sorted : table.toList.Pairwise (·.word < ·.word) := by
  decide

theorem word_lt {i j : Nat} (earlier : i < j) (inside : j < table.size) :
    table[i].word < table[j].word := by
  have := List.pairwise_iff_getElem.mp table_sorted i j (by simpa using by omega) (by simpa) earlier
  simpa using this

/-- The entries that come before a word stand in front of all the others. -/
theorem sorted_before (word : Bytes) {i j : Nat} (le : i ≤ j) (inside : j < table.size)
    (comes : table[j].word < word) : table[i].word < word := by
  rcases Nat.lt_or_eq_of_le le with earlier | rfl
  · exact List.lt_trans (word_lt earlier inside) comes
  · exact comes

/-- **The lookup is exact**: a word is found with a kind if and only if the table has an
entry of that word and kind. -/
theorem kind?_eq_some_iff {word : Bytes} {kind : TokenKind} :
    kind? word = some kind ↔ ⟨word, kind⟩ ∈ table := by
  have border : Separates (fun e : Entry => e.word < word) table _ _ :=
    firstNotBefore_separates
      (fun i j le inside => by simpa using sorted_before word le inside)
      (Nat.le_refl _) (Nat.zero_le _)
      ⟨fun _ _ low => absurd low (Nat.not_lt_zero _), fun _ inside high => absurd inside (by omega)⟩
  have unfolded : kind? word =
      table[firstNotBefore (fun e : Entry => e.word < word) table 0 table.size
        (Nat.le_refl _)]?.bind fun e => if e.word = word then some e.kind else none := rfl
  rw [unfolded]
  generalize firstNotBefore (fun e : Entry => e.word < word) table 0 table.size _ = i at border
  constructor
  · intro found
    obtain ⟨e, entry, same⟩ := Option.bind_eq_some_iff.mp found
    obtain ⟨rfl, rfl⟩ : e.word = word ∧ e.kind = kind := by simpa using same
    exact Array.mem_of_getElem? entry
  · intro mem
    obtain ⟨j, inside, entry⟩ := Array.getElem_of_mem mem
    -- the entry of the word is the first that does not come before it
    have notAbove : ¬ j < i := by
      intro low
      have comes := border.below j inside low
      rw [entry] at comes
      exact List.lt_irrefl word (of_decide_eq_true comes)
    have notBelow : ¬ i < j := by
      intro low
      have comes := word_lt low inside
      rw [entry] at comes
      exact border.above i (by omega) (Nat.le_refl _) (decide_eq_true comes)
    obtain rfl : i = j := by omega
    rw [Array.getElem?_eq_getElem inside, entry]
    simp

/-- No word has two entries. -/
theorem word_injective {e e' : Entry} (inside : e ∈ table) (inside' : e' ∈ table)
    (same : e.word = e'.word) : e = e' := by
  obtain ⟨i, bound, rfl⟩ := Array.getElem_of_mem inside
  obtain ⟨j, bound', rfl⟩ := Array.getElem_of_mem inside'
  rcases Nat.lt_trichotomy i j with before | equal | behind
  · exact absurd (same ▸ word_lt before bound') (List.lt_irrefl _)
  · subst equal
    rfl
  · exact absurd (same ▸ word_lt behind bound) (List.lt_irrefl _)

/-- Going through the whole table finds the entries of the table. -/
theorem find?_eq_some_iff {word : Bytes} {e : Entry} :
    table.find? (·.word = word) = some e ↔ e ∈ table ∧ e.word = word := by
  constructor
  · intro found
    exact ⟨Array.mem_of_find?_eq_some found, by simpa using Array.find?_some found⟩
  · rintro ⟨inside, rfl⟩
    cases found : table.find? (·.word = e.word) with
    | none => simpa using Array.find?_eq_none.mp found e inside
    | some e' =>
        have spelled : e'.word = e.word := by simpa using Array.find?_some found
        rw [word_injective (Array.mem_of_find?_eq_some found) inside spelled]

/-- **Halving the table finds what going through all of it finds**, for every word: the kind of the
entry with this spelling if there is one, and nothing if there is none. -/
theorem lookup_linear (word : Bytes) :
    kind? word = (table.find? (·.word = word)).map Entry.kind ∧
      (∀ e ∈ table, e.word = word → kind? word = some e.kind) ∧
      (kind? word = none ↔ ∀ e ∈ table, e.word ≠ word) := by
  have linear : kind? word = (table.find? (·.word = word)).map Entry.kind := by
    apply Option.ext
    intro kind
    rw [kind?_eq_some_iff, Option.map_eq_some_iff]
    constructor
    · intro inside
      exact ⟨⟨word, kind⟩, find?_eq_some_iff.mpr ⟨inside, rfl⟩, rfl⟩
    · rintro ⟨e, found, rfl⟩
      obtain ⟨inside, rfl⟩ := find?_eq_some_iff.mp found
      exact inside
  refine ⟨linear, ?_, ?_⟩
  · rintro e inside rfl
    exact kind?_eq_some_iff.mpr inside
  · rw [linear, Option.map_eq_none_iff, Array.find?_eq_none]
    simp

end Reserved

end BlockSyntax
