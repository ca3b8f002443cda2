import BlockSyntax.Source.Path

/-!
# A normal form is normal

The components of a path are pushed on a stack, and what is on the stack in the end are names
and, below them, `..` components that found nothing to take back (`Path.Settled`).  Pushed again
in the same order such components come to lie as they lay before, and the empty components that
a slash at the front or at the end of a path makes leave the stack alone.  So the names of a
path in normal form are the names of the path, and **the normal form of a normal form is the
form itself** (`Path.normal_normal`).
-/

set_option autoImplicit false

namespace BlockSyntax.Path

/-! ## Components -/

theorem components_eq_splitOn (path : Bytes) : components path = path.splitOn slash := by
  induction path with
  | nil => rfl
  | cons b path ih =>
      rw [components, List.splitOn_cons_eq_if_modifyHead, ih]
      by_cases here : b = slash
      · rw [if_pos here, if_pos (beq_iff_eq.mpr here)]
      · rw [if_neg here, if_neg (by rwa [beq_iff_eq])]
        obtain ⟨c, cs, parts⟩ := List.exists_cons_of_ne_nil (List.splitOn_ne_nil slash path)
        rw [parts]
        rfl

/-- Components without slashes are found again behind the slashes between them. -/
theorem components_join {cs : List Bytes} (whole : ∀ c ∈ cs, slash ∉ c) (some : cs ≠ []) :
    components (join cs) = cs := by
  rw [components_eq_splitOn, join]
  exact List.splitOn_intercalate slash whole some

theorem slash_not_mem_component {path : Bytes} :
    ∀ c ∈ components path, slash ∉ c := by
  induction path with
  | nil => simp [components]
  | cons b path ih =>
      rw [components]
      split
      · exact List.forall_mem_cons.mpr ⟨List.not_mem_nil, ih⟩
      · rename_i other
        split
        · simpa using Ne.symm other
        · rename_i c cs parts
          rw [parts, List.forall_mem_cons] at ih
          refine List.forall_mem_cons.mpr ⟨?_, ih.2⟩
          exact List.not_mem_cons_of_ne_of_not_mem (Ne.symm other) ih.1

theorem join_cons {c : Bytes} {cs : List Bytes} (some : cs ≠ []) :
    join (c :: cs) = c ++ slash :: join cs := by
  rw [join, List.intercalate_cons_of_ne_nil some, List.append_assoc]
  rfl

/-- An empty component at the end is a slash at the end. -/
theorem join_concat_nil {cs : List Bytes} (some : cs ≠ []) :
    join (cs ++ [[]]) = join cs ++ [slash] := by
  induction cs with
  | nil => exact absurd rfl some
  | cons c cs ih =>
      cases cs with
      | nil =>
          rw [List.singleton_append, join_cons (List.cons_ne_nil _ _)]
          simp [join]
      | cons d cs =>
          rw [List.cons_append, join_cons (by simp), ih (List.cons_ne_nil _ _),
            join_cons (List.cons_ne_nil _ _), List.append_assoc]
          rfl

/-! ## Names that stay where they are -/

/-- A component that names something. -/
structure IsName (c : Bytes) : Prop where
  /-- It is not empty. -/
  nonempty : c ≠ []
  /-- It does not stay in the directory. -/
  notDot : c ≠ dot
  /-- It does not leave the directory. -/
  notDotDot : c ≠ dotDot
  /-- It is not cut by a slash. -/
  whole : slash ∉ c

/-- Names on a stack, the last one first.  Below them may be `..` components, unless the stack
stands at the root. -/
inductive Settled (rooted : Bool) : List Bytes → Prop where
  | nil : Settled rooted []
  | name {c : Bytes} {names : List Bytes} (isName : IsName c) (below : Settled rooted names) :
      Settled rooted (c :: names)
  | up {names : List Bytes} (relative : rooted = false) (ups : ∀ c ∈ names, c = dotDot)
      (below : Settled rooted names) : Settled rooted (dotDot :: names)

section Settled

variable {rooted : Bool} {c : Bytes} {names : List Bytes}

theorem push_nil (rooted : Bool) (names : List Bytes) : push rooted names [] = names := by
  unfold push
  rw [if_pos (.inl rfl)]

theorem push_name (isName : IsName c) (names : List Bytes) :
    push rooted names c = c :: names := by
  unfold push
  rw [if_neg (not_or.mpr ⟨isName.nonempty, isName.notDot⟩), if_neg isName.notDotDot]

theorem push_dotDot_nil (rooted : Bool) :
    push rooted [] dotDot = if rooted then [] else [dotDot] := by
  unfold push
  rw [if_neg (by decide), if_pos rfl]

theorem push_dotDot_cons (rooted : Bool) (top : Bytes) (below : List Bytes) :
    push rooted (top :: below) dotDot =
      if top = dotDot then dotDot :: top :: below else below := by
  unfold push
  rw [if_neg (by decide), if_pos rfl]

/-- Pushing a component on settled names settles it. -/
theorem Settled.push (settled : Settled rooted names) (whole : slash ∉ c) :
    Settled rooted (push rooted names c) := by
  by_cases stays : c = [] ∨ c = dot
  · unfold Path.push
    rwa [if_pos stays]
  by_cases leaves : c = dotDot
  · rw [leaves]
    cases settled with
    | nil =>
        rw [push_dotDot_nil]
        split
        · exact .nil
        · rename_i relative
          exact .up (by simpa using relative) nofun .nil
    | name isName below => rwa [push_dotDot_cons, if_neg isName.notDotDot]
    | up relative ups below =>
        rw [push_dotDot_cons, if_pos rfl]
        exact .up relative (List.forall_mem_cons.mpr ⟨rfl, ups⟩) (.up relative ups below)
  · obtain ⟨nonempty, notDot⟩ := not_or.mp stays
    have isName : IsName c := ⟨nonempty, notDot, leaves, whole⟩
    rw [push_name isName]
    exact .name isName settled

theorem Settled.pushAll {cs : List Bytes} (settled : Settled rooted names)
    (whole : ∀ c ∈ cs, slash ∉ c) : Settled rooted (cs.foldl (Path.push rooted) names) := by
  induction cs generalizing names with
  | nil => exact settled
  | cons c cs ih =>
      rw [List.forall_mem_cons] at whole
      exact ih (settled.push whole.1) whole.2

/-- Pushed again a settled component comes to lie where it lay. -/
theorem Settled.push_top (settled : Settled rooted (c :: names)) :
    Path.push rooted names c = c :: names := by
  cases settled with
  | name isName _ => exact push_name isName names
  | up relative ups _ =>
      cases names with
      | nil =>
          rw [push_dotDot_nil, relative]
          rfl
      | cons top below => rw [push_dotDot_cons, if_pos (ups top List.mem_cons_self)]

theorem Settled.tail (settled : Settled rooted (c :: names)) : Settled rooted names := by
  cases settled with
  | name _ below | up _ _ below => exact below

theorem Settled.foldl_push (settled : Settled rooted names) :
    names.reverse.foldl (Path.push rooted) [] = names := by
  induction names with
  | nil => rfl
  | cons c names ih =>
      rw [List.reverse_cons, List.foldl_append, ih settled.tail]
      exact settled.push_top

theorem Settled.whole (settled : Settled rooted names) : ∀ c ∈ names, c ≠ [] ∧ slash ∉ c := by
  induction settled with
  | nil => exact nofun
  | name isName _ ih => exact List.forall_mem_cons.mpr ⟨⟨isName.nonempty, isName.whole⟩, ih⟩
  | up _ _ _ ih => exact List.forall_mem_cons.mpr ⟨by decide, ih⟩

/-- The first of the names in their order is there and is not cut by a slash. -/
theorem Settled.first (settled : Settled rooted names) {first : Bytes} {others : List Bytes}
    (order : names.reverse = first :: others) : first ≠ [] ∧ slash ∉ first := by
  apply settled.whole first
  rw [← List.mem_reverse, order]
  exact List.mem_cons_self

/-- The top of the stack is a name or a `..`. -/
theorem Settled.top (settled : Settled rooted (c :: names)) : c ≠ dotDot → IsName c := by
  intro other
  cases settled with
  | name isName _ => exact isName
  | up => exact absurd rfl other

end Settled

/-- **The names that are left of a path are settled.** -/
theorem settled_namesReversed (path : Bytes) :
    Settled (isRooted path) (namesReversed path) :=
  Settled.nil.pushAll slash_not_mem_component

/-! ## The normal form by its components -/

/-- Names with an empty component in front of them at the root, and one behind them for a
directory. -/
def spread (rooted directory : Bool) (names : List Bytes) : List Bytes :=
  (if rooted then [[]] else []) ++ names ++ if directory then [[]] else []

/-- The last name of a path that denotes a directory has a slash behind it, unless it is
`..`. -/
def showsDirectory (path last : Bytes) : Bool := endsAsDirectory path && last != dotDot

variable {path last : Bytes} {names : List Bytes}

theorem finalSlash_of_cons (left : namesReversed path = last :: names) :
    finalSlash path = if showsDirectory path last then [slash] else [] := by
  rw [finalSlash, left]
  rfl

theorem join_spread {rooted directory : Bool} (some : names ≠ []) :
    join (spread rooted directory names) =
      (if rooted then [slash] else []) ++ join names ++ if directory then [slash] else [] := by
  have front : join (names ++ if directory then [[]] else []) =
      join names ++ if directory then [slash] else [] := by
    cases directory with
    | false => simp
    | true => exact join_concat_nil some
  rw [spread, List.append_assoc, List.append_assoc, ← front]
  cases rooted with
  | false => rfl
  | true => exact join_cons (List.append_ne_nil_of_left_ne_nil some _)

theorem join_ne_nil {c : Bytes} (nonempty : c ≠ []) (cs : List Bytes) : join (c :: cs) ≠ [] := by
  cases cs with
  | nil => simpa [join] using nonempty
  | cons d cs =>
      rw [join_cons (List.cons_ne_nil _ _)]
      exact List.append_ne_nil_of_left_ne_nil nonempty _

/-- A path with a name left is written as that name, those in front of it, and a slash at
either end as far as there is one. -/
theorem normal_of_cons (left : namesReversed path = last :: names) :
    normal path = join (spread (isRooted path) (showsDirectory path last)
      (last :: names).reverse) := by
  have some : (last :: names).reverse ≠ [] := by simp
  obtain ⟨first, others, order⟩ := List.exists_cons_of_ne_nil some
  have nonempty : first ≠ [] := by
    have settled := settled_namesReversed path
    rw [left] at settled
    exact (settled.first order).1
  rw [normal, finalSlash_of_cons left, left, join_spread some, if_neg]
  rintro ⟨empty, _⟩
  rw [List.append_eq_nil_iff, List.append_eq_nil_iff, order] at empty
  exact join_ne_nil nonempty others empty.1.2

/-- A path of which no name is left is the root, the directory itself, or empty. -/
theorem normal_of_nil (left : namesReversed path = []) :
    normal path = [slash] ∨ normal path = dot ∨ normal path = [] := by
  rw [normal, finalSlash, left]
  cases isRooted path with
  | true => exact .inl rfl
  | false =>
      by_cases empty : path = []
      · exact .inr (.inr (by simp [empty, join]))
      · exact .inr (.inl (by simp [empty, join]))

/-! ## The normal form of a normal form -/

section Spread

variable {rooted directory : Bool}

/-- Empty components are pushed without a trace. -/
theorem foldl_push_spread (settled : Settled rooted names) :
    (spread rooted directory names.reverse).foldl (push rooted) [] = names := by
  have front : ∀ stack, (if rooted then [[]] else []).foldl (push rooted) stack = stack := by
    intro stack
    cases rooted with
    | false => rfl
    | true => exact push_nil true stack
  have back : ∀ stack, (if directory then [[]] else []).foldl (push rooted) stack = stack := by
    intro stack
    cases directory with
    | false => rfl
    | true => exact push_nil rooted stack
  rw [spread, List.foldl_append, List.foldl_append, front, settled.foldl_push, back]

theorem isRooted_join_spread {first : Bytes} (nonempty : first ≠ []) (whole : slash ∉ first) :
    isRooted (join (spread rooted directory (first :: names))) = rooted := by
  rw [join_spread (List.cons_ne_nil _ _)]
  cases rooted with
  | true => rfl
  | false =>
      obtain ⟨b, more, rfl⟩ := List.exists_cons_of_ne_nil nonempty
      have other : b ≠ slash := fun same => whole (same ▸ List.mem_cons_self)
      have head : (join ((b :: more) :: names)).head? = some b := by
        cases names with
        | nil => simp [join]
        | cons d cs =>
            rw [join_cons (List.cons_ne_nil _ _)]
            rfl
      simp [isRooted, head, other]

theorem getLast?_spread (front : List Bytes) :
    (spread rooted directory (front ++ [last])).getLast? =
      some (if directory then [] else last) := by
  cases directory <;> simp [spread]

end Spread

section Left

variable (left : namesReversed path = last :: names)
include left

theorem settled_left : Settled (isRooted path) (last :: names) :=
  left ▸ settled_namesReversed path

theorem isRooted_normal : isRooted (normal path) = isRooted path := by
  obtain ⟨first, others, order⟩ := List.exists_cons_of_ne_nil
    (by simp : (last :: names).reverse ≠ [])
  obtain ⟨nonempty, whole⟩ := (settled_left left).first order
  rw [normal_of_cons left, order]
  exact isRooted_join_spread nonempty whole

theorem components_normal : components (normal path) =
    spread (isRooted path) (showsDirectory path last) (last :: names).reverse := by
  rw [normal_of_cons left]
  apply components_join _ (by simp [spread])
  intro c inside
  rw [spread, List.mem_append, List.mem_append] at inside
  rcases inside with (root | named) | final
  · cases isRooted path <;> simp_all
  · exact ((settled_left left).whole c (List.mem_reverse.mp named)).2
  · cases showsDirectory path last <;> simp_all

theorem namesReversed_normal : namesReversed (normal path) = last :: names := by
  rw [namesReversed, isRooted_normal left, components_normal left]
  exact foldl_push_spread (settled_left left)

theorem showsDirectory_normal : showsDirectory (normal path) last = showsDirectory path last := by
  rw [showsDirectory, endsAsDirectory, components_normal left, List.reverse_cons, getLast?_spread]
  by_cases up : last = dotDot
  · simp [showsDirectory, up]
  · have isName := (settled_left left).top up
    cases shows : showsDirectory path last <;>
      simp [isName.nonempty, isName.notDot, isName.notDotDot]

end Left

/-- **The normal form of a normal form is the form itself.** -/
theorem normal_normal (path : Bytes) : normal (normal path) = normal path := by
  cases left : namesReversed path with
  | nil =>
      rcases normal_of_nil left with root | here | empty
      · rw [root]
        decide
      · rw [here]
        decide
      · rw [empty]
        decide
  | cons last names =>
      rw [normal_of_cons (namesReversed_normal left), isRooted_normal left,
        showsDirectory_normal left, ← normal_of_cons left]

end BlockSyntax.Path
