import BlockSyntax.Proofs.Shape
import Mathlib.Data.List.Nodup

/-!
# Terminals in the order of their identifiers

The terminals of a tree are found in its preorder.  In a tree that was numbered from a
counter they stand there in the order of their identifiers, because the parts of a node
are numbered in the order in which the node shows them; only the lists of a declaration
draw their identifiers out of order, and they are no terminals.  This holds as long as the
counter does not run out (`Numbering.ascends`).

The program node is the exception: it shows its items in groups.  Its terminals are put
into the order of their identifiers by sorting (`Node.terminalsById`), and the sorted list
is that of the items in the order in which they were numbered.
-/

set_option autoImplicit false

namespace BlockSyntax

namespace Node

/-! ## The terminals of a tree -/

/-- The identifier and the token of a terminal. -/
def asTerminal : Node → Option (NodeId × Token)
  | terminal i _ t => some (i, t)
  | list _ _ _ | construct _ _ _ => none

/-- The terminals of a tree in preorder. -/
def terminals (n : Node) : List (NodeId × Token) := n.preorder.filterMap asTerminal

/-- The terminals of a tree in the order of their identifiers. -/
def terminalsById (n : Node) : List (NodeId × Token) :=
  n.terminals.mergeSort fun a b => decide (a.1 ≤ b.1)

theorem preorderAll_eq_flatMap (ns : List Node) : preorderAll ns = ns.flatMap preorder := by
  induction ns with
  | nil => rfl
  | cons n ns ih => rw [preorderAll, List.flatMap_cons, ih]

theorem preorder_eq (n : Node) : n.preorder = n :: n.children.flatMap preorder := by
  cases n with
  | terminal i label t => rw [preorder, children, List.flatMap_nil]
  | list i label items => rw [preorder, children, preorderAll_eq_flatMap]
  | construct i form parts => rw [preorder, children, preorderAll_eq_flatMap]

@[simp] theorem terminals_terminal (i : NodeId) (label : Bytes) (t : Token) :
    (terminal i label t).terminals = [(i, t)] := by
  rw [terminals, preorder_eq]
  rfl

theorem terminals_of_children {n : Node} (inner : n.asTerminal = none) :
    n.terminals = n.children.flatMap terminals := by
  rw [terminals, preorder_eq, List.filterMap_cons_none inner, List.filterMap_flatMap]
  rfl

@[simp] theorem terminals_list (i : NodeId) (label : Bytes) (items : List Node) :
    (list i label items).terminals = items.flatMap terminals :=
  terminals_of_children rfl

@[simp] theorem terminals_construct (i : NodeId) (form : Construct) (parts : List Node) :
    (construct i form parts).terminals = parts.flatMap terminals :=
  terminals_of_children rfl

/-! ## Their tokens -/

/-- The tokens of a tree in preorder. -/
def tokens (n : Node) : List Token := n.terminals.map Prod.snd

/-- The tokens of several trees, one tree after the other. -/
def tokensAll (ns : List Node) : List Token := ns.flatMap tokens

theorem tokensAll_singleton (n : Node) : tokensAll [n] = n.tokens :=
  List.flatMap_singleton tokens n

theorem tokensAll_append (ns ms : List Node) :
    tokensAll (ns ++ ms) = tokensAll ns ++ tokensAll ms :=
  List.flatMap_append

theorem map_snd_flatMap_terminals (ns : List Node) :
    (ns.flatMap terminals).map Prod.snd = tokensAll ns := by
  rw [List.map_flatMap]
  rfl

@[simp] theorem tokens_terminal (i : NodeId) (label : Bytes) (t : Token) :
    (terminal i label t).tokens = [t] := by
  rw [tokens, terminals_terminal, List.map_singleton]

@[simp] theorem tokens_list (i : NodeId) (label : Bytes) (items : List Node) :
    (list i label items).tokens = tokensAll items := by
  rw [tokens, terminals_list, map_snd_flatMap_terminals]

@[simp] theorem tokens_construct (i : NodeId) (form : Construct) (parts : List Node) :
    (construct i form parts).tokens = tokensAll parts := by
  rw [tokens, terminals_construct, map_snd_flatMap_terminals]

mutual

/-- Identifiers have no part in which tokens there are. -/
theorem tokens_unnumbered : ∀ n : Node, n.unnumbered.tokens = n.tokens
  | terminal _ _ _ => by rw [unnumbered, tokens_terminal, tokens_terminal]
  | list _ _ items => by
      rw [unnumbered, tokens_list, tokens_list, tokensAll_unnumbered items]
  | construct _ _ parts => by
      rw [unnumbered, tokens_construct, tokens_construct, tokensAll_unnumbered parts]

theorem tokensAll_unnumbered : ∀ ns : List Node, tokensAll (unnumberedAll ns) = tokensAll ns
  | [] => by rw [unnumberedAll]
  | n :: ns => by
      rw [unnumberedAll, tokensAll, List.flatMap_cons, tokens_unnumbered n, ← tokensAll,
        tokensAll_unnumbered ns, tokensAll, ← List.flatMap_cons, ← tokensAll]

end

mutual

/-- Identifiers have no part in how many nodes there are. -/
theorem count_unnumbered : ∀ n : Node, n.unnumbered.count = n.count
  | terminal _ _ _ => by rw [unnumbered, count, count]
  | list _ _ items => by rw [unnumbered, count, count, countAll_unnumbered items]
  | construct _ _ parts => by rw [unnumbered, count, count, countAll_unnumbered parts]

theorem countAll_unnumbered : ∀ ns : List Node, countAll (unnumberedAll ns) = countAll ns
  | [] => by rw [unnumberedAll]
  | n :: ns => by
      rw [unnumberedAll, countAll, countAll, count_unnumbered n, countAll_unnumbered ns]

end

theorem countAll_append (ns ms : List Node) : countAll (ns ++ ms) = countAll ns + countAll ms := by
  induction ns with
  | nil => rw [List.nil_append, countAll, Nat.zero_add]
  | cons n ns ih => rw [List.cons_append, countAll, countAll, ih, Nat.add_assoc]

end Node

/-! ## Identifiers that ascend -/

/-- The identifiers ascend between two bounds. -/
structure Ascends (low high : Nat) (ids : List NodeId) : Prop where
  /-- Each is below those behind it. -/
  ascending : ids.Pairwise (·.toNat < ·.toNat)
  /-- None is outside the bounds. -/
  within : ∀ i ∈ ids, low ≤ i.toNat ∧ i.toNat < high

theorem Ascends.nil {low high : Nat} : Ascends low high [] :=
  ⟨.nil, by simp⟩

theorem Ascends.widen {low high higher : Nat} {ids : List NodeId} (ascends : Ascends low high ids)
    (le : high ≤ higher) : Ascends low higher ids where
  ascending := ascends.ascending
  within i inside := by
    have := ascends.within i inside
    omega

theorem Ascends.append {low mid high : Nat} {is js : List NodeId} (front : Ascends low mid is)
    (back : Ascends mid high js) (lower : low ≤ mid) (upper : mid ≤ high) :
    Ascends low high (is ++ js) where
  ascending := by
    refine List.pairwise_append.mpr ⟨front.ascending, back.ascending, ?_⟩
    intro i inFront j inBack
    exact Nat.lt_of_lt_of_le (front.within i inFront).2 (back.within j inBack).1
  within i inside := by
    rcases List.mem_append.mp inside with inFront | inBack
    · have := front.within i inFront
      omega
    · have := back.within i inBack
      omega

theorem toNat_succ {i : NodeId} (room : i.toNat + 1 < UInt64.size) :
    (i + 1).toNat = i.toNat + 1 := by
  rw [UInt64.toNat_add]
  exact Nat.mod_eq_of_lt room

/-- The identifiers of the terminals of several trees. -/
theorem map_fst_flatMap_terminals (n : Node) (ns : List Node) :
    ((n :: ns).flatMap Node.terminals).map Prod.fst =
      n.terminals.map Prod.fst ++ (ns.flatMap Node.terminals).map Prod.fst := by
  rw [List.flatMap_cons, List.map_append]

mutual

/-- **Numbering moves the counter by the number of nodes**, and the terminals of the tree
stand in the order of their identifiers. -/
theorem Numbering.ascends {next last : NodeId} {shape node : Node} :
    Numbering next shape node last → next.toNat + node.count < UInt64.size →
      last.toNat = next.toNat + node.count ∧
        Ascends next.toNat last.toNat (node.terminals.map Prod.fst)
  | .terminal, room => by
      rw [Node.count] at room ⊢
      rw [toNat_succ room, Node.terminals_terminal]
      exact ⟨rfl, List.pairwise_singleton _ _, by simp⟩
  | .list inside, room => by
      rw [Node.count] at room ⊢
      obtain ⟨moved, ascends⟩ := inside.ascends (by omega)
      rw [toNat_succ (by omega), Node.terminals_list]
      exact ⟨by omega, ascends.widen (Nat.le_succ _)⟩
  | .construct inside, room => by
      rw [Node.count] at room ⊢
      obtain ⟨moved, ascends⟩ := inside.ascends (by omega)
      rw [toNat_succ (by omega), Node.terminals_construct]
      exact ⟨by omega, ascends.widen (Nat.le_succ _)⟩
  | @Numbering.declaration _ first second last _ _ _ _ t _ nodes _ ns typed front back, room => by
      simp only [Node.count, Node.countAll] at room ⊢
      obtain ⟨typeMoved, typeAscends⟩ := typed.ascends (by omega)
      obtain ⟨frontMoved, frontAscends⟩ := front.ascends (by omega)
      obtain ⟨backMoved, backAscends⟩ := back.ascends (by omega)
      have one : (last + 1).toNat = last.toNat + 1 := toNat_succ (by omega)
      have two : (last + 1 + 1).toNat = last.toNat + 2 := by
        rw [toNat_succ (by omega), one]
      have three : (last + 1 + 1 + 1).toNat = last.toNat + 3 := by
        rw [toNat_succ (by omega), two]
      have lists := frontAscends.append backAscends (by omega) (by omega)
      have whole := typeAscends.append lists (by omega) (by omega)
      refine ⟨by omega, ?_⟩
      simpa using whole.widen (by omega : last.toNat ≤ (last + 1 + 1 + 1).toNat)

theorem NumberingAll.ascends {next last : NodeId} {shapes nodes : List Node} :
    NumberingAll next shapes nodes last → next.toNat + Node.countAll nodes < UInt64.size →
      last.toNat = next.toNat + Node.countAll nodes ∧
        Ascends next.toNat last.toNat ((nodes.flatMap Node.terminals).map Prod.fst)
  | .nil, _ => by
      rw [Node.countAll]
      exact ⟨rfl, .nil⟩
  | .cons head tail, room => by
      rw [Node.countAll] at room ⊢
      obtain ⟨headMoved, headAscends⟩ := head.ascends (by omega)
      obtain ⟨tailMoved, tailAscends⟩ := tail.ascends (by omega)
      rw [map_fst_flatMap_terminals]
      exact ⟨by omega, headAscends.append tailAscends (by omega) (by omega)⟩

end

theorem Ascends.nodup {low high : Nat} {ids : List NodeId} (ascends : Ascends low high ids) :
    ids.Nodup := by
  refine ascends.ascending.imp ?_
  rintro i j below rfl
  exact Nat.lt_irrefl _ below

/-- Terminals in the order of their identifiers are what sorting makes of them. -/
theorem mergeSort_of_ascends {low high : Nat} {found sorted : List (NodeId × Token)}
    (ascends : Ascends low high (sorted.map Prod.fst)) (perm : found.Perm sorted) :
    (found.mergeSort fun a b => decide (a.1 ≤ b.1)) = sorted := by
  have below : sorted.Pairwise fun a b => decide (a.1 ≤ b.1) = true := by
    refine (List.pairwise_map.mp ascends.ascending).imp ?_
    intro a b less
    exact decide_eq_true (UInt64.le_iff_toNat_le.mpr (Nat.le_of_lt less))
  have same := (List.mergeSort_perm found fun a b => decide (a.1 ≤ b.1)).trans perm
  refine List.Perm.eq_of_pairwise ?_ (List.pairwise_mergeSort ?_ ?_ found) below same
  · intro a b inFound inSorted lower upper
    refine List.inj_on_of_nodup_map ascends.nodup (same.subset inFound) inSorted ?_
    exact UInt64.le_antisymm (of_decide_eq_true lower) (of_decide_eq_true upper)
  · intro a b c first second
    exact decide_eq_true (UInt64.le_trans (of_decide_eq_true first) (of_decide_eq_true second))
  · intro a b
    simpa using UInt64.le_total a.1 b.1

end BlockSyntax
