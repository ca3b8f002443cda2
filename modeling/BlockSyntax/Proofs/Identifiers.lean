import BlockSyntax.Proofs.NodeCount
import BlockSyntax.Proofs.Session

/-!
# The identifiers of a tree

The identifiers of a tree that a session answers with are an interval: the session's
counter, the number after it, and so on, one for each node.  The last of them is that of
the root, and the counter stands behind it afterwards.  A node has a greater identifier
than all nodes below it, and the nodes directly below a node stand in the order of their
identifiers; only a program shows its items in another order than that in which they were
numbered (`Node.NumberedFrom`).

This is proved of the relation between shapes and numbered trees, and so of every walk that
numbers a tree.  A tree is the case of one root; several trees numbered one after the other
share an interval (`Node.NumberedAllFrom`).  The lists of a declaration are the reason why
the interval is kept apart from the order: they are numbered behind the elements of both,
so neither list is an interval of its own with its elements.

All of this needs that the counter does not run out.  How many identifiers a request draws
is what its reply counts (`Session.drawn`), and when the reply is a tree this is the number
of its nodes.
-/

set_option autoImplicit false

namespace BlockSyntax

namespace Node

/-! ## Identifiers of trees -/

/-- The nodes of a tree below its root. -/
def descendants (n : Node) : List Node := n.children.flatMap preorder

/-- The identifiers of a tree, in preorder. -/
def identifiers (n : Node) : List Nat := n.preorder.map (·.id.toNat)

/-- The identifiers of several trees, one tree after the other. -/
def identifiersAll (ns : List Node) : List Nat := ns.flatMap identifiers

theorem identifiersAll_eq_map (ns : List Node) :
    identifiersAll ns = (ns.flatMap preorder).map (·.id.toNat) := by
  rw [List.map_flatMap]
  rfl

theorem identifiers_eq (n : Node) : n.identifiers = n.id.toNat :: identifiersAll n.children := by
  rw [identifiers, preorder_eq, List.map_cons, identifiersAll_eq_map]

theorem identifiersAll_cons (n : Node) (ns : List Node) :
    identifiersAll (n :: ns) = n.identifiers ++ identifiersAll ns :=
  List.flatMap_cons

theorem count_eq (n : Node) : n.count = countAll n.children + 1 := by
  cases n <;> rfl

/-- A node has a greater identifier than the nodes below it, and those directly below it
stand in the order of their identifiers, unless it is a program. -/
structure Ordered (n : Node) : Prop where
  /-- The node was numbered after everything below it. -/
  above : ∀ d ∈ n.descendants, d.id < n.id
  /-- Its parts were numbered in the order in which it shows them. -/
  ascending : n.kind ≠ .construct .program → n.children.Pairwise (·.id < ·.id)

/-- The tree was numbered from a counter: it has the identifiers from there on, each once,
and every node comes after those below it. -/
structure NumberedFrom (first : NodeId) (root : Node) : Prop where
  /-- The identifiers are an interval. -/
  interval : root.identifiers.Perm (List.range' first.toNat root.count)
  /-- The last of them is that of the root. -/
  last : root.id.toNat + 1 = first.toNat + root.count
  /-- Nodes come after those below them, and parts in their order. -/
  ordered : ∀ n ∈ root.preorder, n.Ordered

/-- The trees were numbered from a counter, one after the other. -/
structure NumberedAllFrom (first : NodeId) (ns : List Node) : Prop where
  /-- The identifiers of all of them are an interval. -/
  interval : (identifiersAll ns).Perm (List.range' first.toNat (countAll ns))
  /-- The roots stand in the order of their identifiers. -/
  ascending : ns.Pairwise (·.id < ·.id)
  /-- Nodes come after those below them, and parts in their order. -/
  ordered : ∀ n ∈ ns.flatMap preorder, n.Ordered

/-! ## Intervals -/

theorem mem_identifiers {n d : Node} (inside : d ∈ n.preorder) : d.id.toNat ∈ n.identifiers :=
  List.mem_map_of_mem inside

theorem root_mem_preorder (n : Node) : n ∈ n.preorder := by
  rw [preorder_eq]
  exact List.mem_cons_self

theorem NumberedFrom.within {first : NodeId} {root n : Node} (numbered : root.NumberedFrom first)
    (inside : n ∈ root.preorder) :
    first.toNat ≤ n.id.toNat ∧ n.id.toNat < first.toNat + root.count := by
  have found := numbered.interval.subset (mem_identifiers inside)
  simpa using found

/-- Everything numbered between a counter and an identifier has a smaller identifier. -/
theorem below_of_interval {ns : List Node} {first width : Nat} {id : NodeId}
    (interval : (identifiersAll ns).Perm (List.range' first width))
    (le : first + width ≤ id.toNat) : ∀ d ∈ ns.flatMap preorder, d.id < id := by
  intro d inside
  have found : d.id.toNat ∈ identifiersAll ns := by
    rw [identifiersAll_eq_map]
    exact List.mem_map_of_mem inside
  have := interval.subset found
  rw [List.mem_range'_1] at this
  exact UInt64.lt_iff_toNat_lt.mpr (by omega)

/-- A node that is numbered behind an interval makes it longer by one. -/
theorem numberedFrom_of_children {n : Node} {first : NodeId}
    (interval : (identifiersAll n.children).Perm (List.range' first.toNat (countAll n.children)))
    (last : n.id.toNat = first.toNat + countAll n.children)
    (ascending : n.kind ≠ .construct .program → n.children.Pairwise (·.id < ·.id))
    (ordered : ∀ d ∈ n.descendants, d.Ordered) : n.NumberedFrom first where
  interval := by
    rw [identifiers_eq, count_eq, List.range'_1_concat, last]
    exact (interval.cons _).trans (List.perm_append_singleton _ _).symm
  last := by
    rw [count_eq]
    omega
  ordered := by
    intro d inside
    rw [preorder_eq] at inside
    rcases List.mem_cons.mp inside with rfl | below
    · exact ⟨below_of_interval interval (by omega), ascending⟩
    · exact ordered d below

theorem NumberedAllFrom.nil {first : NodeId} : NumberedAllFrom first [] where
  interval := .nil
  ascending := .nil
  ordered := by simp

/-- A tree, and others numbered from where it ends. -/
theorem NumberedAllFrom.cons {first mid : NodeId} {n : Node} {ns : List Node}
    (head : n.NumberedFrom first) (moved : mid.toNat = first.toNat + n.count)
    (tail : NumberedAllFrom mid ns) : NumberedAllFrom first (n :: ns) where
  interval := by
    have joined := head.interval.append tail.interval
    rw [moved, List.range'_append_1] at joined
    exact joined
  ascending := by
    refine List.pairwise_cons.mpr ⟨?_, tail.ascending⟩
    intro m inside
    have found : m.id.toNat ∈ identifiersAll ns :=
      List.mem_flatMap.mpr ⟨m, inside, mem_identifiers (root_mem_preorder m)⟩
    have above := tail.interval.subset found
    rw [List.mem_range'_1] at above
    have root := head.within (root_mem_preorder n)
    exact UInt64.lt_iff_toNat_lt.mpr (by omega)
  ordered := by
    intro d inside
    rw [List.flatMap_cons] at inside
    rcases List.mem_append.mp inside with front | back
    · exact head.ordered d front
    · exact tail.ordered d back

theorem preorder_list (i : NodeId) (label : Bytes) (items : List Node) :
    (list i label items).preorder = list i label items :: items.flatMap preorder :=
  preorder_eq _

/-- A list that is numbered behind its elements, with other identifiers in between. -/
theorem ordered_list {first i : NodeId} {label : Bytes} {items : List Node}
    (numbered : NumberedAllFrom first items) (le : first.toNat + countAll items ≤ i.toNat) :
    ∀ n ∈ (list i label items).preorder, n.Ordered := by
  intro n inside
  rw [preorder_list] at inside
  rcases List.mem_cons.mp inside with rfl | below
  · exact ⟨below_of_interval numbered.interval le, fun _ => numbered.ascending⟩
  · exact numbered.ordered n below

/-- Two elements that come late. -/
theorem perm_late {α : Type} (front mid back : List α) (a b : α) :
    (front ++ (a :: mid ++ b :: back)).Perm (front ++ mid ++ back ++ [a] ++ [b]) := by
  have second : (front ++ mid ++ b :: back).Perm (front ++ mid ++ back ++ [b]) :=
    List.perm_middle.trans (List.perm_append_singleton _ _).symm
  calc List.Perm (front ++ (a :: mid ++ b :: back)) (a :: (front ++ mid ++ b :: back)) := by
        rw [List.append_assoc]
        exact List.perm_middle
    List.Perm _ (a :: (front ++ mid ++ back ++ [b])) := second.cons a
    List.Perm _ (front ++ mid ++ back ++ a :: [b]) := List.perm_middle.symm
    _ = front ++ mid ++ back ++ [a] ++ [b] := by
        rw [List.append_assoc _ [a]]
        rfl

/-- **The three parts of a declaration.**  The lists come behind the elements of both, first
the one and then the other. -/
theorem numberedAllFrom_declaration {first second third last : NodeId} {t : Node}
    {nodes ns : List Node} (before after : Bytes) (typed : t.NumberedFrom first)
    (front : NumberedAllFrom second nodes) (back : NumberedAllFrom third ns)
    (typeMoved : second.toNat = first.toNat + t.count)
    (frontMoved : third.toNat = second.toNat + countAll nodes)
    (backMoved : last.toNat = third.toNat + countAll ns)
    (room : last.toNat + 1 < UInt64.size) :
    NumberedAllFrom first [t, list last before nodes, list (last + 1) after ns] := by
  have next : (last + 1).toNat = last.toNat + 1 := toNat_succ room
  have typeBelow := (typed.within (root_mem_preorder t)).2
  constructor
  case interval =>
    have elements := (typed.interval.append front.interval).append back.interval
    rw [typeMoved, List.range'_append_1, frontMoved, typeMoved, Nat.add_assoc,
      List.range'_append_1] at elements
    have ids : identifiersAll [t, list last before nodes, list (last + 1) after ns] =
        t.identifiers ++ (last.toNat :: identifiersAll nodes ++
          (last.toNat + 1) :: identifiersAll ns) := by
      simp only [identifiersAll_cons, identifiers_eq (list _ _ _), children, id, next]
      simp [identifiersAll]
    have size : countAll [t, list last before nodes, list (last + 1) after ns] =
        t.count + countAll nodes + countAll ns + 1 + 1 := by
      simp only [countAll, count]
      omega
    have firstList : first.toNat + (t.count + countAll nodes + countAll ns) = last.toNat := by
      omega
    have secondList :
        first.toNat + (t.count + countAll nodes + countAll ns + 1) = last.toNat + 1 := by omega
    rw [ids, size, List.range'_1_concat, List.range'_1_concat, firstList, secondList]
    exact (perm_late _ _ _ _ _).trans ((elements.append_right _).append_right _)
  case ascending =>
    have typeFirst : t.id < last := UInt64.lt_iff_toNat_lt.mpr (by omega)
    have typeSecond : t.id < last + 1 := UInt64.lt_iff_toNat_lt.mpr (by omega)
    have lists : last < last + 1 := UInt64.lt_iff_toNat_lt.mpr (by omega)
    refine List.pairwise_cons.mpr ⟨?_, List.pairwise_pair.mpr lists⟩
    intro m inside
    rcases List.mem_cons.mp inside with rfl | inside
    · exact typeFirst
    · exact List.mem_singleton.mp inside ▸ typeSecond
  case ordered =>
    intro n inside
    rw [List.flatMap_cons, List.flatMap_cons, List.flatMap_singleton] at inside
    rcases List.mem_append.mp inside with ofType | inside
    · exact typed.ordered n ofType
    · rcases List.mem_append.mp inside with ofFront | ofBack
      · exact ordered_list front (by omega) n ofFront
      · exact ordered_list back (by omega) n ofBack

end Node

/-! ## Numbered trees -/

open Node

mutual

/-- **Numbering draws an interval of identifiers**, the root last. -/
theorem Numbering.numberedFrom {next last : NodeId} {shape node : Node} :
    Numbering next shape node last → next.toNat + node.count < UInt64.size →
      node.NumberedFrom next
  | .terminal, _ =>
      numberedFrom_of_children .nil rfl (fun _ => .nil) (by simp [descendants, children])
  | .list inside, room => by
      rw [Node.count] at room
      have numbered := inside.numberedAllFrom (by omega)
      exact numberedFrom_of_children numbered.interval (inside.ascends (by omega)).1
        (fun _ => numbered.ascending) numbered.ordered
  | .construct inside, room => by
      rw [Node.count] at room
      have numbered := inside.numberedAllFrom (by omega)
      exact numberedFrom_of_children numbered.interval (inside.ascends (by omega)).1
        (fun _ => numbered.ascending) numbered.ordered
  | @Numbering.declaration _ first second last _ _ _ _ t _ nodes _ ns typed front back, room => by
      simp only [Node.count, Node.countAll] at room
      have typeMoved := (typed.ascends (by omega)).1
      have frontMoved := (front.ascends (by omega)).1
      have backMoved := (back.ascends (by omega)).1
      have one : (last + 1).toNat = last.toNat + 1 := toNat_succ (by omega)
      have two : (last + 1 + 1).toNat = last.toNat + 1 + 1 := by rw [toNat_succ (by omega), one]
      have parts := fun before after => numberedAllFrom_declaration before after
        (typed.numberedFrom (by omega)) (front.numberedAllFrom (by omega))
        (back.numberedAllFrom (by omega)) typeMoved frontMoved backMoved (by omega)
      refine numberedFrom_of_children (parts _ _).interval ?_ (fun _ => (parts _ _).ascending)
        (parts _ _).ordered
      simp only [Node.id, Node.children, Node.countAll, Node.count, two]
      omega

theorem NumberingAll.numberedAllFrom {next last : NodeId} {shapes nodes : List Node} :
    NumberingAll next shapes nodes last → next.toNat + countAll nodes < UInt64.size →
      NumberedAllFrom next nodes
  | .nil, _ => .nil
  | .cons head tail, room => by
      rw [Node.countAll] at room
      have moved := (head.ascends (by omega)).1
      exact .cons (head.numberedFrom (by omega)) moved (tail.numberedAllFrom (by omega))

end

theorem Node.countAll_perm {ns ms : List Node} (perm : ns.Perm ms) : countAll ns = countAll ms := by
  rw [countAll_eq_sum, countAll_eq_sum]
  exact (perm.map count).sum_nat

theorem Numbering.count {next last : NodeId} {shape node : Node}
    (numbering : Numbering next shape node last) : node.count = shape.count := by
  rw [← numbering.unnumbered, count_unnumbered]

theorem NumberingAll.countAll {next last : NodeId} {shapes nodes : List Node}
    (numbering : NumberingAll next shapes nodes last) :
    Node.countAll nodes = Node.countAll shapes := by
  rw [← numbering.unnumbered, countAll_unnumbered]

/-! ## Walks -/

/-- A walk numbers a tree with as many nodes as given, from any counter that has an identifier
for each of them, and leaves the counter behind the last. -/
def Numbered.Numbers (walk : Numbered Node) (nodes : Nat) : Prop :=
  ∀ next : NodeId, next.toNat + nodes < UInt64.size →
    (walk next).1.count = nodes ∧ (walk next).1.NumberedFrom next ∧
      (walk next).2.toNat = next.toNat + nodes

theorem Numbered.numbers_of_numbering {walk : Numbered Node} {shape : Node}
    (numbering : ∀ next, Numbering next shape (walk next).1 (walk next).2) :
    walk.Numbers shape.count := by
  intro next room
  have count := (numbering next).count
  rw [← count] at room ⊢
  exact ⟨rfl, (numbering next).numberedFrom room, ((numbering next).ascends room).1⟩

/-- The numbered items of a program are as many nodes as it is worth, without its own. -/
theorem Program.countAll_parts {p : Program} {next last : NodeId} {nodes parts : List Node}
    (numbering : NumberingAll next (p.items.map Item.shape) nodes last) (perm : parts.Perm nodes) :
    Node.countAll parts + 1 = p.nodes := by
  rw [countAll_perm perm, numbering.countAll, countAll_eq_sum, List.map_map]
  rfl

/-- A program is numbered behind its items, which it shows in another order. -/
theorem Program.numbers (p : Program) : Numbered.Numbers p.number p.nodes := by
  intro next room
  obtain ⟨nodes, parts, last, numbering, perm, same⟩ := p.numbering next
  have count := Program.countAll_parts numbering perm
  have size := countAll_perm perm
  have moved := (numbering.ascends (by omega)).1
  have numbered := numbering.numberedAllFrom (by omega)
  rw [same]
  refine ⟨count, numberedFrom_of_children ?_ ?_ (fun inner => absurd rfl inner) ?_, ?_⟩
  · have regrouped : (identifiersAll parts).Perm (identifiersAll nodes) := perm.flatMap_right _
    rw [Node.children, size]
    exact regrouped.trans numbered.interval
  · rw [Node.children, size]
    exact moved
  · intro d inside
    exact numbered.ordered d ((perm.flatMap_right _).subset inside)
  · rw [toNat_succ (by omega)]
    omega

/-! ## Requests -/

/-- The number of nodes that a reply counts. -/
def Reply.made {α : Type} {n : Nat} : Reply α n → Nat
  | .ok _ _ made _ | .fail _ _ made => made

theorem Reply.made_widen {α : Type} {m n : Nat} {h : m ≤ n} (r : Reply α m) :
    (r.widen h).made = r.made := by
  cases r <;> rfl

/-- A reply that counts the nodes of a value is numbered by a walk over as many nodes. -/
theorem Reply.Counts.numbers {α : Type} {n : Nat} {r : Reply α n} {worth : α → Nat}
    {number : α → Numbered Node} (counts : r.Counts 0 worth)
    (numbers : ∀ a, (number a).Numbers (worth a)) {walk : Numbered Node} {rest : List Token}
    (gives : (r.map number).Gives walk rest) : walk.Numbers (r.map number).made := by
  cases r with
  | ok a us made shorter =>
      obtain ⟨rfl, _⟩ := gives
      have same : 0 + made = worth a := counts
      have walked := numbers a
      rw [← same, Nat.zero_add] at walked
      exact walked
  | fail e us made => exact gives.elim

/-- What a request reads is numbered by a walk over as many nodes as the reply counts. -/
theorem Goal.numbers {goal : Goal} {tokens rest : List Token} {walk : Numbered Node}
    (gives : (goal.parse tokens).Gives walk rest) : walk.Numbers (goal.parse tokens).made := by
  cases goal with
  | program => exact (program_counts tokens).numbers Program.numbers gives
  | statement =>
      simp only [Goal.parse, Reply.gives_widen, Reply.made_widen] at gives ⊢
      exact (statement_counts tokens).numbers
        (fun s => Numbered.numbers_of_numbering s.numbering) gives
  | expression =>
      simp only [Goal.parse, Reply.gives_widen, Reply.made_widen] at gives ⊢
      exact (expression_counts tokens).numbers
        (fun e => Numbered.numbers_of_numbering e.numbering) gives

namespace Session

/-- How many identifiers a request draws from the counter, whether it succeeds or not. -/
def drawn (s : Session) (goal : Goal) : Nat := (goal.parse s.rest).made

variable {s s' : Session} {goal : Goal}

/-- **A request that succeeds** draws the identifiers of its tree and no others. -/
theorem ask_ok_numbered {root : Node} (answers : s.ask goal = (.ok root, s'))
    (room : s.nextId.toNat + s.drawn goal < UInt64.size) :
    root.count = s.drawn goal ∧ root.NumberedFrom s.nextId ∧
      s'.nextId.toNat = s.nextId.toNat + s.drawn goal := by
  obtain ⟨walk, rest, gives, rfl, rfl⟩ := ask_eq_ok.mp answers
  exact Goal.numbers gives s.nextId room

/-- A request that fails leaves the counter behind the nodes it had completed. -/
theorem ask_error_nextId {e : SyntaxError} (answers : s.ask goal = (.error e, s')) :
    s'.nextId = s.nextId + (s.drawn goal).toUInt64 := by
  unfold drawn
  unfold ask at answers
  cases same : goal.parse s.rest with
  | ok walk rest made shorter =>
      rw [same] at answers
      cases (Prod.mk.inj answers).1
  | fail expected rest made =>
      rw [same] at answers
      exact (congrArg nextId (Prod.mk.inj answers).2).symm

end Session

/-- **The identifiers of a tree are an interval that starts at the counter.**  Whatever was
asked of a session before, and wherever others that number from its counter have moved it,
a request that is answered with a tree gives out the identifiers from the counter on, one
for each node, as `Node.NumberedFrom` says, and leaves the counter behind them.  A request
that fails moves the counter forward, behind the nodes it had completed.  The counter must
have an identifier for every node that the request completes. -/
theorem ask_identifiers (tokens : List Token) (start : NodeId) (events : List Session.Event)
    (goal : Goal) :
    let s := events.foldl Session.after (.ofTokens tokens start)
    s.nextId.toNat + s.drawn goal < UInt64.size →
      match s.ask goal with
      | (.ok root, s') =>
          root.NumberedFrom s.nextId ∧ root.count = s.drawn goal ∧
            s'.nextId.toNat = s.nextId.toNat + root.count
      | (.error _, s') =>
          s.nextId ≤ s'.nextId ∧ s'.nextId.toNat = s.nextId.toNat + s.drawn goal := by
  intro s room
  cases answers : s.ask goal with
  | mk answer s' =>
      cases answer with
      | ok root =>
          obtain ⟨count, numbered, moved⟩ := Session.ask_ok_numbered answers room
          exact ⟨numbered, count, count ▸ moved⟩
      | error e =>
          have moved : s'.nextId.toNat = s.nextId.toNat + s.drawn goal := by
            have small : (s.drawn goal).toUInt64.toNat = s.drawn goal :=
              UInt64.toNat_ofNat_of_lt' (by omega)
            rw [Session.ask_error_nextId answers, UInt64.toNat_add, small]
            exact Nat.mod_eq_of_lt room
          exact ⟨UInt64.le_iff_toNat_le.mpr (by omega), moved⟩

/-- Behind an enumeration that breaks off after its name, whose terminal is lost, a declaration
is numbered from two. -/
theorem ask_identifiers_after_failure :
    let tokens := [TokenKind.kwEnum, .identifier, .kwInt, .leftBracket, .intLiteral, .rightBracket,
      .identifier, .semicolon, .eof].map TokenKind.token
    let s := [Session.Event.ask .program].foldl Session.after (.ofTokens tokens 1)
    s.error?.isSome ∧ s.nextId.toNat + s.drawn .statement < UInt64.size ∧
      ∃ root s', s.ask .statement = (.ok root, s') ∧ root.NumberedFrom 2 ∧
        s'.nextId.toNat = 10 := by
  intro tokens s
  have failed : s.error?.isSome := by decide +kernel
  have next : s.nextId = 2 := by decide +kernel
  have room : s.nextId.toNat + s.drawn .statement < UInt64.size := by decide +kernel
  have ok : (s.ask .statement).1.isOk := by decide +kernel
  obtain ⟨root, s', answers⟩ := Session.exists_of_isOk ok
  have numbered := ask_identifiers tokens 1 [.ask .program] .statement room
  rw [answers] at numbered
  obtain ⟨interval, count, moved⟩ := numbered
  refine ⟨failed, room, root, s', answers, next ▸ interval, ?_⟩
  rw [moved, count]
  decide +kernel

end BlockSyntax
