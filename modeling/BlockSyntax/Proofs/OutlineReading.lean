import BlockSyntax.Proofs.Decimals
import BlockSyntax.Proofs.NodeNames
import BlockSyntax.Text.Character
import BlockSyntax.Tree.Outline

/-!
# An outline is read back

An outline shows of each node the name, the identifier and the depth, and nothing else; what can
be read back is the tree of names and identifiers (`Node.sketch`).  It is read from the last line
to the first: a line is put in front of the trees that are already read, and those right behind
it that lie deeper are below it (`Outline.plant`).  That this gives the tree back needs nothing
of the names (`Outline.foldr_plant`).  They matter where a line is taken apart: the indentation
ends at the name only if the name does not start with a blank, and the line ends at the line feed
only if there is none inside.  Parentheses and digits inside a name do no harm, because the
identifier is read from the end of the line.
-/

set_option autoImplicit false

namespace BlockSyntax

/-- What an outline shows of a tree: names, identifiers, and what is below what. -/
inductive Sketch where
  /-- A node over the nodes below it, in order. -/
  | node (name : Bytes) (id : NodeId) (below : List Sketch)

namespace Node

mutual

/-- What an outline shows of a tree. -/
def sketch : Node → Sketch
  | terminal i label _ => .node label i []
  | list i label items => .node label i (sketches items)
  | construct i form parts => .node form.name i (sketches parts)

/-- What outlines show of several trees. -/
def sketches : List Node → List Sketch
  | [] => []
  | n :: ns => sketch n :: sketches ns

end

mutual

/-- The nodes of a tree whose root lies at a depth, in preorder and with the depth of each. -/
def withDepths (depth : Nat) (n : Node) : List (Nat × Node) :=
  (depth, n) :: match n with
    | terminal _ _ _ => []
    | list _ _ items => withDepthsAll (depth + 1) items
    | construct _ _ parts => withDepthsAll (depth + 1) parts

/-- The nodes of several trees whose roots lie at the same depth. -/
def withDepthsAll (depth : Nat) : List Node → List (Nat × Node)
  | [] => []
  | n :: ns => withDepths depth n ++ withDepthsAll depth ns

end

mutual

theorem map_snd_withDepths : ∀ (n : Node) (depth : Nat),
    (n.withDepths depth).map Prod.snd = n.preorder
  | terminal _ _ _, _ => rfl
  | list _ _ items, depth => by
      rw [withDepths, preorder, List.map_cons, map_snd_withDepthsAll items]
  | construct _ _ parts, depth => by
      rw [withDepths, preorder, List.map_cons, map_snd_withDepthsAll parts]

theorem map_snd_withDepthsAll : ∀ (ns : List Node) (depth : Nat),
    (withDepthsAll depth ns).map Prod.snd = preorderAll ns
  | [], _ => rfl
  | n :: ns, depth => by
      rw [withDepthsAll, preorderAll, List.map_append, map_snd_withDepths n,
        map_snd_withDepthsAll ns]

end

mutual

theorem length_preorder : ∀ n : Node, n.preorder.length = n.count
  | terminal _ _ _ => rfl
  | list _ _ items => by rw [preorder, count, List.length_cons, length_preorderAll items]
  | construct _ _ parts => by rw [preorder, count, List.length_cons, length_preorderAll parts]

theorem length_preorderAll : ∀ ns : List Node, (preorderAll ns).length = countAll ns
  | [] => rfl
  | n :: ns => by
      rw [preorderAll, countAll, List.length_append, length_preorder n, length_preorderAll ns]

end

theorem length_withDepths (n : Node) (depth : Nat) : (n.withDepths depth).length = n.count := by
  rw [← length_preorder, ← map_snd_withDepths n depth, List.length_map]

end Node

namespace Outline

/-- A stretch ends in front of the first element that does not belong to it. -/
theorem stretch_append {α : Type} {p : α → Bool} {front rest : List α} (all : ∀ a ∈ front, p a)
    (stops : ∀ a ∈ rest.head?, ¬ p a) :
    (front ++ rest).takeWhile p = front ∧ (front ++ rest).dropWhile p = rest := by
  rw [List.takeWhile_append_of_pos all, List.dropWhile_append_of_pos all]
  cases rest with
  | nil => exact ⟨List.append_nil _, rfl⟩
  | cons a rest =>
      have other := stops a rfl
      rw [List.takeWhile_cons_of_neg other, List.dropWhile_cons_of_neg other]
      exact ⟨List.append_nil _, rfl⟩

/-! ## Lines -/

/-- The lines of a text in which every line ends with a line feed. -/
def lines (text : Bytes) : List Bytes := (text.splitOn lineFeed).dropLast

/-- Lines that are each ended with a line feed. -/
def ended (ls : List Bytes) : Bytes := ls.flatMap (· ++ [lineFeed])

theorem ended_cons (l : Bytes) (ls : List Bytes) : ended (l :: ls) = l ++ [lineFeed] ++ ended ls :=
  List.flatMap_cons

theorem ended_append (ls ms : List Bytes) : ended (ls ++ ms) = ended ls ++ ended ms :=
  List.flatMap_append

theorem ended_eq_intercalate (ls : List Bytes) :
    ended ls = [lineFeed].intercalate (ls ++ [[]]) := by
  induction ls with
  | nil => rfl
  | cons l ls ih =>
      rw [ended_cons, ih, List.cons_append,
        List.intercalate_cons_of_ne_nil (List.concat_ne_nil _ _)]

theorem lines_ended {ls : List Bytes} (whole : ∀ l ∈ ls, lineFeed ∉ l) : lines (ended ls) = ls := by
  have all : ∀ l ∈ ls ++ [[]], lineFeed ∉ l := by
    simpa [or_imp, forall_and] using whole
  rw [lines, ended_eq_intercalate,
    List.splitOn_intercalate lineFeed all (List.concat_ne_nil _ _), List.dropLast_concat]

/-- What stands between a name and an identifier. -/
def mark : Bytes := ascii " (ID: "

/-- The text of a node: its name and its identifier. -/
def title (n : Node) : Bytes := n.name ++ (mark ++ (decimal n.id.toNat ++ [byte ')']))

/-- The line of a node that lies at a depth, without the line feed. -/
def line (placed : Nat × Node) : Bytes :=
  List.replicate (2 * placed.1) (byte ' ') ++ title placed.2

theorem outlineLine_eq (depth : Nat) (n : Node) :
    n.outlineLine depth = line (depth, n) ++ [lineFeed] := by
  simp only [Node.outlineLine, line, title, mark, List.append_assoc, List.cons_append,
    List.nil_append]

mutual

theorem writeOutline_eq : ∀ (n : Node) (depth : Nat) (after : Bytes),
    n.writeOutline depth after = ended ((n.withDepths depth).map line) ++ after
  | .terminal i label t, depth, after => by
      rw [Node.writeOutline, Node.withDepths, outlineLine_eq, List.map_singleton, ended_cons]
      exact congrArg (· ++ after) (List.append_nil _).symm
  | .list i label items, depth, after => by
      rw [Node.writeOutline, Node.withDepths, outlineLine_eq, writeOutlines_eq items, List.map_cons,
        ended_cons, List.append_assoc _ _ after]
  | .construct i form parts, depth, after => by
      rw [Node.writeOutline, Node.withDepths, outlineLine_eq, writeOutlines_eq parts, List.map_cons,
        ended_cons, List.append_assoc _ _ after]

theorem writeOutlines_eq : ∀ (ns : List Node) (depth : Nat) (after : Bytes),
    Node.writeOutlines depth ns after = ended ((Node.withDepthsAll depth ns).map line) ++ after
  | [], _, _ => rfl
  | n :: ns, depth, after => by
      rw [Node.writeOutlines, writeOutline_eq n, writeOutlines_eq ns, Node.withDepthsAll,
        List.map_append, ended_append, List.append_assoc]

end

/-- An outline is one line for each node, in preorder. -/
theorem outline_eq (n : Node) : n.outline = ended ((n.withDepths 0).map line) := by
  rw [Node.outline, writeOutline_eq, List.append_nil]

/-! ## Reading a line -/

/-- A name that can be told from the rest of its line. -/
structure Legible (name : Bytes) : Prop where
  /-- There is a name. -/
  named : name ≠ []
  /-- It stays on its line. -/
  oneLine : lineFeed ∉ name
  /-- It does not look like indentation. -/
  flush : name.head? ≠ some (byte ' ')

instance : DecidablePred Legible := fun name =>
  decidable_of_iff (name ≠ [] ∧ lineFeed ∉ name ∧ name.head? ≠ some (byte ' '))
    ⟨fun ⟨named, oneLine, flush⟩ => ⟨named, oneLine, flush⟩,
      fun legible => ⟨legible.named, legible.oneLine, legible.flush⟩⟩

/-- The number of blanks a line starts with. -/
def indentation (text : Bytes) : Nat := (text.takeWhile (· == byte ' ')).length

/-- The name and the identifier in the text of a node, read from its end. -/
def readTitle (text : Bytes) : Bytes × NodeId :=
  let back := text.dropLast.reverse
  (((back.dropWhile Character.isDigit).drop mark.length).reverse,
    .ofNat (numeral (back.takeWhile Character.isDigit).reverse))

/-- The depth, the name and the identifier in a line. -/
def readLine (text : Bytes) : Nat × Bytes × NodeId :=
  (indentation text / 2, readTitle (text.dropWhile (· == byte ' ')))

theorem isDigit_of_mem_digits {n : Nat} : ∀ b ∈ (decimal n).reverse, Character.isDigit b := by
  intro b mem
  have digit := isDigit_of_mem_decimal b (List.mem_reverse.mp mem)
  simpa [Character.isDigit, IsDigit] using digit

/-- A title gives back its name and its identifier, whatever the name is. -/
theorem readTitle_title (n : Node) : readTitle (title n) = (n.name, n.id) := by
  -- Read backwards, the digits end at the blank that ends the mark.
  have back : (title n).dropLast.reverse =
      (decimal n.id.toNat).reverse ++ (mark.reverse ++ n.name.reverse) := by
    rw [title, ← List.append_assoc, ← List.append_assoc, List.dropLast_concat, List.reverse_append,
      List.reverse_append]
  have stops : ∀ b ∈ (mark.reverse ++ n.name.reverse).head?, ¬ Character.isDigit b := by
    intro b first
    obtain rfl : byte ' ' = b := Option.some.inj first
    decide
  obtain ⟨digits, front⟩ := stretch_append isDigit_of_mem_digits stops
  rw [readTitle, back, digits, front, List.drop_left' (List.length_reverse), List.reverse_reverse,
    List.reverse_reverse, numeral_decimal, UInt64.ofNat_toNat]

/-- The blanks in front of a line are its indentation. -/
theorem line_stretch (depth : Nat) {n : Node} (legible : Legible n.name) :
    (line (depth, n)).takeWhile (· == byte ' ') = List.replicate (2 * depth) (byte ' ') ∧
      (line (depth, n)).dropWhile (· == byte ' ') = title n := by
  refine stretch_append (by simp) ?_
  intro b first
  obtain ⟨c, rest, name⟩ := List.exists_cons_of_ne_nil legible.named
  have flush := legible.flush
  rw [title, name] at first
  obtain rfl := Option.some.inj first
  rw [name, List.head?_cons] at flush
  simpa using flush

/-- **The indentation of a line is twice the depth of its node.** -/
theorem indentation_line {depth : Nat} {n : Node} (legible : Legible n.name) :
    indentation (line (depth, n)) = 2 * depth := by
  rw [indentation, (line_stretch depth legible).1, List.length_replicate]

theorem readLine_line {depth : Nat} {n : Node} (legible : Legible n.name) :
    readLine (line (depth, n)) = (depth, n.name, n.id) := by
  rw [readLine, indentation_line legible, (line_stretch depth legible).2, readTitle_title,
    Nat.mul_div_cancel_left depth (by decide)]

theorem lineFeed_not_mem_line {depth : Nat} {n : Node} (legible : Legible n.name) :
    lineFeed ∉ line (depth, n) := by
  have noDigit : lineFeed ∉ decimal n.id.toNat := fun mem =>
    absurd (isDigit_of_mem_decimal _ mem) (by unfold IsDigit; decide)
  have noMark : lineFeed ∉ mark := by decide
  have others : lineFeed ≠ byte ' ' ∧ lineFeed ≠ byte ')' := by decide
  simp [line, title, legible.oneLine, noDigit, noMark, others]

/-! ## Growing the trees -/

/-- Puts a node in front of trees that are placed behind it: those right behind it that lie
deeper are below it. -/
def plant (head : Nat × Bytes × NodeId) (behind : List (Nat × Sketch)) : List (Nat × Sketch) :=
  (head.1, .node head.2.1 head.2.2 ((behind.takeWhile fun p => head.1 < p.1).map Prod.snd)) ::
    behind.dropWhile fun p => head.1 < p.1

/-- The trees of an outline. -/
def read (text : Bytes) : List Sketch :=
  (((lines text).map readLine).foldr plant []).map Prod.snd

/-- What a line shows of a node that lies at a depth. -/
def shown (placed : Nat × Node) : Nat × Bytes × NodeId := (placed.1, placed.2.name, placed.2.id)

/-- Trees at one depth, as `plant` keeps them. -/
def placed (depth : Nat) (trees : List Sketch) : List (Nat × Sketch) := trees.map (depth, ·)

/-- The trees behind lie no deeper. -/
def NoDeeper (depth : Nat) (behind : List (Nat × Sketch)) : Prop := ∀ p ∈ behind.head?, p.1 ≤ depth

theorem plant_placed {depth : Nat} {name : Bytes} {id : NodeId} (below : List Sketch)
    {behind : List (Nat × Sketch)} (stops : NoDeeper depth behind) :
    plant (depth, name, id) (placed (depth + 1) below ++ behind) =
      (depth, .node name id below) :: behind := by
  have deeper : ∀ p ∈ placed (depth + 1) below, decide (depth < p.1) = true := by
    simp [placed]
  have other : ∀ p ∈ behind.head?, ¬ decide (depth < p.1) = true := by
    intro p first
    simpa using stops p first
  obtain ⟨taken, left⟩ := stretch_append deeper other
  have trees : (placed (depth + 1) below).map Prod.snd = below := by
    simp [placed, Function.comp_def]
  rw [plant, taken, left, trees]

mutual

/-- **The lines of a tree grow into the tree**, in front of trees that lie no deeper. -/
theorem foldr_plant : ∀ (n : Node) (depth : Nat) (behind : List (Nat × Sketch)),
    NoDeeper depth behind →
      ((n.withDepths depth).map shown).foldr plant behind = (depth, n.sketch) :: behind
  | .terminal i label t, depth, behind, stops => by
      rw [Node.withDepths, List.map_singleton, List.foldr_cons, List.foldr_nil]
      exact plant_placed [] stops
  | .list i label items, depth, behind, stops => by
      have deeper : NoDeeper (depth + 1) behind := fun p mem => Nat.le_succ_of_le (stops p mem)
      rw [Node.withDepths, List.map_cons, List.foldr_cons, foldr_plant_all items _ _ deeper,
        Node.sketch]
      exact plant_placed _ stops
  | .construct i form parts, depth, behind, stops => by
      have deeper : NoDeeper (depth + 1) behind := fun p mem => Nat.le_succ_of_le (stops p mem)
      rw [Node.withDepths, List.map_cons, List.foldr_cons, foldr_plant_all parts _ _ deeper,
        Node.sketch]
      exact plant_placed _ stops

theorem foldr_plant_all : ∀ (ns : List Node) (depth : Nat) (behind : List (Nat × Sketch)),
    NoDeeper depth behind →
      ((Node.withDepthsAll depth ns).map shown).foldr plant behind =
        placed depth (Node.sketches ns) ++ behind
  | [], _, _, _ => rfl
  | n :: ns, depth, behind, stops => by
      have level : NoDeeper depth (placed depth (Node.sketches ns) ++ behind) := by
        cases ns with
        | nil => exact stops
        | cons m ms => exact fun p mem => (Option.some.inj mem ▸ Nat.le_refl _)
      rw [Node.withDepthsAll, List.map_append, List.foldr_append, foldr_plant_all ns _ _ stops,
        foldr_plant n _ _ level, Node.sketches]
      rfl

end

end Outline

open Outline

/-! ## Trees with legible names -/

/-- The names in a tree can be told from the rest of their lines. -/
def Node.LegibleNames (n : Node) : Prop := ∀ s ∈ n.preorder.map name, Legible s

instance : DecidablePred Node.LegibleNames := fun n =>
  inferInstanceAs (Decidable (∀ s ∈ n.preorder.map Node.name, Legible s))

namespace Node

variable {n : Node}

theorem LegibleNames.legible (legible : n.LegibleNames) {p : Nat × Node}
    (inside : p ∈ n.withDepths 0) : Legible p.2.name := by
  refine legible _ (List.mem_map_of_mem ?_)
  rw [← map_snd_withDepths n 0]
  exact List.mem_map_of_mem inside

/-- The names a parse uses are legible. -/
theorem KnownNames.legible (known : n.KnownNames) : n.LegibleNames := by
  have all : ∀ s ∈ vocabulary, Legible s := by decide +kernel
  exact fun s mem => all s (known s mem)

theorem LegibleNames.lines_outline (legible : n.LegibleNames) :
    lines n.outline = (n.withDepths 0).map line := by
  rw [outline_eq]
  refine lines_ended (List.forall_mem_map.mpr ?_)
  intro p inside
  exact lineFeed_not_mem_line (legible.legible inside)

theorem LegibleNames.read_outline (legible : n.LegibleNames) :
    Outline.read n.outline = [n.sketch] := by
  have heads : ((n.withDepths 0).map line).map readLine = (n.withDepths 0).map shown := by
    rw [List.map_map]
    exact List.map_congr_left fun p inside => readLine_line (legible.legible inside)
  rw [Outline.read, legible.lines_outline, heads, foldr_plant n 0 [] nofun]
  rfl

/-- An outline that shows a tree and lets it be read back. -/
structure ShownBy (n : Node) (text : Bytes) : Prop where
  /-- The text is its lines, each with a line feed at its end. -/
  ends : text = ended (lines text)
  /-- There is a line for each node. -/
  counts : (lines text).length = n.count
  /-- The nodes with their depths are those of the preorder. -/
  order : (n.withDepths 0).map Prod.snd = n.preorder
  /-- Each line is that of its node, -/
  each : lines text = (n.withDepths 0).map line
  /-- and its indentation is twice the depth. -/
  indents : (lines text).map indentation = (n.withDepths 0).map (2 * ·.1)
  /-- The tree is read back. -/
  reads : Outline.read text = [n.sketch]

/-- The outline of a tree with legible names shows the tree. -/
theorem LegibleNames.shownBy (legible : n.LegibleNames) : n.ShownBy n.outline where
  ends := by rw [legible.lines_outline, outline_eq]
  counts := by rw [legible.lines_outline, List.length_map, length_withDepths]
  order := map_snd_withDepths n 0
  each := legible.lines_outline
  indents := by
    rw [legible.lines_outline, List.map_map]
    exact List.map_congr_left fun p inside => indentation_line (legible.legible inside)
  reads := legible.read_outline

/-- **An outline determines the tree it shows**: it has one line for each node, in preorder and
indented by twice the depth, and names, identifiers and the order of the nodes are read back from
it, so that trees with the same outline look the same.  This takes names that are not empty, have
no line feed inside and do not start with a blank; the trees that a session answers with have
such names. -/
theorem outline_determines_tree :
    (∀ (s s' : Session) (goal : Goal) (root : Node), s.ask goal = (.ok root, s') →
      root.LegibleNames) ∧
    ∀ n : Node, n.LegibleNames → n.ShownBy n.outline ∧
      ∀ m : Node, m.LegibleNames → n.outline = m.outline → n.sketch = m.sketch := by
  refine ⟨fun s s' goal root answers => (Session.ask_knownNames answers).legible, ?_⟩
  intro n legible
  refine ⟨legible.shownBy, ?_⟩
  intro m legible' same
  have one : [m.sketch] = [n.sketch] := by
    rw [← legible'.read_outline, ← same, legible.read_outline]
  exact (List.singleton_inj.mp one).symm

/-- A tree whose names look like the text around them. -/
def disguised (t : Token) : Node :=
  .list 12 (ascii "a (ID: 3)") [.list 3 (ascii ")  b") [.terminal 7 (ascii "4)") t],
    .construct 0 .block [], .terminal 7 (ascii "(ID: ") t]

/-- Such names do no harm.  A statement that a session has read comes out as three lines. -/
theorem outline_determines_tree_disguised :
    let s := Session.ofTokens [TokenKind.kwReturn.token, TokenKind.intLiteral.token,
      TokenKind.semicolon.token] 1
    (disguised TokenKind.kwReturn.token).LegibleNames ∧
      Outline.read (disguised TokenKind.kwReturn.token).outline =
        [.node (ascii "a (ID: 3)") 12 [.node (ascii ")  b") 3 [.node (ascii "4)") 7 []],
          .node (ascii "Block") 0 [], .node (ascii "(ID: ") 7 []]] ∧
      ∃ root s', s.ask .statement = (.ok root, s') ∧
        (Outline.lines root.outline).map Outline.indentation = [0, 2, 4] := by
  intro s
  have legible : (disguised TokenKind.kwReturn.token).LegibleNames := by decide +kernel
  have depths : (s.ask .statement).1.toOption.map (fun root => (root.withDepths 0).map (2 * ·.1)) =
      some [0, 2, 4] := by decide +kernel
  refine ⟨legible, (outline_determines_tree.2 _ legible).1.reads, ?_⟩
  have ok : (s.ask .statement).1.isOk := by decide +kernel
  obtain ⟨root, s', asked⟩ := Session.exists_of_isOk ok
  rw [asked] at depths
  have names := outline_determines_tree.1 s s' .statement root asked
  refine ⟨root, s', asked, ?_⟩
  rw [(outline_determines_tree.2 root names).1.indents]
  exact Option.some.inj depths

end Node

end BlockSyntax
