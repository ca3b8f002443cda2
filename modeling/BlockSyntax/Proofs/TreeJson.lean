import BlockSyntax.Proofs.JsonReading
import BlockSyntax.Tree.Json
import Mathlib.Data.List.Nodup

/-!
# The JSON of a tree

What JSON shows of a tree is its identifiers, its names, its tokens without their files, and
which node is below which (`NodeView`).  The text of a tree, in either layout, is JSON for
exactly one value, and that value shows the tree: an object for each node, with its identifier,
its name and then its token or the nodes below it.  **So trees with the same text are the same
tree** as far as JSON shows it (`renderJson_decodes`).
-/

set_option autoImplicit false

namespace BlockSyntax

/-- What is shown of a tree. -/
inductive NodeView where
  /-- A terminal and its token, without the file it is in. -/
  | terminal (id : NodeId) (name : Bytes) (kind : TokenKind) (lexeme : Bytes)
      (line column : UInt32)
  /-- A list or a construct, and the nodes below it. -/
  | inner (id : NodeId) (name : Bytes) (children : List NodeView)

namespace Node

mutual

/-- What is shown of a tree. -/
def view : Node → NodeView
  | terminal i label t =>
    .terminal i label t.kind t.lexeme t.location.line t.location.column
  | list i label items => .inner i label (views items)
  | construct i c parts => .inner i c.name (views parts)

/-- What is shown of several trees. -/
def views : List Node → List NodeView
  | [] => []
  | n :: ns => view n :: views ns

end

end Node

namespace NodeView

open JsonValue (number text array object)

mutual

/-- The JSON value that shows a tree: an object with the identifier and the name of its root,
and then the token of a terminal, or the nodes below another node if there are any. -/
def value : NodeView → JsonValue
  | terminal i label kind lexeme line column =>
    object [(ascii "id", number i.toNat), (ascii "name", text label),
      (ascii "token", object [(ascii "type", text kind.name), (ascii "lexeme", text lexeme),
        (ascii "line", number line.toNat), (ascii "col", number column.toNat)])]
  | inner i label [] => object [(ascii "id", number i.toNat), (ascii "name", text label)]
  | inner i label (v :: vs) =>
    object [(ascii "id", number i.toNat), (ascii "name", text label),
      (ascii "children", array (value v :: values vs))]

/-- The JSON values that show several trees. -/
def values : List NodeView → List JsonValue
  | [] => []
  | v :: vs => value v :: values vs

end

/-! ## A value shows one tree -/

theorem kind_name_injective {k k' : TokenKind} (same : k.name = k'.name) : k = k' := by
  have distinct : (TokenKind.all.map TokenKind.name).Nodup := by decide +kernel
  have listed : ∀ k, k ∈ TokenKind.all := by
    intro k
    cases k <;> decide
  exact List.inj_on_of_nodup_map distinct (listed k) (listed k') same

mutual

/-- **The value determines what it shows.** -/
theorem value_injective : ∀ {v v' : NodeView}, v.value = v'.value → v = v'
  | terminal .., terminal .., same => by
      simp only [value, object.injEq, List.cons.injEq, Prod.mk.injEq, number.injEq, text.injEq,
        Nat.cast_inj, UInt64.toNat_inj, UInt32.toNat_inj] at same
      obtain ⟨⟨_, rfl⟩, ⟨_, rfl⟩, ⟨_, ⟨_, kinds⟩, ⟨_, rfl⟩, ⟨_, rfl⟩, ⟨_, rfl⟩, _⟩, _⟩ := same
      rw [kind_name_injective kinds]
  | inner _ _ [], inner _ _ [], same => by
      simp only [value, object.injEq, List.cons.injEq, Prod.mk.injEq, number.injEq, text.injEq,
        Nat.cast_inj, UInt64.toNat_inj] at same
      obtain ⟨⟨_, rfl⟩, ⟨_, rfl⟩, _⟩ := same
      rfl
  | inner _ _ (v :: vs), inner _ _ (v' :: vs'), same => by
      simp only [value, object.injEq, List.cons.injEq, Prod.mk.injEq, number.injEq, text.injEq,
        array.injEq, Nat.cast_inj, UInt64.toNat_inj] at same
      obtain ⟨⟨_, rfl⟩, ⟨_, rfl⟩, ⟨_, first, others⟩, _⟩ := same
      rw [value_injective first, values_injective others]
  | terminal .., inner _ _ (_ :: _), same | inner _ _ (_ :: _), terminal .., same => by
      simp only [value, object.injEq, List.cons.injEq, Prod.mk.injEq] at same
      exact absurd same.2.2.1.1 (by decide)
  | terminal .., inner _ _ [], same | inner _ _ [], terminal .., same
  | inner _ _ [], inner _ _ (_ :: _), same | inner _ _ (_ :: _), inner _ _ [], same => by
      simp [value] at same

theorem values_injective : ∀ {vs vs' : List NodeView}, values vs = values vs' → vs = vs'
  | [], [], _ => rfl
  | v :: vs, v' :: vs', same => by
      simp only [values, List.cons.injEq] at same
      rw [value_injective same.1, values_injective same.2]

end

end NodeView

namespace Node

open JsonValue (number text array object)

/-- The object of a list or a construct shows it, if the objects below show theirs. -/
theorem value_inner {i : NodeId} {label : Bytes} {items : List Node}
    (below : Json.values (toJsonAll items) = NodeView.values (views items)) :
    (Json.object ((ascii "id", .number i.toNat) :: (ascii "name", .text label) ::
      childrenMember (toJsonAll items))).value = (NodeView.inner i label (views items)).value := by
  cases items with
  | nil => rfl
  | cons n ns =>
      exact congrArg (fun vs => object [(ascii "id", number i.toNat), (ascii "name", text label),
        (ascii "children", array vs)]) below

mutual

/-- The object of a tree shows it. -/
theorem value_toJson : ∀ n : Node, n.toJson.value = n.view.value
  | terminal .. => rfl
  | list _ _ items => value_inner (values_toJsonAll items)
  | construct _ _ parts => value_inner (values_toJsonAll parts)

theorem values_toJsonAll : ∀ ns : List Node,
    Json.values (toJsonAll ns) = NodeView.values (views ns)
  | [] => rfl
  | n :: ns => by
      rw [toJsonAll, Json.values, views, NodeView.values, value_toJson n, values_toJsonAll ns]

end

end Node

/-- **The text of a tree decodes back to the tree**: it is JSON for the value that shows the
tree and for no other, and only trees that look the same have the same text, in whatever
layouts they are written. -/
theorem renderJson_decodes (layout : Json.Layout) (n : Node) :
    (∀ w, JsonValue.IsText w (n.renderJson layout) ↔ w = n.view.value) ∧
      ∀ (layout' : Json.Layout) (m : Node), m.renderJson layout' = n.renderJson layout →
        m.view = n.view := by
  have decodes : ∀ (layout : Json.Layout) (n : Node) (w : JsonValue),
      JsonValue.IsText w (n.renderJson layout) ↔ w = n.view.value := by
    intro layout n w
    rw [Node.renderJson, Json.isText_render, Node.value_toJson]
  refine ⟨decodes layout n, ?_⟩
  intro layout' m same
  have shown := (decodes layout' m m.view.value).mpr rfl
  rw [same] at shown
  exact NodeView.value_injective ((decodes layout n _).mp shown)

end BlockSyntax
