import BlockSyntax.Proofs.JsonReading
import BlockSyntax.Proofs.PlainJson
import BlockSyntax.Tree.Json

/-!
# The two layouts of JSON

A cursor goes over a JSON text and knows at every byte whether that is inside a string literal
and which brackets are open (`Json.Cursor`).  It is told by quotation marks, backslashes and
brackets alone and knows nothing of how texts are written.

**The two layouts differ in nothing but blanks and line feeds outside of string literals**
(`Json.squeeze_render`).  The writer puts these in front of elements and behind separators, and
whatever is in a string stands in it as in the other layout: this holds of each part that is
written, and so of the whole (`Json.write_keeps`).

**In the pretty layout a line starts with two blanks for each open bracket** that it does not close
at once (`Json.indented_render`).  The depth that the writer keeps is the number of brackets that
the cursor has seen opened and not yet closed, and this goes along with the writing of a value.
-/

set_option autoImplicit false

namespace BlockSyntax.Json

/-! ## Going over a text -/

/-- Where in a JSON text a byte is. -/
inductive Place where
  /-- Outside of string literals. -/
  | outside
  /-- In a string literal. -/
  | inside
  /-- In a string literal, behind the backslash of an escape. -/
  | escaped
  deriving DecidableEq

namespace Place

/-- The place behind a byte. -/
def step : Place → UInt8 → Place
  | outside, b => if b = byte '"' then inside else outside
  | inside, b => if b = byte '"' then outside else if b = byte '\\' then escaped else inside
  | escaped, _ => inside

end Place

/-- The pairs of brackets. -/
def brackets : List (UInt8 × UInt8) := [(byte '[', byte ']'), (byte '\x7b', byte '\x7d')]

/-- A byte closes a bracket. -/
def Closes (b : UInt8) : Prop := b ∈ brackets.map Prod.snd

instance : DecidablePred Closes := fun b => inferInstanceAs (Decidable (b ∈ brackets.map Prod.snd))

/-- The open brackets behind a byte that opens none, the innermost first.  It closes the innermost
one if the two are a pair. -/
def closeInnermost (b : UInt8) : Bytes → Bytes
  | [] => []
  | innermost :: others => if (innermost, b) ∈ brackets then others else innermost :: others

/-- The open brackets behind a byte, the innermost first. -/
def nest (opened : Bytes) (b : UInt8) : Bytes :=
  if b ∈ brackets.map Prod.fst then b :: opened else closeInnermost b opened

/-- A place in a JSON text with the brackets that are open there. -/
structure Cursor where
  /-- Whether the place is in a string literal. -/
  place : Place
  /-- The brackets outside of string literals that are still open, the innermost first. -/
  opened : Bytes

namespace Cursor

/-- The start of a text. -/
def start : Cursor := ⟨.outside, []⟩

/-- The cursor behind a byte. -/
def step (c : Cursor) (b : UInt8) : Cursor :=
  ⟨c.place.step b, if c.place = .outside then nest c.opened b else c.opened⟩

/-- The cursor behind a text. -/
def behind (c : Cursor) (text : Bytes) : Cursor := text.foldl step c

@[simp] theorem behind_nil (c : Cursor) : c.behind [] = c := rfl

@[simp] theorem behind_cons (c : Cursor) (b : UInt8) (text : Bytes) :
    c.behind (b :: text) = (c.step b).behind text := rfl

theorem behind_append (c : Cursor) (front back : Bytes) :
    c.behind (front ++ back) = (c.behind front).behind back :=
  List.foldl_append

end Cursor

/-- The text without the given bytes where they are outside of string literals. -/
def squeeze (dropped : Bytes) (c : Cursor) : Bytes → Bytes
  | [] => []
  | b :: more =>
    if c.place = .outside ∧ b ∈ dropped then squeeze dropped (c.step b) more
    else b :: squeeze dropped (c.step b) more

theorem squeeze_append (dropped : Bytes) (c : Cursor) (front back : Bytes) :
    squeeze dropped c (front ++ back) =
      squeeze dropped c front ++ squeeze dropped (c.behind front) back := by
  induction front generalizing c with
  | nil => rfl
  | cons b front ih =>
      rw [List.cons_append, squeeze, squeeze, ih, Cursor.behind_cons]
      split
      case isTrue => rfl
      case isFalse => rfl

/-! ## Over the parts of a value -/

section Parts

variable {opened dropped : Bytes} {b : UInt8} {text : Bytes}

theorem nest_other (other : b ∉ ascii "[]\x7b\x7d") : nest opened b = opened := by
  have listed : ∀ pair ∈ brackets, pair.1 ∈ ascii "[]\x7b\x7d" ∧ pair.2 ∈ ascii "[]\x7b\x7d" :=
    List.all_iff_forall_prop.mp (by decide)
  have opens : b ∉ brackets.map Prod.fst := by
    intro inside
    obtain ⟨pair, isPair, rfl⟩ := List.mem_map.mp inside
    exact other (listed pair isPair).1
  rw [nest, if_neg opens]
  cases opened with
  | nil => rfl
  | cons innermost others => exact if_neg fun isPair => other (listed _ isPair).2

theorem nest_pair {o : UInt8} (isPair : (o, b) ∈ brackets) : nest (o :: opened) b = opened := by
  have noOpener : ∀ pair ∈ brackets, pair.2 ∉ brackets.map Prod.fst :=
    List.all_iff_forall_prop.mp (by decide)
  rw [nest, if_neg (noOpener _ isPair)]
  exact if_pos isPair

/-! ### Numbers, separators and line breaks -/

/-- A byte that neither starts a literal nor is a bracket. -/
def IsCalm (b : UInt8) : Prop := b ∉ ascii "[]\x7b\x7d" ∧ b ≠ byte '"'

/-- A text of such bytes. -/
def Calm (text : Bytes) : Prop := ∀ b ∈ text, IsCalm b

instance : DecidablePred IsCalm := fun b =>
  inferInstanceAs (Decidable (b ∉ ascii "[]\x7b\x7d" ∧ b ≠ byte '"'))

instance : DecidablePred Calm := fun text => List.decidableBAll IsCalm text

theorem step_calm (calm : IsCalm b) :
    (⟨.outside, opened⟩ : Cursor).step b = ⟨.outside, opened⟩ := by
  rw [Cursor.step, if_pos rfl, nest_other calm.1, Place.step, if_neg calm.2]

/-- Calm bytes change nothing. -/
theorem behind_calm (calm : Calm text) :
    (⟨.outside, opened⟩ : Cursor).behind text = ⟨.outside, opened⟩ := by
  induction text with
  | nil => rfl
  | cons b text ih =>
      obtain ⟨first, others⟩ := List.forall_mem_cons.mp calm
      rw [Cursor.behind_cons, step_calm first, ih others]

theorem squeeze_calm (calm : Calm text) :
    squeeze dropped ⟨.outside, opened⟩ text = text.filter (· ∉ dropped) := by
  induction text with
  | nil => rfl
  | cons b text ih =>
      obtain ⟨first, others⟩ := List.forall_mem_cons.mp calm
      rw [squeeze, step_calm first, ih others]
      by_cases listed : b ∈ dropped
      · rw [if_pos ⟨rfl, listed⟩, List.filter_cons_of_neg (by simpa using listed)]
      · rw [if_neg fun both => listed both.2, List.filter_cons_of_pos (by simpa using listed)]

theorem kept_decimal (n : Nat) : ∀ b ∈ decimal n, b ∉ ascii " \n" := by
  intro b inside blank
  have noDigit : ∀ c ∈ ascii " \n", ¬ IsDigit c := List.all_iff_forall_prop.mp (by decide)
  exact noDigit b blank (isDigit_of_mem_decimal b inside)

theorem calm_decimal (n : Nat) : Calm (decimal n) := by
  intro b inside
  have digit := isDigit_of_mem_decimal b inside
  have noDigit : ∀ c ∈ byte '"' :: ascii "[]\x7b\x7d", ¬ IsDigit c :=
    List.all_iff_forall_prop.mp (by decide)
  obtain ⟨quote, others⟩ := List.forall_mem_cons.mp noDigit
  exact ⟨fun listed => others b listed digit, fun same => quote (same ▸ digit)⟩

/-! ### Brackets -/

theorem step_bracket (listed : b ∈ ascii "[]\x7b\x7d") :
    (⟨.outside, opened⟩ : Cursor).step b = ⟨.outside, nest opened b⟩ := by
  have noQuote : b ≠ byte '"' := by
    rintro rfl
    exact absurd listed (by decide)
  rw [Cursor.step, if_pos rfl, Place.step, if_neg noQuote]

theorem squeeze_bracket (listed : b ∈ ascii "[]\x7b\x7d") (kept : b ∉ dropped) :
    squeeze dropped ⟨.outside, opened⟩ (b :: text) =
      b :: squeeze dropped ⟨.outside, nest opened b⟩ text := by
  rw [squeeze, if_neg fun both => kept both.2, step_bracket listed]

/-! ### String literals -/

/-- Nothing of a text is dropped between two cursors. -/
structure Over (dropped : Bytes) (c : Cursor) (text : Bytes) (c' : Cursor) : Prop where
  /-- The second cursor is behind the text. -/
  behind : c.behind text = c'
  /-- The text is there as it was. -/
  kept : squeeze dropped c text = text

theorem Over.nil (c : Cursor) : Over dropped c [] c := ⟨rfl, rfl⟩

theorem Over.cons {c c' : Cursor} (stays : c.place ≠ .outside ∨ b ∉ dropped)
    (more : Over dropped (c.step b) text c') : Over dropped c (b :: text) c' := by
  refine ⟨more.behind, ?_⟩
  rw [squeeze, if_neg (by rwa [not_and_or]), more.kept]

theorem Over.append {front back : Bytes} {c c' c'' : Cursor} (first : Over dropped c front c')
    (second : Over dropped c' back c'') : Over dropped c (front ++ back) c'' := by
  refine ⟨?_, ?_⟩
  · rw [Cursor.behind_append, first.behind, second.behind]
  · rw [squeeze_append, first.kept, first.behind, second.kept]

theorem step_literal (literal : Literal b) :
    (⟨.inside, opened⟩ : Cursor).step b = ⟨.inside, opened⟩ := by
  rw [Cursor.step, if_neg nofun, Place.step, if_neg literal.2.1, if_neg literal.2.2]

theorem over_literal (literal : ∀ b ∈ text, Literal b) :
    Over dropped ⟨.inside, opened⟩ text ⟨.inside, opened⟩ := by
  induction text with
  | nil => exact .nil _
  | cons b text ih =>
      obtain ⟨first, others⟩ := List.forall_mem_cons.mp literal
      refine .cons (.inl nofun) ?_
      rw [step_literal first]
      exact ih others

theorem over_escape (b : UInt8) : Over dropped ⟨.inside, opened⟩ (escape b) ⟨.inside, opened⟩ := by
  rcases escape_cases b with ⟨itself, literal⟩ | ⟨letter, digits, escape, _, literal⟩
  · rw [itself]
    exact over_literal (List.forall_mem_singleton.mpr literal)
  · rw [escape]
    exact .cons (.inl nofun) (.cons (.inl nofun) (over_literal literal))

/-- **Going over a string literal changes nothing**, whatever is in it. -/
theorem over_quote (kept : byte '"' ∉ dropped) (s : Bytes) :
    Over dropped ⟨.outside, opened⟩ (quote s) ⟨.outside, opened⟩ := by
  have first : (⟨.outside, opened⟩ : Cursor).step (byte '"') = ⟨.inside, opened⟩ := by
    rw [Cursor.step, if_pos rfl, nest_other (by decide)]
    rfl
  have escaped : Over dropped ⟨.inside, opened⟩ (s.flatMap escape) ⟨.inside, opened⟩ := by
    induction s with
    | nil => exact .nil _
    | cons b s ih => exact .append (over_escape b) ih
  exact .cons (.inr kept) (first ▸ escaped.append (.cons (.inl nofun) (.nil _)))

end Parts

/-! ## The same text in both layouts -/

/-- Without the blanks and line feeds of the one and the blanks of the other, the texts are the
same, whatever brackets are open. -/
def Squeezed (text text' : Bytes) : Prop := ∀ opened,
  squeeze (ascii " \n") ⟨.outside, opened⟩ text = squeeze (ascii " ") ⟨.outside, opened⟩ text'

/-- The same in front of the texts. -/
theorem Squeezed.calm {front front' text text' : Bytes} (calm : Calm front)
    (calm' : Calm front')
    (same : front.filter (· ∉ ascii " \n") = front'.filter (· ∉ ascii " "))
    (behind : Squeezed text text') : Squeezed (front ++ text) (front' ++ text') := by
  intro opened
  rw [squeeze_append, squeeze_append, behind_calm calm, behind_calm calm', squeeze_calm calm,
    squeeze_calm calm', same, behind opened]

theorem mem_lineBreak {depth : Nat} : ∀ b ∈ Layout.pretty.lineBreak depth, b ∈ ascii " \n" := by
  rw [Layout.lineBreak, List.forall_mem_cons]
  refine ⟨by decide, ?_⟩
  intro b blank
  rw [List.eq_of_mem_replicate blank]
  decide

theorem filter_lineBreak (depth : Nat) :
    (Layout.pretty.lineBreak depth).filter (· ∉ ascii " \n") = [] :=
  List.filter_eq_nil_iff.mpr fun b inside => by simpa using mem_lineBreak b inside

theorem calm_lineBreak (depth : Nat) : Calm (Layout.pretty.lineBreak depth) := by
  intro b inside
  have all : ∀ c ∈ ascii " \n", IsCalm c := List.all_iff_forall_prop.mp (by decide)
  exact all b (mem_lineBreak b inside)

theorem keeps_squeezed : Layout.pretty.Keeps .compact Squeezed where
  bracket listed behind opened := by
    have kept : ∀ b ∈ ascii "[]\x7b\x7d", b ∉ ascii " \n" ∧ b ∉ ascii " " :=
      List.all_iff_forall_prop.mp (by decide)
    obtain ⟨first, second⟩ := kept _ listed
    rw [squeeze_bracket listed first, squeeze_bracket listed second, behind]
  decimal n behind := by
    refine behind.calm (calm_decimal n) (calm_decimal n) (List.filter_congr fun b inside => ?_)
    have kept := kept_decimal n b inside
    have kept' : b ∉ ascii " " := fun blank => kept (List.mem_append_left [lineFeed] blank)
    rw [decide_eq_true kept, decide_eq_true kept']
  colon := .calm (by decide) (by decide) (by decide)
  lineBreak depth := .calm (calm_lineBreak depth) nofun (filter_lineBreak depth)
  separator depth := by
    refine .calm (List.forall_mem_cons.mpr ⟨by decide, calm_lineBreak depth⟩)
      (show Calm (ascii ", ") by decide) ?_
    show (byte ',' :: Layout.pretty.lineBreak depth).filter (· ∉ ascii " \n") = [byte ',']
    rw [List.filter_cons_of_pos (by decide), filter_lineBreak]

/-- **The layouts differ in blanks and line feeds outside of string literals only.** -/
theorem squeeze_render (v : Json) :
    squeeze (ascii " \n") .start (v.render .pretty) =
      squeeze (ascii " ") .start (v.render .compact) := by
  have quoted : ∀ s, KeepsQuoted Squeezed s := by
    intro s text text' behind opened
    have pretty : Over (ascii " \n") ⟨.outside, opened⟩ (quote s) ⟨.outside, opened⟩ :=
      over_quote (by decide) s
    have compact : Over (ascii " ") ⟨.outside, opened⟩ (quote s) ⟨.outside, opened⟩ :=
      over_quote (by decide) s
    rw [squeeze_append, squeeze_append, pretty.kept, compact.kept, pretty.behind, behind]
  have same : Squeezed (v.render .pretty) (v.render .compact) :=
    render_keeps keeps_squeezed (fun s _ => quoted s) fun _ => rfl
  exact same []

/-! ## No control bytes -/

/-- The text has no byte below the blank. -/
def Uncontrolled (text : Bytes) : Prop := ∀ b ∈ text, 0x20 ≤ b

instance : DecidablePred Uncontrolled := fun text => List.decidableBAll (0x20 ≤ ·) text

theorem Uncontrolled.append {front back : Bytes} (first : Uncontrolled front)
    (second : Uncontrolled back) : Uncontrolled (front ++ back) :=
  List.forall_mem_append.mpr ⟨first, second⟩

theorem keeps_uncontrolled : Layout.compact.Keeps .compact fun text _ => Uncontrolled text where
  bracket listed behind := by
    have all : Uncontrolled (ascii "[]\x7b\x7d") := by decide
    exact List.forall_mem_cons.mpr ⟨all _ listed, behind⟩
  decimal n := by
    have digits : Uncontrolled (decimal n) := fun b inside =>
      (isDigit_of_mem_decimal b inside).isPrintable.1.1
    exact digits.append
  colon := .append (by decide)
  lineBreak _ behind := behind
  separator _ := .append (show Uncontrolled (ascii ", ") by decide)

/-- **The compact layout has no control bytes.** -/
theorem uncontrolled_render (v : Json) : Uncontrolled (v.render .compact) :=
  render_keeps keeps_uncontrolled
    (fun _ _ _ _ => .append le_of_mem_quote) nofun

/-! ## The lines of the pretty layout -/

/-- The text starts with two blanks for each of so many brackets and no more.  These are the open
ones, other than one that is closed by the first byte behind the blanks. -/
def IndentedBy (k : Nat) (opened text : Bytes) : Prop :=
  ∃ c more, text = List.replicate (2 * k) (byte ' ') ++ c :: more ∧ c ∉ ascii " \n" ∧
    opened.length = k + if Closes c then 1 else 0

/-- Every line behind the cursor starts outside of string literals and is indented. -/
def Indented (c : Cursor) : Bytes → Prop
  | [] => True
  | b :: more =>
    (b = lineFeed → c.place = .outside ∧ ∃ k, IndentedBy k c.opened more) ∧ Indented (c.step b) more

namespace Indented

variable {c : Cursor} {opened text rest : Bytes} {b : UInt8}

theorem cons (noFeed : b ≠ lineFeed) (more : Indented (c.step b) text) : Indented c (b :: text) :=
  ⟨fun feed => absurd feed noFeed, more⟩

theorem append {front : Bytes} (noFeed : lineFeed ∉ front)
    (more : Indented (c.behind front) rest) : Indented c (front ++ rest) := by
  induction front generalizing c with
  | nil => exact more
  | cons b front ih =>
      obtain ⟨first, others⟩ := not_or.mp (mt List.mem_cons.mpr noFeed)
      exact .cons (Ne.symm first) (ih others more)

theorem calm (noFeed : lineFeed ∉ text) (calm : Calm text)
    (more : Indented ⟨.outside, opened⟩ rest) : Indented ⟨.outside, opened⟩ (text ++ rest) :=
  .append noFeed (by rwa [behind_calm calm])

theorem decimal (n : Nat) (more : Indented ⟨.outside, opened⟩ rest) :
    Indented ⟨.outside, opened⟩ (decimal n ++ rest) :=
  .calm (fun inside => kept_decimal n _ inside (by decide)) (calm_decimal n) more

theorem quote (s : Bytes) (more : Indented ⟨.outside, opened⟩ rest) :
    Indented ⟨.outside, opened⟩ (quote s ++ rest) := by
  have literal : Over [] ⟨.outside, opened⟩ (Json.quote s) ⟨.outside, opened⟩ :=
    over_quote (by decide) s
  refine .append ?_ (by rwa [literal.behind])
  intro inside
  exact absurd (le_of_mem_quote _ inside) (by decide)

theorem bracket (listed : b ∈ ascii "[]\x7b\x7d") (more : Indented ⟨.outside, nest opened b⟩ rest) :
    Indented ⟨.outside, opened⟩ (b :: rest) := by
  refine .cons ?_ (by rwa [step_bracket listed])
  rintro rfl
  exact absurd listed (by decide)

theorem colon (more : Indented ⟨.outside, opened⟩ rest) :
    Indented ⟨.outside, opened⟩ (ascii ": " ++ rest) :=
  .calm (by decide) (by decide) more

/-- The line behind a line break is indented by its depth. -/
theorem lineBreak {depth : Nat}
    (line : IndentedBy depth opened (List.replicate (2 * depth) (byte ' ') ++ rest))
    (more : Indented ⟨.outside, opened⟩ rest) :
    Indented ⟨.outside, opened⟩ (Layout.pretty.lineBreak depth ++ rest) := by
  have noFeed : lineFeed ∉ List.replicate (2 * depth) (byte ' ') := fun inside =>
    absurd (List.eq_of_mem_replicate inside) (by decide)
  have calm : Calm (List.replicate (2 * depth) (byte ' ')) := fun b inside =>
    calm_lineBreak depth b (List.mem_cons_of_mem _ inside)
  have indentation : Indented ⟨.outside, opened⟩ (List.replicate (2 * depth) (byte ' ') ++ rest) :=
    .calm noFeed calm more
  refine ⟨fun _ => ⟨rfl, depth, line⟩, ?_⟩
  rwa [step_calm (by decide)]

theorem separator {depth : Nat}
    (line : IndentedBy depth opened (List.replicate (2 * depth) (byte ' ') ++ rest))
    (more : Indented ⟨.outside, opened⟩ rest) :
    Indented ⟨.outside, opened⟩ (Layout.pretty.separator depth ++ rest) := by
  show Indented _ ([byte ','] ++ (Layout.pretty.lineBreak depth ++ rest))
  exact .calm (by decide) (by decide) (.lineBreak line more)

/-- A closing bracket is on a line of its own, at the depth of the brackets around it. -/
theorem closing {depth : Nat} {o : UInt8} (isPair : (o, b) ∈ brackets)
    (deep : opened.length = depth) (more : Indented ⟨.outside, opened⟩ rest) :
    Indented ⟨.outside, o :: opened⟩ (Layout.pretty.lineBreak depth ++ b :: rest) := by
  have listed : ∀ pair ∈ brackets, pair.2 ∉ ascii " \n" ∧ pair.2 ∈ ascii "[]\x7b\x7d" :=
    List.all_iff_forall_prop.mp (by decide)
  obtain ⟨noBlank, isBracket⟩ := listed _ isPair
  have closes : Closes b := List.mem_map_of_mem isPair
  have line : IndentedBy depth (o :: opened)
      (List.replicate (2 * depth) (byte ' ') ++ b :: rest) := by
    refine ⟨b, rest, rfl, noBlank, ?_⟩
    rw [if_pos closes, List.length_cons, deep]
  exact .lineBreak line (.bracket isBracket (by rwa [nest_pair isPair]))

end Indented

/-- The text of a value starts a line with all open brackets in front of it. -/
theorem indentedBy_write (v : Json) {depth : Nat} {opened : Bytes} (after : Bytes)
    (deep : opened.length = depth) :
    IndentedBy depth opened
      (List.replicate (2 * depth) (byte ' ') ++ v.write .pretty depth after) := by
  obtain ⟨b, first, starts⟩ := (reads_write .pretty depth after v).head
  obtain ⟨more, parts⟩ := List.head?_eq_some_iff.mp first
  obtain ⟨noBlank, noClose⟩ := starts.not_blank_not_close
  have stays : ¬ Closes b := noClose
  refine ⟨b, more, by rw [parts], ?_, ?_⟩
  · have blanks : ∀ c ∈ ascii " \n", JsonValue.IsBlank c := List.all_iff_forall_prop.mp (by decide)
    exact fun blank => noBlank (blanks b blank)
  · rw [if_neg stays, deep, Nat.add_zero]

theorem indentedBy_quote {depth : Nat} {opened : Bytes} (name after : Bytes)
    (deep : opened.length = depth) :
    IndentedBy depth opened (List.replicate (2 * depth) (byte ' ') ++ (Json.quote name ++ after)) :=
  indentedBy_write (.text name) after deep

mutual

/-- **Writing a value at the depth of the open brackets keeps lines indented.** -/
theorem indented_write : ∀ (v : Json) (depth : Nat) {opened after : Bytes},
    opened.length = depth → Indented ⟨.outside, opened⟩ after →
      Indented ⟨.outside, opened⟩ (v.write .pretty depth after)
  | number n, _, _, _, _, behind => by
      rw [write]
      exact .decimal n behind
  | text s, _, _, _, _, behind => by
      rw [write]
      exact .quote s behind
  | array [], _, _, _, _, behind | object [], _, _, _, _, behind => by
      rw [write]
      exact .bracket (by decide) (.bracket (by decide) behind)
  | array (v :: vs), depth, opened, after, deep, behind => by
      have deeper : (byte '[' :: opened).length = depth + 1 := by rw [List.length_cons, deep]
      have closed := behind.closing (o := byte '[') (b := byte ']') (by decide) deep
      rw [write]
      exact .bracket (by decide) (.lineBreak (indentedBy_write v _ deeper)
        (indented_write v _ deeper (indented_writeElements vs _ deeper closed)))
  | object ((name, v) :: ms), depth, opened, after, deep, behind => by
      have deeper : (byte '\x7b' :: opened).length = depth + 1 := by rw [List.length_cons, deep]
      have closed := behind.closing (o := byte '\x7b') (b := byte '\x7d') (by decide) deep
      rw [write]
      exact .bracket (by decide) (.lineBreak (indentedBy_quote name _ deeper) (.quote name (.colon
        (indented_write v _ deeper (indented_writeMembers ms _ deeper closed)))))

theorem indented_writeElements : ∀ (vs : List Json) (depth : Nat) {opened after : Bytes},
    opened.length = depth → Indented ⟨.outside, opened⟩ after →
      Indented ⟨.outside, opened⟩ (writeElements .pretty depth vs after)
  | [], _, _, _, _, behind => by
      rw [writeElements]
      exact behind
  | v :: vs, depth, _, _, deep, behind => by
      rw [writeElements]
      exact .separator (indentedBy_write v _ deep)
        (indented_write v _ deep (indented_writeElements vs _ deep behind))

theorem indented_writeMembers : ∀ (ms : List (Bytes × Json)) (depth : Nat) {opened after : Bytes},
    opened.length = depth → Indented ⟨.outside, opened⟩ after →
      Indented ⟨.outside, opened⟩ (writeMembers .pretty depth ms after)
  | [], _, _, _, _, behind => by
      rw [writeMembers]
      exact behind
  | (name, v) :: ms, depth, _, _, deep, behind => by
      rw [writeMembers]
      exact .separator (indentedBy_quote name _ deep) (.quote name (.colon
        (indented_write v _ deep (indented_writeMembers ms _ deep behind))))

end

theorem Indented.line {c : Cursor} {front rest : Bytes}
    (indented : Indented c (front ++ lineFeed :: rest)) :
    ∃ k, IndentedBy k (c.behind (front.concat lineFeed)).opened rest := by
  induction front generalizing c with
  | nil =>
      obtain ⟨outside, line⟩ := indented.1 rfl
      have same : (c.step lineFeed).opened = c.opened := by
        rw [Cursor.step, if_pos outside, nest_other (by decide)]
      exact same ▸ line
  | cons b front ih => exact ih indented.2

/-- The text ends a line, or nothing is there: what is behind it starts a line. -/
def AtLineStart (front : Bytes) : Prop := ∀ b ∈ front.getLast?, b = lineFeed

/-- **Every line of a value is indented by its open brackets.** -/
theorem indented_render {v : Json} {front rest : Bytes} (parts : v.render .pretty = front ++ rest)
    (starts : AtLineStart front) : ∃ k, IndentedBy k (Cursor.start.behind front).opened rest := by
  rcases List.eq_nil_or_concat front with rfl | ⟨before, b, rfl⟩
  · rw [List.nil_append] at parts
    exact ⟨0, parts ▸ indentedBy_write v [] rfl⟩
  · obtain rfl : b = lineFeed := starts b (by simp)
    have indented : Indented .start (v.render .pretty) := indented_write v 0 rfl trivial
    rw [parts, List.concat_append] at indented
    exact indented.line

/-- The last line of an object with members is its closing brace. -/
theorem lastLine_object (m : Bytes × Json) (ms : List (Bytes × Json)) :
    [lineFeed, byte '\x7d'] <:+ (object (m :: ms)).render .pretty := by
  rw [render, write_object_cons, writeMembers_append]
  exact (((List.suffix_append _ _).trans (List.suffix_append _ _)).trans
    (List.suffix_append _ _)).trans (List.suffix_cons _ _)

end BlockSyntax.Json

namespace BlockSyntax

open Json

theorem Node.exists_object (n : Node) : ∃ m ms, n.toJson = .object (m :: ms) := by
  cases n with
  | terminal => exact ⟨_, _, rfl⟩
  | list => exact ⟨_, _, rfl⟩
  | construct => exact ⟨_, _, rfl⟩

/-- **The two layouts of a tree are the same text.**  Without the blanks and line feeds outside of
string literals they are equal, and the compact one has no control bytes.  Every line of the
pretty one is indented by two blanks for each bracket that is open where it starts, other than
one that it closes at once, and the last line is not indented. -/
theorem Node.renderJson_layouts (n : Node) :
    let pretty := n.renderJson .pretty
    let compact := n.renderJson .compact
    squeeze (ascii " \n") .start pretty = squeeze (ascii " ") .start compact ∧
      (∀ b ∈ compact, 0x20 ≤ b) ∧
      ∀ front rest, pretty = front ++ rest → AtLineStart front →
        ∃ k, IndentedBy k (Cursor.start.behind front).opened rest ∧ (lineFeed ∉ rest → k = 0) := by
  intro pretty compact
  refine ⟨squeeze_render n.toJson, uncontrolled_render n.toJson, ?_⟩
  intro front rest parts starts
  obtain ⟨k, c, more, text, line⟩ := indented_render parts starts
  refine ⟨k, ⟨c, more, text, line⟩, fun last => ?_⟩
  obtain ⟨m, ms, object⟩ := n.exists_object
  have ends : [lineFeed, byte '\x7d'] <:+ front ++ rest := by
    rw [← parts]
    show _ <:+ n.toJson.render .pretty
    rw [object]
    exact lastLine_object m ms
  rcases List.suffix_or_suffix_of_suffix ends (List.suffix_append front rest) with longer | shorter
  · exact absurd (longer.subset List.mem_cons_self) last
  · -- a blank in front of the brace would be a byte of its line
    rcases Nat.eq_zero_or_pos k with zero | positive
    · exact zero
    have blank : byte ' ' ∈ rest := by
      rw [text]
      exact List.mem_append_left _ (List.mem_replicate.mpr ⟨by omega, rfl⟩)
    exact absurd (shorter.subset blank) (by decide)

end BlockSyntax
