import BlockSyntax.Proofs.Conservation
import BlockSyntax.Proofs.FaultLocations
import BlockSyntax.Proofs.NodeNames
import BlockSyntax.Proofs.PlainJson
import BlockSyntax.Proofs.TreeJson

/-!
# The JSON of an accepted text is plain

A source text may hold any bytes in its comments, but no byte of a comment is in a token.  The
lexemes of all tokens but the error token are words, numbers and marks, and so they are plain
(`Lexeme.Matches.plain`).  The names under which a parse shows nodes are plain too
(`Node.KnownNames.plain`), and the tree of a program holds no tokens but those of its source.

So the JSON of every text that is accepted is printable ASCII, quotes the lexeme of each token
as it stands in the source, and is valid as JSON and as UTF-8 (`analyzeText_plain_json`).
-/

set_option autoImplicit false

namespace BlockSyntax

/-! ## Plain lexemes -/

theorem Character.plain_of_continuesWord {b : UInt8} (continues : continuesWord b) :
    IsPrintable b ∧ b ≠ byte '"' ∧ b ≠ byte '\\' := by
  simp only [continuesWord, startsWord, isLetter, isDigit, IsPrintable, byte, Bool.or_eq_true,
    Bool.and_eq_true, decide_eq_true_eq, beq_iff_eq, UInt8.le_iff_toNat_le, ne_eq,
    ← UInt8.toNat_inj] at *
  simp at *
  omega

namespace Lexeme

theorem IsWord.plain {word : Bytes} (isWord : IsWord word) : Plain word :=
  fun b inside => Character.plain_of_continuesWord (isWord.continuesWord b inside)

theorem IsDigits.plain {text : Bytes} (digits : IsDigits text) : Plain text := by
  intro b inside
  refine Character.plain_of_continuesWord ?_
  rw [Character.continuesWord, digits.digits b inside, Bool.or_true]

/-- **A lexeme that is not at fault is plain.** -/
theorem Matches.plain {lexeme : Bytes} {kind : TokenKind} (isLexeme : Matches lexeme kind)
    (sound : kind ≠ .error) : Plain lexeme := by
  cases isLexeme with
  | reserved isReserved => exact isReserved.isWord.plain
  | name isWord => exact isWord.plain
  | integer digits => exact digits.plain
  | real digits digits' =>
      exact digits.plain.append (List.forall_mem_cons.mpr ⟨by decide, digits'.plain⟩)
  | mark isMark =>
      revert isMark
      cases kind <;> decide
  | pointed | other => exact absurd rfl sound

end Lexeme

/-! ## Plain names -/

namespace Node

/-- The names of the nodes of a tree are plain. -/
def PlainNames (n : Node) : Prop := ∀ s ∈ n.preorder.map name, Plain s

/-- All trees of a list have plain names. -/
def AllPlain (ns : List Node) : Prop := ∀ n ∈ ns, n.PlainNames

theorem plainNames_iff {n : Node} : n.PlainNames ↔ Plain n.name ∧ AllPlain n.children := by
  unfold AllPlain PlainNames
  simp only [List.forall_mem_map]
  rw [preorder_eq, List.forall_mem_cons, List.forall_mem_flatMap]

/-- **The names under which a parse shows nodes are plain.** -/
theorem KnownNames.plain {n : Node} (known : n.KnownNames) : n.PlainNames := by
  have plain : ∀ s ∈ vocabulary, Plain s := by decide +kernel
  exact fun s inside => plain s (known s inside)

end Node

/-! ## The JSON of a tree -/

theorem TokenKind.plain_name (k : TokenKind) : Plain k.name := by
  cases k <;> decide

namespace Json

theorem isPlain_number (n : Nat) : (number n).IsPlain := nofun

theorem isPlain_text {s : Bytes} (plain : Plain s) : (text s).IsPlain := by
  rintro _ ⟨⟩
  exact plain

theorem isPlain_array {vs : List Json} (plain : ∀ v ∈ vs, v.IsPlain) : (array vs).IsPlain := by
  intro s has
  cases has with
  | element inside has => exact plain _ inside s has

/-- The members have plain names and plain values. -/
def PlainMembers (ms : List (Bytes × Json)) : Prop := ∀ m ∈ ms, Plain m.1 ∧ m.2.IsPlain

theorem PlainMembers.nil : PlainMembers [] := nofun

theorem PlainMembers.cons {name : Bytes} {v : Json} {ms : List (Bytes × Json)} (named : Plain name)
    (plain : v.IsPlain) (others : PlainMembers ms) : PlainMembers ((name, v) :: ms) :=
  List.forall_mem_cons.mpr ⟨⟨named, plain⟩, others⟩

theorem isPlain_object {ms : List (Bytes × Json)} (plain : PlainMembers ms) :
    (object ms).IsPlain := by
  intro s has
  cases has with
  | key inside => exact (plain _ inside).1
  | member inside has => exact (plain _ inside).2 s has

variable {name : Bytes} {v : Json}

@[simp] theorem holds_number {n : Nat} : ¬ Holds name v (number n) := nofun

@[simp] theorem holds_text {s : Bytes} : ¬ Holds name v (text s) := nofun

@[simp] theorem holds_array {vs : List Json} :
    Holds name v (array vs) ↔ ∃ w ∈ vs, Holds name v w := by
  constructor
  · rintro ⟨⟩
    exact ⟨_, ‹_›, ‹_›⟩
  · rintro ⟨w, inside, holds⟩
    exact .element inside holds

@[simp] theorem holds_object {ms : List (Bytes × Json)} :
    Holds name v (object ms) ↔ (name, v) ∈ ms ∨ ∃ m ∈ ms, Holds name v m.2 := by
  constructor
  · intro holds
    cases holds with
    | here inside => exact .inl inside
    | member inside holds => exact .inr ⟨_, inside, holds⟩
  · rintro (inside | ⟨m, inside, holds⟩)
    · exact .here inside
    · exact .member inside holds

end Json

open Json (isPlain_number isPlain_text isPlain_array isPlain_object PlainMembers)

theorem Token.isPlain_toJson {t : Token} (plain : Plain t.lexeme) : t.toJson.IsPlain :=
  isPlain_object (.cons (by decide) (isPlain_text t.kind.plain_name)
    (.cons (by decide) (isPlain_text plain) (.cons (by decide) (isPlain_number _)
      (.cons (by decide) (isPlain_number _) .nil))))

namespace Node

/-- The object of a list or a construct is plain if the objects below are. -/
theorem isPlain_inner {i : NodeId} {label : Bytes} {below : List Json} (plain : Plain label)
    (inside : ∀ v ∈ below, v.IsPlain) :
    (Json.object ((ascii "id", .number i.toNat) :: (ascii "name", .text label) ::
      childrenMember below)).IsPlain := by
  refine isPlain_object (.cons (by decide) (isPlain_number _)
    (.cons (by decide) (isPlain_text plain) ?_))
  cases below with
  | nil => exact .nil
  | cons v vs => exact .cons (by decide) (isPlain_array inside) .nil

mutual

/-- **A tree with plain names and plain lexemes is a plain value.** -/
theorem isPlain_toJson : ∀ n : Node, n.PlainNames → (∀ t ∈ n.tokens, Plain t.lexeme) →
    n.toJson.IsPlain
  | terminal i label t, names, lexemes => by
      rw [tokens_terminal, List.forall_mem_singleton] at lexemes
      rw [toJson]
      exact isPlain_object (.cons (by decide) (isPlain_number _)
        (.cons (by decide) (isPlain_text (plainNames_iff.mp names).1)
          (.cons (by decide) (Token.isPlain_toJson lexemes) .nil)))
  | list i label items, names, lexemes => by
      obtain ⟨plain, inside⟩ := plainNames_iff.mp names
      rw [tokens_list] at lexemes
      rw [toJson]
      exact isPlain_inner plain (isPlain_toJsonAll items inside lexemes)
  | construct i form parts, names, lexemes => by
      obtain ⟨plain, inside⟩ := plainNames_iff.mp names
      rw [tokens_construct] at lexemes
      rw [toJson]
      exact isPlain_inner plain (isPlain_toJsonAll parts inside lexemes)

theorem isPlain_toJsonAll : ∀ ns : List Node, AllPlain ns → (∀ t ∈ tokensAll ns, Plain t.lexeme) →
    ∀ v ∈ toJsonAll ns, v.IsPlain
  | [], _, _ => by
      rw [toJsonAll]
      exact nofun
  | n :: ns, names, lexemes => by
      obtain ⟨first, others⟩ := List.forall_mem_cons.mp names
      rw [tokensAll, List.flatMap_cons, List.forall_mem_append] at lexemes
      rw [toJsonAll]
      exact List.forall_mem_cons.mpr
        ⟨isPlain_toJson n first lexemes.1, isPlain_toJsonAll ns others lexemes.2⟩

end

/-- The members with a lexeme in the object of a token. -/
theorem holds_lexeme_token {t : Token} {v : Json} :
    Json.Holds (ascii "lexeme") v t.toJson ↔ v = .text t.lexeme := by
  have names : ascii "lexeme" ≠ ascii "type" ∧ ascii "lexeme" ≠ ascii "line" ∧
      ascii "lexeme" ≠ ascii "col" := by decide
  simp [Token.toJson, names]

/-- The lexemes in the object of a list or a construct are those in the objects below. -/
theorem holds_lexeme_inner {i : NodeId} {label : Bytes} {below : List Json} {v : Json} :
    Json.Holds (ascii "lexeme") v (.object ((ascii "id", .number i.toNat) ::
      (ascii "name", .text label) :: childrenMember below)) ↔
        ∃ w ∈ below, Json.Holds (ascii "lexeme") v w := by
  have names : ascii "lexeme" ≠ ascii "id" ∧ ascii "lexeme" ≠ ascii "name" ∧
      ascii "lexeme" ≠ ascii "children" := by decide
  cases below <;> simp [childrenMember, names]

mutual

/-- **The lexemes in the object of a tree are those of its tokens.** -/
theorem holds_lexeme_iff {v : Json} : ∀ n : Node,
    Json.Holds (ascii "lexeme") v n.toJson ↔ ∃ t ∈ n.tokens, v = .text t.lexeme
  | terminal i label t => by
      have names : ascii "lexeme" ≠ ascii "id" ∧ ascii "lexeme" ≠ ascii "name" ∧
          ascii "lexeme" ≠ ascii "token" := by decide
      rw [toJson, tokens_terminal]
      simp [names, holds_lexeme_token]
  | list i label items => by
      rw [toJson, holds_lexeme_inner, holds_lexeme_all items, tokens_list]
  | construct i form parts => by
      rw [toJson, holds_lexeme_inner, holds_lexeme_all parts, tokens_construct]

theorem holds_lexeme_all {v : Json} : ∀ ns : List Node,
    (∃ w ∈ toJsonAll ns, Json.Holds (ascii "lexeme") v w) ↔
      ∃ t ∈ tokensAll ns, v = .text t.lexeme
  | [] => by simp [toJsonAll, tokensAll]
  | n :: ns => by
      have others := holds_lexeme_all (v := v) ns
      rw [tokensAll] at others
      rw [toJsonAll, tokensAll, List.flatMap_cons]
      simp only [List.mem_cons, List.mem_append, or_and_right, exists_or, exists_eq_left, others,
        holds_lexeme_iff n]

end

end Node

/-! ## Accepted texts -/

theorem kept_sublist (us : List Token) : (kept us).Sublist us := by
  induction us with
  | nil => exact .slnil
  | cons t us ih =>
      rw [kept]
      split
      · exact ih.cons_cons t
      · exact ih.cons t

/-- The tree of a program holds no tokens but those that it was derived from. -/
theorem DerivesProgram.mem_tokens {p : Program} {tokens : List Token} {t : Token}
    (derives : DerivesProgram p tokens) (nextId : NodeId)
    (inside : t ∈ (p.number nextId).1.tokens) : t ∈ tokens := by
  obtain ⟨items, last, _, perm, conserved, _⟩ := p.numbered_items derives nextId
  have ofChildren : (p.number nextId).1.tokens = Node.tokensAll (p.number nextId).1.children := by
    rw [Node.tokens, Node.terminals_of_children rfl, Node.map_snd_flatMap_terminals]
  rw [ofChildren, Node.tokensAll, ← (perm.flatMap_right _).mem_iff, ← Node.tokensAll,
    conserved] at inside
  exact (kept_sublist tokens).subset inside

/-- The token stands in the text where it is located, and its lexeme is plain. -/
structure Token.PlainIn (file : FileId) (text : Bytes) (t : Token) : Prop where
  /-- The text has the lexeme of the token at its location. -/
  located : ∃ front rest, text = front ++ (t.lexeme ++ rest) ∧
    t.location = (Scanner.ofText file []).locateBehind front
  /-- The lexeme is plain. -/
  plain : Plain t.lexeme

/-- A token that is no marker is plain. -/
theorem tokenize_plainIn {file : FileId} {text : Bytes} {t : Token}
    (inside : t ∈ (Scanner.ofText file text).tokenize.tokens) (notEof : t.kind ≠ .eof)
    (notError : t.kind ≠ .error) : t.PlainIn file text := by
  have stands : Scanner.StandsBehind file [] (Scanner.ofText file text) := ⟨rfl, rfl⟩
  obtain ⟨front, rest, parts, located, isLexeme⟩ := stands.token inside
  exact ⟨⟨front, rest, parts, located⟩, (isLexeme notEof notError).plain notError⟩

/-- The tree of an accepted text has plain names, and its tokens are tokens of the text and
plain. -/
theorem analyze_accepted {file : FileId} {text : Bytes} {nextId : NodeId} {root : Node}
    (accepted : (analyze file text nextId).1.verdict.root? = some root) :
    root.PlainNames ∧ ∀ t ∈ root.tokens, t ∈ (analyze file text nextId).1.tokens ∧
      t.PlainIn file text := by
  have ends := (Scanner.ofText file text).tokenize_ends
  rcases analyze_cases file text nextId with
    ⟨_, _, same⟩ | ⟨sound, root', s, asked, same⟩ | ⟨_, _, _, _, same⟩
  · rw [same] at accepted
    cases accepted
  · rw [same] at accepted ⊢
    obtain rfl := Option.some.inj accepted
    rw [sound] at ends
    refine ⟨(Session.ask_knownNames asked).plain, fun t inside => ?_⟩
    obtain ⟨p, rest, gives, rfl, _⟩ := Session.ask_program_eq_ok.mp asked
    have unended := unended_takeWhile (Scanner.ofText file text).tokenize.tokens
    have among := (program_sound unended gives).1.mem_tokens nextId inside
    have listed := (List.takeWhile_sublist _).subset among
    exact ⟨listed, tokenize_plainIn listed (unended t among) (ends.without t listed)⟩
  · rw [same] at accepted
    cases accepted

/-- The text of a tree with plain names has every lexeme of its tokens that is plain between
quotation marks. -/
theorem Node.lexeme_isInfix_renderJson {root : Node} {t : Token} (inside : t ∈ root.tokens)
    (plain : Plain t.lexeme) (layout : Json.Layout) :
    ascii "\"lexeme\": \"" ++ t.lexeme ++ ascii "\"" <:+: root.renderJson layout := by
  have holds : Json.Holds (ascii "lexeme") (.text t.lexeme) root.toJson :=
    (holds_lexeme_iff root).mpr ⟨t, inside, rfl⟩
  obtain ⟨depth, part⟩ := holds.isInfix_write layout 0
  have spelled : Json.memberText layout depth (ascii "lexeme") (.text t.lexeme) =
      ascii "\"lexeme\": \"" ++ t.lexeme ++ ascii "\"" := by
    rw [Json.memberText, Json.write, Json.quote_plain plain, List.append_nil]
    rfl
  rwa [spelled] at part

/-- **The JSON of an accepted text is plain.**  Let any bytes be analyzed in a batch with
success, and let the tree be written in a layout.  The text that is written consists of printable
ASCII, and of line feeds in the pretty layout.  There is no backslash in it, and so nothing is
escaped.  The lexemes in it are those of the tokens of the tree; each is written between
quotation marks as it stands in the source, at the location of its token.  The text is JSON, for
the value that shows the tree, and it is valid UTF-8. -/
theorem analyzeText_plain_json (b : Batch) (tracing : Bool) (source : SourceText) {root : Node}
    (accepted : (b.analyzeText tracing source).report.verdict.root? = some root)
    (layout : Json.Layout) :
    let r := (b.analyzeText tracing source).report
    let text := root.renderJson layout
    (∀ c ∈ text, IsPrintable c ∨ (layout = .pretty ∧ c = lineFeed)) ∧
      byte '\\' ∉ text ∧
      (∀ v, Json.Holds (ascii "lexeme") v root.toJson ↔ ∃ t ∈ root.tokens, v = .text t.lexeme) ∧
      (∀ t ∈ root.tokens, t ∈ r.tokens ∧
        (∃ front rest, source.text = front ++ (t.lexeme ++ rest) ∧
          t.location = (Scanner.ofText r.file []).locateBehind front) ∧
        ascii "\"lexeme\": \"" ++ t.lexeme ++ ascii "\"" <:+: text) ∧
      JsonValue.IsText root.view.value text ∧ text.toByteArray.IsValidUTF8 := by
  intro r text
  have analyzed := analyzeText_analyzed b tracing source
  have report : r = (analyze r.file source.text b.nextId).1 := congrArg Prod.fst analyzed
  have accepted : r.verdict.root? = some root := accepted
  rw [report] at accepted
  obtain ⟨names, listed⟩ := analyze_accepted accepted
  rw [← report] at listed
  have clean : layout.Clean text :=
    (root.isPlain_toJson names fun t inside => (listed t inside).2.plain).render layout
  refine ⟨?bytes, ?unescaped, fun v => root.holds_lexeme_iff, ?lexemes, ?json, ?encoded⟩
  case bytes => exact fun c inside => (clean c inside).imp And.left id
  case unescaped =>
    intro inside
    rcases clean _ inside with ⟨_, other⟩ | ⟨_, feed⟩
    · exact other rfl
    · exact absurd feed (by decide)
  case lexemes =>
    intro t inside
    obtain ⟨token, plainIn⟩ := listed t inside
    exact ⟨token, plainIn.located, Node.lexeme_isInfix_renderJson inside plainIn.plain layout⟩
  case json =>
    show JsonValue.IsText root.view.value (root.renderJson layout)
    rw [Node.renderJson, Json.isText_render, Node.value_toJson]
  case encoded =>
    refine isValidUTF8_of_lt fun c inside => ?_
    rcases clean c inside with ⟨printable, _⟩ | ⟨_, rfl⟩
    · exact Nat.lt_of_le_of_lt printable.2 (by decide)
    · decide

/-- A comment with a quotation mark, a backslash and bytes that are no UTF-8 leaves the JSON
plain. -/
theorem analyzeText_plain_json_comment :
    let source : SourceText := ⟨ascii "a = 1; // \"\\" ++ [0xFF, 0xC0], ascii "a.bg", none⟩
    ∃ root, (Batch.start.analyzeText false source).report.verdict.root? = some root ∧
      (∀ c ∈ root.renderJson .compact, IsPrintable c) ∧
      (root.renderJson .compact).toByteArray.IsValidUTF8 := by
  intro source
  have tree : (Batch.start.analyzeText false source).report.verdict.root?.isSome := by
    decide +kernel
  obtain ⟨root, accepted⟩ := Option.isSome_iff_exists.mp tree
  obtain ⟨bytes, _, _, _, _, encoded⟩ :=
    analyzeText_plain_json .start false source accepted .compact
  exact ⟨root, accepted, fun c inside => (bytes c inside).resolve_right nofun, encoded⟩

end BlockSyntax
