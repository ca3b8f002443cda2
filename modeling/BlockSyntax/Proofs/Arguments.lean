import BlockSyntax.CommandLine.Options
import Mathlib.Data.List.Basic

/-!
# What arguments ask for

Arguments fall into words: a `--json` with the argument behind it, and every other argument on
its own (`CommandLine.wordsOf`).  A word is a file, changes the options, or ends the reading
(`CommandLine.Word.request?`).  The first word that ends the reading decides what is asked for.
When there is none it is a run: its files are the words that do not start with a hyphen, in their
order, and each setting is that of the last word for it (`CommandLine.Options.changedBy`).

Arguments are read one word at a time, so this holds of the whole list once every word changes the
options as it should and changes of one list of words behind another add up
(`CommandLine.Request.read_eq`).
-/

set_option autoImplicit false

namespace BlockSyntax.CommandLine

/-! ## Words -/

/-- An argument with its operand, if it has one. -/
structure Word where
  /-- The argument. -/
  text : Bytes
  /-- The argument behind it, if that is its operand. -/
  operand? : Option Bytes
  deriving DecidableEq

/-- The words of a list of arguments. -/
def wordsOf : List Bytes → List Word
  | [] => []
  | [text] => [⟨text, none⟩]
  | text :: next :: rest =>
    if text = ascii "--json" then ⟨text, some next⟩ :: wordsOf rest
    else ⟨text, none⟩ :: wordsOf (next :: rest)

namespace Word

/-- A word that is no option is a file. -/
def file? (w : Word) : Option Bytes := if w.text.head? = some (byte '-') then none else some w.text

/-- Whether a word asks for JSON or for none. -/
def json? (w : Word) : Option Bool :=
  if w.text = ascii "--json" then some true
  else if w.text = ascii "--no-json" then some false
  else none

/-- Whether a word turns something on or off. -/
def switch? (on off : Bytes) (w : Word) : Option Bool :=
  if w.text = on then some true else if w.text = off then some false else none

/-- The options that change a setting and have no operand. -/
def switches : List Bytes :=
  ["--tokens", "--no-tokens", "--tree", "--no-tree", "--no-json", "--compact", "--trace"].map ascii

/-- What is asked for when the word ends the reading. -/
def request? (w : Word) : Option Request :=
  if w.text = ascii "-h" ∨ w.text = ascii "--help" then some .help
  else if w.text = ascii "--version" then some .version
  else if w.text = ascii "--json" then
    if w.operand?.isSome then none else some .missingOperand
  else if w.text ∈ switches then none
  else if w.text.head? = some (byte '-') then some (.unknownOption w.text)
  else none

end Word

/-- The options as words change them: files come behind the files before them, and each setting
is that of the last word for it. -/
def Options.changedBy (before : Options) (words : List Word) : Options where
  files := before.files ++ words.filterMap Word.file?
  printTokens :=
    (words.filterMap (Word.switch? (ascii "--tokens") (ascii "--no-tokens"))).getLast?.getD
      before.printTokens
  printTree :=
    (words.filterMap (Word.switch? (ascii "--tree") (ascii "--no-tree"))).getLast?.getD
      before.printTree
  writeJson := (words.filterMap Word.json?).getLast?.getD before.writeJson
  jsonPath := (words.filterMap Word.operand?).getLast?.getD before.jsonPath
  layout := if words.any (·.text = ascii "--compact") then .compact else before.layout
  tracing := words.any (·.text = ascii "--trace") || before.tracing

/-- What a run does with its files and with JSON, changed by words. -/
structure Options.Given (before : Options) (words : List Word) (o : Options) : Prop where
  /-- The files are in the order of the words. -/
  files : o.files = before.files ++ words.filterMap Word.file?
  /-- JSON is written to the last operand. -/
  jsonPath : o.jsonPath = (words.filterMap Word.operand?).getLast?.getD before.jsonPath
  /-- The last word about JSON decides whether it is written. -/
  writeJson : o.writeJson = (words.filterMap Word.json?).getLast?.getD before.writeJson
  /-- It is compact if a word says so. -/
  layout : o.layout = if words.any (·.text = ascii "--compact") then .compact else before.layout

theorem wordsOf_json (path : Bytes) (rest : List Bytes) :
    wordsOf (ascii "--json" :: path :: rest) = ⟨ascii "--json", some path⟩ :: wordsOf rest := by
  rw [wordsOf, if_pos rfl]

theorem wordsOf_single {text : Bytes} (other : text ≠ ascii "--json") (rest : List Bytes) :
    wordsOf (text :: rest) = ⟨text, none⟩ :: wordsOf rest := by
  cases rest with
  | nil => rfl
  | cons next rest => rw [wordsOf, if_neg other]

/-- No words change nothing. -/
theorem Options.changedBy_nil (o : Options) : o.changedBy [] = o := by
  simp [changedBy]

/-- Words behind others change what those have left. -/
theorem Options.changedBy_append (before : Options) (words words' : List Word) :
    before.changedBy (words ++ words') = (before.changedBy words).changedBy words' := by
  simp only [changedBy, List.filterMap_append, List.getLast?_append, Option.getD_or,
    List.append_assoc, List.any_append, Options.mk.injEq, true_and]
  constructor
  · cases words.any (·.text = ascii "--compact") <;> simp
  · rw [Bool.or_comm (words.any _), Bool.or_assoc]

/-- No word ends the reading with a run. -/
theorem Word.request?_ne_run (w : Word) (o : Options) : w.request? ≠ some (.run o) := by
  unfold request?
  repeat' split
  all_goals exact nofun

/-! ## Single arguments -/

/-- Every option is in the table, and of the other arguments the hyphen decides. -/
theorem Argument.of_cases (text : Bytes) :
    (text, Argument.of text) ∈ options ∨ (∀ entry ∈ options, text ≠ entry.1) ∧
      Argument.of text = if text.head? = some (byte '-') then .unknown else .file := by
  unfold Argument.of
  cases found : Argument.options.lookup text with
  | some a =>
      left
      obtain ⟨front, behind, table, _⟩ := List.lookup_eq_some_iff.mp found
      rw [table]
      exact List.mem_append_right _ List.mem_cons_self
  | none =>
      right
      refine ⟨?_, rfl⟩
      simpa using List.lookup_eq_none_iff.mp found

/-- An argument that is neither a file nor unknown is in the table. -/
theorem Argument.mem_options {text : Bytes} {a : Argument} (isA : Argument.of text = a)
    (known : a ≠ .unknown) (option : a ≠ .file) : (text, a) ∈ options := by
  subst isA
  rcases Argument.of_cases text with listed | ⟨_, decided⟩
  · exact listed
  · by_cases hyphen : text.head? = some (byte '-')
    · exact absurd (decided.trans (if_pos hyphen)) known
    · exact absurd (decided.trans (if_neg hyphen)) option

/-- The argument for JSON is the only one with an operand. -/
theorem Argument.of_eq_json {text : Bytes} (json : Argument.of text = .json) :
    text = ascii "--json" := by
  have only : ∀ entry ∈ Argument.options, entry.2 = .json → entry.1 = ascii "--json" := by decide
  exact only _ (Argument.mem_options json nofun nofun) rfl

/-- A word ends the reading when its argument does. -/
theorem Word.request?_eq (text : Bytes) (operand? : Option Bytes) :
    request? ⟨text, operand?⟩ = match Argument.of text with
      | .help => some .help
      | .version => some .version
      | .json => if operand?.isSome then none else some .missingOperand
      | .unknown => some (.unknownOption text)
      | .setting _ | .file => none := by
  rcases Argument.of_cases text with listed | ⟨other, decided⟩
  · generalize Argument.of text = a at listed
    simp only [Argument.options, List.mem_cons, Prod.mk.injEq, List.not_mem_nil, or_false] at listed
    rcases listed with ⟨rfl, rfl⟩ | ⟨rfl, rfl⟩ | ⟨rfl, rfl⟩ | ⟨rfl, rfl⟩ | ⟨rfl, rfl⟩ | ⟨rfl, rfl⟩ |
      ⟨rfl, rfl⟩ | ⟨rfl, rfl⟩ | ⟨rfl, rfl⟩ | ⟨rfl, rfl⟩ | ⟨rfl, rfl⟩ <;> rfl
  · rw [decided]
    simp only [Argument.options, List.forall_mem_cons] at other
    by_cases hyphen : text.head? = some (byte '-') <;> simp [request?, switches, other, hyphen]

/-- The word of a file adds the file. -/
theorem Options.changedBy_file {text : Bytes} (file : Argument.of text = .file) (o : Options) :
    o.changedBy [⟨text, none⟩] = { o with files := o.files ++ [text] } := by
  rcases Argument.of_cases text with listed | ⟨other, decided⟩
  · rw [file] at listed
    have none : ∀ entry ∈ Argument.options, entry.2 ≠ .file := by decide
    exact absurd rfl (none _ listed)
  · have name : text.head? ≠ some (byte '-') := by
      intro hyphen
      rw [file, if_pos hyphen] at decided
      cases decided
    simp only [Argument.options, List.forall_mem_cons] at other
    simp [changedBy, Word.file?, Word.switch?, Word.json?, name, other]

/-- The word of a setting applies the setting. -/
theorem Options.changedBy_setting {text : Bytes} {s : Setting}
    (setting : Argument.of text = .setting s) (o : Options) :
    o.changedBy [⟨text, none⟩] = s.apply o := by
  have listed := Argument.mem_options setting nofun nofun
  simp only [Argument.options, List.mem_cons, Prod.mk.injEq, Argument.setting.injEq,
    reduceCtorEq, and_false, false_or, or_false, List.not_mem_nil] at listed
  rcases listed with ⟨rfl, rfl⟩ | ⟨rfl, rfl⟩ | ⟨rfl, rfl⟩ | ⟨rfl, rfl⟩ | ⟨rfl, rfl⟩ | ⟨rfl, rfl⟩ |
    ⟨rfl, rfl⟩ <;>
    simp [changedBy, Setting.apply, Word.file?, Word.switch?, Word.json?, ascii, byte]

/-- The word of the argument for JSON sets the path. -/
theorem Options.changedBy_json (o : Options) (path : Bytes) :
    o.changedBy [⟨ascii "--json", some path⟩] = { o with jsonPath := path, writeJson := true } := by
  simp [changedBy, Word.file?, Word.switch?, Word.json?, ascii, byte]

/-! ## Reading -/

/-- **Arguments ask for what their words say**: for what the first word says that ends the reading,
and without such a word for a run with the options as the words change them. -/
theorem Request.read_eq (before : Options) (arguments : List Bytes) :
    Request.read before arguments =
      ((wordsOf arguments).findSome? Word.request?).getD
        (.run (before.changedBy (wordsOf arguments))) := by
  have single {text : Bytes} (other : Argument.of text ≠ .json) (rest : List Bytes) :
      wordsOf (text :: rest) = ⟨text, none⟩ :: wordsOf rest :=
    wordsOf_single (by rintro rfl; exact other rfl) rest
  fun_induction Request.read before arguments with
  | case1 before =>
      rw [wordsOf, Options.changedBy_nil]
      rfl
  | case2 before text rest argument | case3 before text rest argument
  | case4 before text rest argument =>
      rw [single (by simp [argument]), List.findSome?_cons, Word.request?_eq, argument]
      rfl
  | case5 before text argument =>
      rw [wordsOf, List.findSome?_cons, Word.request?_eq, argument]
      rfl
  | case6 before text path rest argument ih =>
      obtain rfl := Argument.of_eq_json argument
      rw [wordsOf_json, List.findSome?_cons, Word.request?_eq, argument, ih,
        ← Options.changedBy_json, ← Options.changedBy_append]
      rfl
  | case7 before text rest s argument ih =>
      rw [single (by simp [argument]), List.findSome?_cons, Word.request?_eq, argument, ih,
        ← Options.changedBy_setting argument, ← Options.changedBy_append]
      rfl
  | case8 before text rest argument ih =>
      rw [single (by simp [argument]), List.findSome?_cons, Word.request?_eq, argument, ih,
        ← Options.changedBy_file argument, ← Options.changedBy_append]
      rfl

/-- **Arguments that ask for a run ask for what their words say.** -/
theorem Request.read_run {before o : Options} {arguments : List Bytes}
    (run : Request.read before arguments = .run o) : before.Given (wordsOf arguments) o := by
  rw [read_eq] at run
  cases ends : (wordsOf arguments).findSome? Word.request? with
  | none =>
      rw [ends] at run
      obtain rfl := Request.run.inj run
      exact ⟨rfl, rfl, rfl, rfl⟩
  | some request =>
      rw [ends] at run
      obtain ⟨w, _, asked⟩ := List.exists_of_findSome?_eq_some ends
      exact absurd (asked.trans (congrArg some run)) (w.request?_ne_run o)

end BlockSyntax.CommandLine
