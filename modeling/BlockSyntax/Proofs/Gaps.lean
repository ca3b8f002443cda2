import BlockSyntax.Token.Gap

/-!
# What gaps are made of

A gap consists of blanks, line comments and block comments.  A line comment reaches up to
the line feed that ends its line, which is not part of it, or to the end of the text.  A
block comment is closed by the first star with a slash behind it that comes after its
opener; the star of the opener does not count.  Whether some bytes are a gap depends on
what is behind them, because a line comment has to be at the end of its line
(`Gap.Fills`).

A text is split at the end of the longest gap in front of it (`Gap.Split`).  Every text
can be split like this, in one way (`Gap.exists_split`, `Gap.Split.unique`), and passing
over a gap leads to the split: it stops there, unless a block comment starts that is never
closed, and then it finds just that (`Gap.Split.pass_closed`, `Gap.Split.pass_unclosed`).
-/

set_option autoImplicit false

namespace BlockSyntax

/-! ## Moving over a text -/

namespace Position

@[simp] theorem advance_nil (p : Position) : p.advance [] = p := rfl

@[simp] theorem advance_cons (p : Position) (b : UInt8) (text : Bytes) :
    p.advance (b :: text) = (p.step b).advance text := rfl

theorem advance_append (p : Position) (front back : Bytes) :
    p.advance (front ++ back) = (p.advance front).advance back :=
  List.foldl_append

end Position

namespace Gap

/-! ## Comments -/

/-- No star in the text has a slash behind it. -/
def Open (text : Bytes) : Prop := ¬ [star, slash] <:+: text

/-- The text starts with a block comment that is not closed. -/
def Unclosed (text : Bytes) : Prop := ∃ body, text = slash :: star :: body ∧ Open body

/-- The text is at the end of a line. -/
def EndsLine (text : Bytes) : Prop := ∀ b ∈ text.head?, b = lineFeed

theorem open_nil : Open [] := by
  simp [Open]

theorem open_cons {b : UInt8} {text : Bytes} :
    Open (b :: text) ↔ ¬ (b = star ∧ text.head? = some slash) ∧ Open text := by
  have first : [star, slash] <+: b :: text ↔ b = star ∧ text.head? = some slash := by
    cases text with
    | nil => simp [List.cons_prefix_cons]
    | cons c text => simp [List.cons_prefix_cons, eq_comm]
  rw [Open, List.infix_cons_iff, first, not_or, Open]

theorem open_star : Open [star] :=
  open_cons.mpr ⟨by simp, open_nil⟩

/-- A text is open, or it can be cut behind the first star with a slash behind it. -/
theorem open_or_closed (text : Bytes) :
    Open text ∨ ∃ body rest, text = body ++ star :: slash :: rest ∧ Open (body ++ [star]) := by
  induction text with
  | nil => exact .inl open_nil
  | cons b text ih =>
      by_cases here : b = star ∧ text.head? = some slash
      · obtain ⟨rfl, next⟩ := here
        obtain ⟨rest, rfl⟩ := List.head?_eq_some_iff.mp next
        exact .inr ⟨[], rest, rfl, open_star⟩
      · rcases ih with still | ⟨body, rest, rfl, closes⟩
        · exact .inl (open_cons.mpr ⟨here, still⟩)
        · refine .inr ⟨b :: body, rest, rfl, open_cons.mpr ⟨?_, closes⟩⟩
          rintro ⟨rfl, next⟩
          refine here ⟨rfl, ?_⟩
          cases body with
          | nil => exact absurd (Option.some.inj next) (by decide)
          | cons c body => exact next

/-! ## Gaps -/

/-- The bytes are blanks and comments, when the given rest is behind them. -/
inductive Fills : Bytes → Bytes → Prop where
  | nil {rest : Bytes} : Fills [] rest
  | blank {b : UInt8} {gap rest : Bytes} (blank : Character.isBlank b) (more : Fills gap rest) :
      Fills (b :: gap) rest
  /-- A line comment, up to the end of its line. -/
  | line {body gap rest : Bytes} (inside : lineFeed ∉ body) (ends : EndsLine (gap ++ rest))
      (more : Fills gap rest) : Fills (slash :: slash :: (body ++ gap)) rest
  /-- A block comment, up to the first star with a slash behind it. -/
  | block {body gap rest : Bytes} (closes : Open (body ++ [star])) (more : Fills gap rest) :
      Fills (slash :: star :: (body ++ star :: slash :: gap)) rest

theorem Fills.append {front back rest : Bytes} (first : Fills front (back ++ rest))
    (second : Fills back rest) : Fills (front ++ back) rest := by
  generalize behind : back ++ rest = middle at first
  induction first with
  | nil => exact second
  | blank blank _ ih => exact .blank blank (ih behind)
  | line inside ends _ ih =>
      rw [List.cons_append, List.cons_append, List.append_assoc]
      refine .line inside ?_ (ih behind)
      rw [List.append_assoc, behind]
      exact ends
  | block closes _ ih =>
      rw [List.cons_append, List.cons_append, List.append_assoc]
      exact .block closes (ih behind)

/-- The text is cut at the end of the gap in front of it. -/
structure Split (text gap behind : Bytes) : Prop where
  /-- The two parts make the text. -/
  parts : text = gap ++ behind
  /-- The first part is a gap. -/
  fills : Fills gap behind
  /-- No gap in front of the text is longer. -/
  longest : ∀ more rest, text = more ++ rest → Fills more rest → more.length ≤ gap.length

namespace Split

variable {text gap gap' behind behind' : Bytes}

/-- What is behind the gap does not start with any more of one. -/
theorem maximal (split : Split text gap behind) {more rest : Bytes}
    (cut : behind = more ++ rest) (fills : Fills more rest) : more = [] := by
  have longer := split.longest (gap ++ more) rest (by rw [split.parts, cut, List.append_assoc])
    ((cut ▸ split.fills).append fills)
  rw [List.length_append] at longer
  exact List.length_eq_zero_iff.mp (by omega)

/-- There is only one place where a text can be cut like this. -/
theorem unique (split : Split text gap behind) (split' : Split text gap' behind') :
    gap = gap' ∧ behind = behind' := by
  have := split.longest gap' behind' split'.parts split'.fills
  have := split'.longest gap behind split.parts split.fills
  exact List.append_inj (split.parts.symm.trans split'.parts) (by omega)

end Split

/-- **Every text can be cut at the end of the gap in front of it.** -/
theorem exists_split (text : Bytes) : ∃ gap behind, Split text gap behind := by
  -- a gap that is not the longest leaves fewer bytes behind when a longer one replaces it
  suffices lengthen : ∀ n gap behind, behind.length = n → text = gap ++ behind →
      Fills gap behind → ∃ gap behind, Split text gap behind from
    lengthen _ [] text rfl rfl .nil
  intro n
  induction n using Nat.strongRecOn with
  | ind n ih =>
      intro gap behind hn parts fills
      by_cases longest : ∀ more rest, text = more ++ rest → Fills more rest →
          more.length ≤ gap.length
      · exact ⟨gap, behind, parts, fills, longest⟩
      · simp only [Classical.not_forall] at longest
        obtain ⟨more, rest, cut, fills', longer⟩ := longest
        have same : (gap ++ behind).length = (more ++ rest).length := by rw [← parts, ← cut]
        rw [List.length_append, List.length_append] at same
        exact ih rest.length (by omega) more rest rfl cut fills'

/-! ## Passing over a gap -/

section Steps

variable (p opener : Position) (text : Bytes)

theorem pass_lineOpener : pass .between p (slash :: slash :: text) =
    pass .line (p.advance [slash, slash]) text := rfl

theorem pass_blockOpener : pass .between p (slash :: star :: text) =
    pass (.block p) (p.advance [slash, star]) text := rfl

theorem pass_blockCloser : pass (.block opener) p (star :: slash :: text) =
    pass .between (p.advance [star, slash]) text := rfl

theorem pass_line_cons (b : UInt8) : pass .line p (b :: text) =
    pass (if b = lineFeed then .between else .line) (p.step b) text := rfl

/-- Between comments a byte that opens none is passed over if it is a blank. -/
theorem pass_between {b : UInt8} {text : Bytes}
    (opens : ¬ (b = slash ∧ (text.head? = some slash ∨ text.head? = some star))) :
    pass .between p (b :: text) =
      if Character.isBlank b then pass .between (p.step b) text else .closed p (b :: text) := by
  apply pass.eq_3
  · intro rest first second
    exact opens ⟨first, .inl (by rw [second]; rfl)⟩
  · intro rest first second
    exact opens ⟨first, .inr (by rw [second]; rfl)⟩

theorem pass_blank {b : UInt8} (blank : Character.isBlank b) :
    pass .between p (b :: text) = pass .between (p.step b) text := by
  rw [pass_between, if_pos blank]
  rintro ⟨rfl, _⟩
  exact absurd blank (by decide)

/-- Inside a block comment a byte is passed over that does not close it. -/
theorem pass_inside {b : UInt8} {text : Bytes} (more : ¬ (b = star ∧ text.head? = some slash)) :
    pass (.block opener) p (b :: text) = pass (.block opener) (p.step b) text := by
  apply pass.eq_6
  intro rest first second
  exact more ⟨first, by rw [second]; rfl⟩

end Steps

/-- At the end of a line it makes no difference whether the line was a comment. -/
theorem pass_endsLine {text : Bytes} (ends : EndsLine text) (p : Position) :
    pass .line p text = pass .between p text := by
  cases text with
  | nil => rfl
  | cons b text =>
      have feed : b = lineFeed := ends b rfl
      rw [pass_line_cons, if_pos feed, pass_blank]
      rw [feed]
      decide

theorem pass_line {body text : Bytes} (inside : lineFeed ∉ body) (ends : EndsLine text)
    (p : Position) : pass .line p (body ++ text) = pass .between (p.advance body) text := by
  induction body generalizing p with
  | nil => exact pass_endsLine ends p
  | cons b body ih =>
      obtain ⟨first, others⟩ := not_or.mp (mt List.mem_cons.mpr inside)
      rw [List.cons_append, pass_line_cons, if_neg (Ne.symm first), ih others]
      rfl

theorem pass_block {opener : Position} {body text : Bytes} (closes : Open (body ++ [star]))
    (p : Position) :
    pass (.block opener) p (body ++ star :: slash :: text) =
      pass .between (p.advance (body ++ [star, slash])) text := by
  induction body generalizing p with
  | nil => exact pass_blockCloser p opener text
  | cons b body ih =>
      obtain ⟨more, others⟩ := open_cons.mp closes
      rw [List.cons_append, pass_inside, ih others]
      · rfl
      · rintro ⟨rfl, next⟩
        refine more ⟨rfl, ?_⟩
        cases body with
        | nil => exact absurd (Option.some.inj next) (by decide)
        | cons c body => exact next

theorem pass_open {opener : Position} {body : Bytes} (still : Open body) (p : Position) :
    pass (.block opener) p body = .unclosed opener (p.advance body) := by
  induction body generalizing p with
  | nil => rfl
  | cons b body ih =>
      obtain ⟨more, others⟩ := open_cons.mp still
      rw [pass_inside p opener more, ih others]
      rfl

/-- **Passing over a gap** leads behind it. -/
theorem Fills.pass_append {gap rest : Bytes} (fills : Fills gap rest) (p : Position) :
    pass .between p (gap ++ rest) = pass .between (p.advance gap) rest := by
  induction fills generalizing p with
  | nil => rfl
  | blank blank _ ih =>
      rw [List.cons_append, pass_blank _ _ blank, ih]
      rfl
  | @line body gap rest inside ends _ ih =>
      rw [List.cons_append, List.cons_append, List.append_assoc, pass_lineOpener,
        pass_line inside ends, ih, ← Position.advance_append, ← Position.advance_append]
      rfl
  | @block body gap rest closes _ ih =>
      rw [List.cons_append, List.cons_append, List.append_assoc, List.cons_append,
        List.cons_append, pass_blockOpener, pass_block closes, ih, ← Position.advance_append,
        ← Position.advance_append]
      simp

theorem pass_unclosed {text : Bytes} (unclosed : Unclosed text) (p : Position) :
    pass .between p text = .unclosed p (p.advance text) := by
  obtain ⟨body, rfl, still⟩ := unclosed
  rw [pass_blockOpener, pass_open still, ← Position.advance_append]
  rfl

/-- What the opener of a line comment starts is a gap that takes at least the opener. -/
theorem exists_line (text : Bytes) :
    ∃ body rest, slash :: slash :: text = (slash :: slash :: body) ++ rest ∧
      Fills (slash :: slash :: body) rest := by
  let onLine : UInt8 → Bool := (· ≠ lineFeed)
  refine ⟨text.takeWhile onLine, text.dropWhile onLine, ?_, ?_⟩
  · rw [List.cons_append, List.cons_append, List.takeWhile_append_dropWhile]
  · have inside : lineFeed ∉ text.takeWhile onLine := by
      intro mem
      have := List.all_eq_true.mp List.all_takeWhile _ mem
      simp [onLine] at this
    have ends : EndsLine (text.dropWhile onLine) := by
      intro b head
      have := List.head?_dropWhile_not onLine text
      rw [head] at this
      simpa [onLine] using this
    have line : Fills (slash :: slash :: (text.takeWhile onLine ++ [])) (text.dropWhile onLine) :=
      .line inside ends .nil
    rwa [List.append_nil] at line

/-- What the opener of a block comment starts is not closed, or it is a gap. -/
theorem unclosed_or_exists_block (text : Bytes) :
    Unclosed (slash :: star :: text) ∨
      ∃ body rest, slash :: star :: text = (slash :: star :: body) ++ rest ∧
        Fills (slash :: star :: body) rest := by
  rcases open_or_closed text with still | ⟨body, rest, rfl, closes⟩
  · exact .inl ⟨text, rfl, still⟩
  · refine .inr ⟨body ++ [star, slash], rest, ?_, .block closes .nil⟩
    rw [List.cons_append, List.cons_append, List.append_assoc]
    rfl

namespace Split

variable {text gap behind : Bytes}

/-- **Behind a gap passing stops at once**: no blank is there, and no comment that is
closed. -/
theorem pass_behind (split : Split text gap behind) (closed : ¬ Unclosed behind) (p : Position) :
    pass .between p behind = .closed p behind := by
  cases behind with
  | nil => rfl
  | cons b behind =>
      have notBlank : ¬ Character.isBlank b := by
        intro blank
        have none : [b] = [] := split.maximal rfl (.blank blank .nil)
        exact absurd none (List.cons_ne_nil _ _)
      rw [pass_between, if_neg notBlank]
      rintro ⟨rfl, line | block⟩
      · obtain ⟨others, rfl⟩ := List.head?_eq_some_iff.mp line
        obtain ⟨body, rest, cut, fills⟩ := exists_line others
        exact absurd (split.maximal cut fills) (List.cons_ne_nil _ _)
      · obtain ⟨others, rfl⟩ := List.head?_eq_some_iff.mp block
        rcases unclosed_or_exists_block others with unclosed | ⟨body, rest, cut, fills⟩
        · exact closed unclosed
        · exact absurd (split.maximal cut fills) (List.cons_ne_nil _ _)

/-- **Passing over the gap in front of a text** stops where the text is split, ... -/
theorem pass_closed (split : Split text gap behind) (closed : ¬ Unclosed behind) (p : Position) :
    pass .between p text = .closed (p.advance gap) behind := by
  rw [split.parts, split.fills.pass_append, split.pass_behind closed]

/-- ... unless a block comment starts there that is not closed. -/
theorem pass_unclosed (split : Split text gap behind) (unclosed : Unclosed behind)
    (p : Position) :
    pass .between p text = .unclosed (p.advance gap) (p.advance (gap ++ behind)) := by
  rw [split.parts, split.fills.pass_append, Gap.pass_unclosed unclosed, Position.advance_append]

end Split

end Gap

end BlockSyntax
