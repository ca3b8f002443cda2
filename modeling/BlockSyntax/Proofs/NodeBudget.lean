import BlockSyntax.Grammar.Session
import Mathlib.Algebra.GroupWithZero.Nat

/-!
# What nodes cost

A reply counts the nodes that were completed while it was read, also when it is a failure.  They
are paid for with the tokens that were taken, at two nodes a token: no routine of the grammar
completes more nodes than that, on any of its ways out (`Reply.Affords`).  The whole program
needs one node more, and there are programs that spend all of it.

The predicate has a credit, which a routine may spend beyond its own tokens because somebody
before it did not, and says how much is spare behind a value.  A parenthesis or a comma is not
spent at all, a name and the word of a type are spent by half, and a literal, an operator or a
declared name to the full; so a list with brackets around it can pay for its own node, and a
declaration for its two lists with its type and its semicolon.  Each routine has one lemma, in
which the parser for inner expressions or statements is assumed to pay for itself, and
`expression_affords`, `statement_affords` and `program_affords` close the recursion.
-/

set_option autoImplicit false

namespace BlockSyntax

variable {α β : Type} {m n : Nat}

/-! ## Chains of parsers -/

namespace Reply

/-- The nodes that a reply counts are paid for with two for each token that was taken and with a
credit, and something is spare behind a value. -/
def Affords (tokens : List Token) (credit : Nat) (spare : α → Nat) : Reply α n → Prop
  | ok a rest made _ => made + 2 * rest.length + spare a ≤ 2 * tokens.length + credit
  | fail _ rest made => made + 2 * rest.length ≤ 2 * tokens.length + credit

/-- The reply pays for its nodes with its own tokens. -/
abbrev Pays (tokens : List Token) (r : Reply α n) : Prop := r.Affords tokens 0 fun _ => 0

variable {tokens : List Token} {credit : Nat} {spare : α → Nat} {r : Reply α n}

theorem affords_ok {a : α} {made : Nat} {h : tokens.length < n} :
    (ok a tokens made h : Reply α n).Affords tokens credit spare ↔ made + spare a ≤ credit := by
  simp only [Affords]
  omega

theorem affords_fail {e : Expectation} :
    (fail e tokens 0 : Reply α n).Affords tokens credit spare := by
  simp only [Affords]
  omega

/-- More credit does no harm, and not all that is spare has to be named. -/
theorem Affords.mono {credit' : Nat} {spare' : α → Nat} (affords : r.Affords tokens credit spare)
    (more : credit ≤ credit') (less : ∀ a, spare' a ≤ spare a) :
    r.Affords tokens credit' spare' := by
  cases r with
  | ok a rest made h =>
      have := less a
      simp only [Affords] at affords ⊢
      omega
  | fail e rest made =>
      simp only [Affords] at affords ⊢
      omega

/-- What is spare need not be used. -/
theorem Affords.pays (affords : r.Affords tokens 0 spare) : r.Pays tokens :=
  affords.mono (Nat.le_refl _) fun _ => Nat.zero_le _

/-- Credit need not be used. -/
theorem Pays.credited (pays : r.Pays tokens) : r.Affords tokens credit fun _ => 0 :=
  Affords.mono pays (Nat.zero_le _) fun _ => Nat.le_refl _

/-- A token that is taken in front is a credit of two. -/
theorem Affords.cons {t : Token} (affords : r.Affords tokens (credit + 2) spare) :
    r.Affords (t :: tokens) credit spare := by
  cases r with
  | ok a rest made h | fail e rest made =>
      simp only [Affords, List.length_cons] at affords ⊢
      omega

/-- A token that is taken in front need not be spent. -/
theorem Pays.cons {t : Token} (pays : r.Pays tokens) : r.Pays (t :: tokens) :=
  pays.credited.cons

/-- Nodes completed before are paid for with credit. -/
theorem Affords.after {earlier : Nat} (affords : r.Affords tokens credit spare) :
    (r.after earlier).Affords tokens (credit + earlier) spare := by
  cases r with
  | ok a rest made h | fail e rest made =>
      simp only [Affords, Reply.after] at affords ⊢
      omega

/-- A node at the end of a value is paid for with what is spare. -/
theorem Affords.node (affords : r.Affords tokens credit fun a => spare a + 1) :
    r.node.Affords tokens credit spare := by
  cases r with
  | ok a rest made h =>
      simp only [Affords, Reply.node] at affords ⊢
      omega
  | fail e rest made => exact affords

theorem Affords.map {f : α → β} {left : β → Nat}
    (affords : r.Affords tokens credit fun a => left (f a)) :
    (r.map f).Affords tokens credit left := by
  cases r with
  | ok a rest made h | fail e rest made => exact affords

theorem Affords.widen {r : Reply α m} {h : m ≤ n} (affords : r.Affords tokens credit spare) :
    (r.widen h).Affords tokens credit spare := by
  cases r with
  | ok a rest made h | fail e rest made => exact affords

/-- What is spare behind a value is credit for the parser behind it. -/
theorem Affords.bind {r : Reply α m} {left : β → Nat}
    {next : α → (rest : List Token) → rest.length < m → Reply β n}
    (affords : r.Affords tokens 0 spare)
    (behind : ∀ a rest h, (next a rest h).Affords rest (credit + spare a) left) :
    (r.bind next).Affords tokens credit left := by
  cases r with
  | ok a rest made h =>
      have following := behind a rest h
      simp only [Reply.bind]
      generalize next a rest h = reply at following ⊢
      cases reply with
      | ok b us made' h' | fail e us made' =>
          simp only [Affords, Reply.after] at affords following ⊢
          omega
  | fail e rest made =>
      simp only [Affords, Reply.bind] at affords ⊢
      omega

end Reply

open Reply

/-! ## Tokens and repetition -/

section Tokens

variable {k : TokenKind} {tokens : List Token}

/-- A token that is taken pays for two nodes. -/
theorem affords_takeIf {test : TokenKind → Bool} {expected : Expectation} :
    (takeIf test expected tokens).Affords tokens 0 fun _ => 2 := by
  cases tokens with
  | nil => exact affords_fail
  | cons t rest =>
      simp only [takeIf]
      split
      · exact Affords.cons (affords_ok.mpr (Nat.le_refl _))
      · exact affords_fail

theorem affords_take : (take k tokens).Affords tokens 0 fun _ => 2 :=
  affords_takeIf

theorem affords_takeAfter {part : Part} : (takeAfter k part tokens).Affords tokens 0 fun _ => 2 :=
  affords_takeIf

/-- A token that becomes a terminal. -/
theorem affords_takeIf_node {test : TokenKind → Bool} {expected : Expectation} :
    (takeIf test expected tokens).node.Affords tokens 0 fun _ => 1 :=
  Affords.node affords_takeIf

/-- A token that becomes a terminal in a construct of its own. -/
theorem affords_takeIf_leaf {test : TokenKind → Bool} {expected : Expectation} :
    (takeIf test expected tokens).node.node.Affords tokens 0 fun _ => 0 :=
  Affords.node affords_takeIf_node

theorem affords_takeName {role : NameRole} :
    (takeName role tokens).Affords tokens 0 fun _ => 1 :=
  affords_takeIf_node

theorem affords_takeType : (takeType tokens).Affords tokens 0 fun _ => 1 :=
  affords_takeIf_node

theorem affords_skip : (skip k tokens).Affords tokens 0 fun _ => 0 := by
  unfold skip
  split
  · exact .widen (.map affords_take.pays)
  · exact affords_ok.mpr (Nat.le_refl _)

variable {spare : α → Nat} {item : Below (tokens.length + 1) α}

theorem affords_whileNext {invites : TokenKind → Bool}
    (each : ∀ us h, (item us h).Affords us 0 spare) :
    (whileNext invites tokens item).Affords tokens 0 fun as => (as.map spare).sum := by
  fun_induction whileNext invites tokens item with
  | case1 tokens item invited ih =>
      refine (each tokens _).bind fun a rest shorter => ?_
      refine (ih rest shorter fun us _ => each us _).bind fun as rest _ => ?_
      exact affords_ok.mpr (by simp)
  | case2 tokens item stops => exact affords_ok.mpr (Nat.le_refl _)

/-- Commas are not needed. -/
theorem affords_separated (each : ∀ us h, (item us h).Affords us 0 spare) :
    (separated tokens item).Affords tokens 0 fun as => (as.map spare).sum := by
  fun_induction separated tokens item with
  | case1 tokens item ih =>
      refine (each tokens _).bind fun a rest shorter => ?_
      split
      · refine affords_take.bind fun _ us shorter' => ?_
        refine (ih rest shorter us shorter' fun us _ => each us _).bind fun as rest _ => ?_
        rw [affords_ok, List.map_cons, List.sum_cons]
        omega
      · exact affords_ok.mpr (by simp)

theorem affords_separatedUpTo {close : TokenKind}
    (each : ∀ us h, (item us h).Affords us 0 spare) :
    (separatedUpTo close tokens item).Affords tokens 0 fun as => (as.map spare).sum := by
  unfold separatedUpTo
  split
  · exact affords_ok.mpr (Nat.le_refl _)
  · exact (affords_separated each).widen

end Tokens

/-! ## Expressions -/

namespace Grammar

theorem listNodes_le (items : List α) : listNodes items ≤ items.length := by
  cases items with
  | nil => exact Nat.le_refl _
  | cons a items => exact Nat.succ_le_succ (Nat.zero_le _)

variable {self : Below n Expr} (inner : ∀ us h, (self us h).Pays us)
include inner

/-- The brackets of an index are not spent. -/
theorem index_affords {tokens : List Token} {h : tokens.length ≤ n} :
    (index self tokens h).Affords tokens 0 fun _ => 4 := by
  unfold index
  refine affords_take.bind fun _ us h₁ => ?_
  refine (inner us _).bind fun e vs h₂ => ?_
  refine affords_takeAfter.bind fun _ ws h₃ => ?_
  exact affords_ok.mpr (Nat.le_refl _)

/-- Half of the name is left for the construct around it.  The list of indices or arguments is
paid for with brackets. -/
theorem reference_affords {name : Token} {tokens : List Token} {h : tokens.length < n} :
    (reference self name tokens h).Affords tokens 1 fun _ => 0 := by
  unfold reference
  split
  · refine affords_take.bind fun _ us _ => ?_
    refine (affords_separatedUpTo fun vs _ => inner vs _).bind fun arguments vs _ => ?_
    refine affords_takeAfter.bind fun _ ws _ => ?_
    have list : listNodes arguments ≤ 1 := by
      unfold listNodes
      split <;> decide
    rw [affords_ok]
    omega
  · refine (affords_whileNext fun us _ => index_affords inner).bind fun indices us _ => ?_
    have list := listNodes_le indices
    rw [affords_ok, List.map_const', List.sum_replicate_nat]
    omega

theorem primary_affords {tokens : List Token} {h : tokens.length ≤ n} :
    (primary self tokens h).Pays tokens := by
  unfold primary
  split
  · exact affords_fail
  · split
    case h_1 | h_2 | h_3 => exact Affords.cons (affords_ok.mpr (Nat.le_refl _))
    case h_4 => exact Affords.cons (reference_affords inner).after
    case h_5 =>
      refine Affords.cons ((inner _ _).bind fun e us _ => ?_)
      refine affords_takeAfter.bind fun _ vs _ => ?_
      exact affords_ok.mpr (Nat.zero_le _)
    case h_6 => exact affords_fail

theorem unary_affords {tokens : List Token} {h : tokens.length ≤ n} :
    (unary self tokens h).Pays tokens := by
  unfold unary
  refine (affords_whileNext fun us _ => affords_takeIf_node).bind fun operators us _ => ?_
  refine (primary_affords inner).bind fun e vs _ => ?_
  rw [affords_ok, List.map_const', List.sum_replicate_nat]
  omega

theorem binary_affords {level : Nat} {tokens : List Token} {h : tokens.length ≤ n} :
    (binary self level tokens h).Pays tokens := by
  induction level generalizing tokens with
  | zero => exact unary_affords inner
  | succ level ih =>
      have operations : ∀ (us : List Token) (h : us.length ≤ n),
          (operation (level + 1) (binary self level) us h).Pays us := by
        intro us h
        unfold operation
        refine affords_takeIf_node.bind fun operator vs _ => ?_
        refine ih.bind fun right ws _ => ?_
        exact affords_ok.mpr (Nat.le_refl _)
      rw [binary]
      refine ih.bind fun first us _ => ?_
      refine (affords_whileNext fun vs _ => operations vs _).bind fun others vs _ => ?_
      exact affords_ok.mpr (Nat.zero_le _)

end Grammar

open Grammar

/-- **An expression completes at most two nodes for each token.** -/
theorem expression_affords (tokens : List Token) : (expression tokens).Pays tokens := by
  rw [expression]
  exact binary_affords fun us _ => expression_affords us
termination_by tokens.length

/-! ## Statements -/

namespace Grammar

theorem parenthesized_affords {before inside : Part} {tokens : List Token} :
    (parenthesized before inside tokens).Affords tokens 0 fun _ => 4 := by
  unfold parenthesized
  refine affords_takeAfter.bind fun _ us _ => ?_
  refine (expression_affords us).bind fun e vs _ => ?_
  refine affords_takeAfter.bind fun _ ws _ => ?_
  exact affords_ok.mpr (Nat.le_refl _)

/-- Half of the type and the semicolon pay for the declaration and its two lists. -/
theorem declaration_affords {type : Token} {tokens : List Token} :
    (declaration type tokens).Affords tokens 1 fun _ => 0 := by
  have sizes : ∀ us : List Token, (dimension us).Affords us 0 fun _ => 4 := by
    intro us
    unfold dimension
    refine affords_take.bind fun _ vs _ => ?_
    refine affords_takeIf_leaf.bind fun _ ws _ => ?_
    refine affords_takeAfter.bind fun _ xs _ => ?_
    exact affords_ok.mpr (Nat.le_refl _)
  unfold declaration
  refine (affords_whileNext fun us _ => sizes us).bind fun dimensions us _ => ?_
  refine (affords_separated fun vs _ => affords_takeIf_leaf).bind fun names vs _ => ?_
  refine affords_takeAfter.bind fun _ ws _ => ?_
  rw [affords_ok]
  omega

theorem print_affords {tokens : List Token} : (print tokens).Pays tokens := by
  unfold print
  refine parenthesized_affords.bind fun value us _ => ?_
  refine affords_takeAfter.bind fun _ vs _ => ?_
  exact affords_ok.mpr (by decide)

theorem read_affords {tokens : List Token} : (read tokens).Pays tokens := by
  unfold read
  refine parenthesized_affords.bind fun target us _ => ?_
  refine affords_takeAfter.bind fun _ vs _ => ?_
  exact affords_ok.mpr (by decide)

/-- The word in front pays for a `return` without anything behind it. -/
theorem result_affords {tokens : List Token} : (result tokens).Affords tokens 2 fun _ => 0 := by
  have value : (resultValue tokens).Pays tokens := by
    unfold resultValue
    split
    · exact affords_ok.mpr (Nat.le_refl _)
    · exact .widen (.map (expression_affords tokens))
  unfold result
  refine value.bind fun value us _ => ?_
  split
  · exact affords_ok.mpr (by decide)
  · refine affords_takeAfter.bind fun _ vs _ => ?_
    exact affords_ok.mpr (by decide)

theorem assignmentOrEvaluation_affords {tokens : List Token} :
    (assignmentOrEvaluation tokens).Pays tokens := by
  unfold assignmentOrEvaluation
  refine (expression_affords tokens).bind fun value us _ => ?_
  split
  · refine affords_take.bind fun _ vs _ => ?_
    refine (expression_affords vs).bind fun target ws _ => ?_
    refine affords_takeAfter.bind fun _ xs _ => ?_
    exact affords_ok.mpr (by decide)
  · refine affords_takeAfter.bind fun _ vs _ => ?_
    exact affords_ok.mpr (by decide)

theorem closing_affords {k : TokenKind} {tokens : List Token} : (closing k tokens).Pays tokens := by
  unfold closing
  refine affords_skip.bind fun ended us _ => ?_
  split
  · exact .widen (.map affords_takeAfter.pays)
  · exact affords_ok.mpr (Nat.le_refl _)

variable {self : Below n Stmt} (inner : ∀ us h, (self us h).Pays us)
include inner

theorem orIf_affords {tokens : List Token} {h : tokens.length ≤ n} :
    (orIf self tokens h).Pays tokens := by
  unfold orIf
  refine affords_take.bind fun _ us _ => ?_
  refine affords_takeAfter.bind fun _ vs _ => ?_
  refine parenthesized_affords.bind fun condition ws _ => ?_
  refine (inner ws _).bind fun body xs _ => ?_
  exact affords_ok.mpr (by decide)

theorem otherwise_affords {tokens : List Token} {h : tokens.length ≤ n} :
    (otherwise self tokens h).Pays tokens := by
  unfold otherwise
  split
  · refine affords_take.bind fun _ us _ => ?_
    refine (inner us _).bind fun body vs _ => ?_
    exact affords_ok.mpr (Nat.zero_le _)
  · exact affords_ok.mpr (Nat.le_refl _)

theorem conditional_affords {tokens : List Token} {h : tokens.length ≤ n} :
    (conditional self tokens h).Pays tokens := by
  unfold conditional
  refine parenthesized_affords.bind fun condition us _ => ?_
  refine (inner us _).bind fun body vs _ => ?_
  refine (affords_whileNext fun ws _ => orIf_affords inner).bind fun orIfs ws _ => ?_
  refine (otherwise_affords inner).bind fun last xs _ => ?_
  refine affords_skip.bind fun _ ys _ => ?_
  rw [affords_ok]
  omega

theorem loop_affords {tokens : List Token} {h : tokens.length ≤ n} :
    (loop self tokens h).Pays tokens := by
  unfold loop
  refine affords_takeAfter.bind fun _ _ _ => ?_
  refine affords_takeName.bind fun counter _ _ => ?_
  refine affords_take.bind fun _ _ _ => ?_
  refine affords_take.bind fun _ us _ => ?_
  refine (expression_affords us).bind fun lower _ _ => ?_
  refine affords_take.bind fun _ vs _ => ?_
  refine (expression_affords vs).bind fun upper _ _ => ?_
  refine affords_takeAfter.bind fun _ ws _ => ?_
  refine (inner ws _).bind fun body _ _ => ?_
  refine closing_affords.bind fun _ _ _ => ?_
  exact affords_ok.mpr (by decide)

theorem block_affords {tokens : List Token} {h : tokens.length < n} :
    (block self tokens h).Pays tokens := by
  unfold block
  refine (affords_whileNext fun us _ => inner us _).bind fun body us _ => ?_
  refine affords_take.bind fun _ vs _ => ?_
  rw [affords_ok]
  omega

theorem begun_affords {tokens : List Token} {h : tokens.length < n} :
    (begun self tokens h).Pays tokens := by
  unfold begun
  split
  · exact affords_take.bind fun _ us _ => (conditional_affords inner).credited.widen
  · exact affords_take.bind fun _ us _ => (loop_affords inner).credited.widen
  · exact block_affords inner

theorem statementAround_affords {tokens : List Token} {h : tokens.length ≤ n} :
    (statementAround self tokens h).Pays tokens := by
  cases tokens with
  | nil => exact assignmentOrEvaluation_affords
  | cons t rest =>
      -- only declarations and `return` need their first word
      simp only [statementAround]
      split
      case h_1 => exact Pays.cons (begun_affords inner)
      case h_2 | h_3 | h_4 => exact Affords.cons (.widen (.after declaration_affords))
      case h_5 => exact Pays.cons print_affords.widen
      case h_6 => exact Pays.cons read_affords.widen
      case h_7 => exact result_affords.cons
      case h_8 => exact Pays.cons (conditional_affords inner).widen
      case h_9 => exact Pays.cons (loop_affords inner).widen
      case h_10 => exact assignmentOrEvaluation_affords

end Grammar

/-- **A statement completes at most two nodes for each token.** -/
theorem statement_affords (tokens : List Token) : (statement tokens).Pays tokens := by
  rw [statement]
  exact statementAround_affords fun us _ => statement_affords us
termination_by tokens.length

/-! ## Programs -/

namespace Grammar

/-- Half of the name, half of the type and the colon, less the parameter. -/
theorem param_affords {tokens : List Token} : (param tokens).Affords tokens 0 fun _ => 3 := by
  unfold param
  refine affords_takeName.bind fun name _ _ => ?_
  refine affords_takeAfter.bind fun _ _ _ => ?_
  refine affords_takeType.bind fun type _ _ => ?_
  exact affords_ok.mpr (Nat.le_refl _)

theorem params_affords {tokens : List Token} : (params tokens).Affords tokens 0 fun _ => 3 := by
  unfold params
  refine affords_takeAfter.bind fun _ us _ => ?_
  refine (affords_separatedUpTo fun vs _ => param_affords).bind fun ps vs _ => ?_
  refine affords_takeAfter.bind fun _ ws _ => ?_
  rw [affords_ok]
  omega

theorem closingBegun_affords {body : Stmt} {tokens : List Token} :
    (closingBegun body tokens).Pays tokens := by
  unfold closingBegun
  split
  · exact .map affords_takeAfter.pays
  · refine affords_takeAfter.bind fun _ us _ => ?_
    refine affords_takeAfter.bind fun _ vs _ => ?_
    exact affords_ok.mpr (Nat.zero_le _)

theorem function_affords {opened : Bool} {tokens : List Token} :
    (function opened tokens).Pays tokens := by
  have closed : ∀ (body : Stmt) (us : List Token),
      (if opened then (closingBegun body us).widen (length_le_succ us)
        else closing .kwFunction us).Pays us := by
    intro body us
    split
    · exact closingBegun_affords.widen
    · exact closing_affords
  unfold function
  refine affords_takeName.bind fun name _ _ => ?_
  refine params_affords.bind fun ps _ _ => ?_
  refine affords_takeAfter.bind fun _ _ _ => ?_
  refine affords_takeType.bind fun type us _ => ?_
  refine (statement_affords us).bind fun body vs _ => ?_
  refine (closed body vs).bind fun _ ws _ => ?_
  exact affords_ok.mpr (by decide)

theorem enumeration_affords {tokens : List Token} : (enumeration tokens).Pays tokens := by
  have ends : ∀ us : List Token, (enumerationEnd us).Pays us := by
    intro us
    unfold enumerationEnd
    split
    · exact affords_ok.mpr (Nat.le_refl _)
    · exact .widen (.map affords_takeAfter.pays)
  unfold enumeration
  refine affords_takeName.bind fun name _ _ => ?_
  refine affords_takeAfter.bind fun _ _ _ => ?_
  refine (affords_separatedUpTo fun us _ => affords_takeIf_leaf).bind fun values _ _ => ?_
  refine affords_takeAfter.bind fun _ us _ => ?_
  refine (ends us).bind fun _ vs _ => ?_
  rw [affords_ok]
  omega

theorem item_affords {tokens : List Token} : (item tokens).Pays tokens := by
  cases tokens with
  | nil => exact .map (statement_affords [])
  | cons t rest =>
      simp only [item]
      split
      · refine Pays.cons (.widen (affords_take.bind fun _ us _ => ?_))
        exact Pays.credited (.widen (.map function_affords))
      · exact Pays.cons (.widen (.map function_affords))
      · exact Pays.cons (.widen (.map enumeration_affords))
      · exact .map (statement_affords _)

end Grammar

/-- **A program completes at most two nodes for each token and one for itself**, whether it is
read or not. -/
theorem program_affords (tokens : List Token) :
    (program tokens).Affords tokens 1 fun _ => 0 := by
  unfold program
  refine (affords_whileNext fun us _ => item_affords).bind fun items us _ => ?_
  rw [affords_ok]
  omega

end BlockSyntax
