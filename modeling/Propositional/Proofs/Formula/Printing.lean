import Propositional.Proofs.Formula.Reduction
import Propositional.Proofs.Token.Spelling

namespace Propositional

/-!
# Reading printed formulas

A printed formula is read from the tokens `Formula.tokens`, in which an operand
stands in brackets exactly where its place does not admit its precedence.  With
the negation signs cancelled these tokens derive the reduced formula, at the
level of its outermost connective.
-/

namespace Formula

open Text (withoutBlanks withoutBlanks_append)
open Token (negationSign)

/-- Every atom is named by a capital letter. -/
def Named (formula : Formula) : Prop :=
  ∀ name ∈ formula.names, Token.namesVariable name = true

namespace Named

theorem left
    {operation : Binary}
    {left right : Formula}
    (named : Named (.binary operation left right)) :
    Named left :=
  fun name member => named name (by simp [names, member])

theorem right
    {operation : Binary}
    {left right : Formula}
    (named : Named (.binary operation left right)) :
    Named right :=
  fun name member => named name (by simp [names, member])

end Named

/-- The tokens of a formula for a place that admits no precedence below `least`. -/
def delimitTokens
    (least precedence : Int)
    (tokens : List Token) :
    List Token :=
  if least ≤ precedence then
    tokens
  else
    Token.opening :: tokens ++ [Token.closing]

/-- The tokens of a printed formula. -/
def tokens : Formula → List Token
  | .atom name =>
      [Token.ofName name]
  | .negation operand =>
      negationSign ::
        delimitTokens Connective.negation.precedence operand.precedence
          operand.tokens
  | .binary operation left right =>
      delimitTokens (leastLeft operation) left.precedence left.tokens ++
        Token.ofConnective (.binary operation) ::
          delimitTokens (leastRight operation) right.precedence right.tokens

/-- The level of the outermost connective of a formula. -/
def level : Formula → Level
  | .atom _ | .negation _ =>
      .factor
  | .binary operation _ _ =>
      operation.level

/-- A place that admits a formula is one for its level. -/
theorem precedence_le_level
    {formula : Formula}
    {least : Int}
    (admits : least ≤ formula.precedence)
    (place : least ≤ Level.factor.precedence) :
    least ≤ formula.level.precedence := by
  cases formula with
  | atom name =>
      exact place
  | negation operand =>
      exact place
  | binary operation left right =>
      rw [level, ← operation.precedence_level]
      exact admits

theorem withoutBlanks_symbol (connective : Connective) :
    withoutBlanks connective.symbol = connective.symbol :=
  (Token.Lexeme.symbol connective).withoutBlanks_text

theorem withoutBlanks_name
    {name : Text}
    (names : Token.namesVariable name = true) :
    withoutBlanks name = name :=
  (Token.Lexeme.ofName names).withoutBlanks_text

theorem withoutBlanks_delimit
    {least precedence : Int}
    {text : Text}
    {tokens : List Token}
    (spells : withoutBlanks text = tokens.flatMap Token.text) :
    withoutBlanks (delimit least precedence text) =
      (delimitTokens least precedence tokens).flatMap Token.text := by
  unfold delimit delimitTokens
  by_cases admits : least ≤ precedence
  · simpa [admits] using spells
  · simp only [admits, ↓reduceIte, withoutBlanks_append, spells,
      List.flatMap_cons, List.flatMap_append, List.cons_append]
    rfl

/-- Without its blanks a printed formula spells its tokens. -/
theorem withoutBlanks_print
    {formula : Formula}
    (named : formula.Named) :
    withoutBlanks formula.print = formula.tokens.flatMap Token.text := by
  induction formula with
  | atom name =>
      rw [print, withoutBlanks_name (named name (by simp [names])), tokens]
      simp [Token.ofName]
  | negation operand inductionHypothesis =>
      rw [print, withoutBlanks_append, withoutBlanks_symbol,
        withoutBlanks_delimit (inductionHypothesis named), tokens]
      rfl
  | binary operation left right leftHypothesis rightHypothesis =>
      have blank : withoutBlanks (Text.ascii " ") = [] := by
        decide
      rw [print, tokens]
      simp only [withoutBlanks_append, withoutBlanks_symbol, blank,
        withoutBlanks_delimit (leftHypothesis named.left),
        withoutBlanks_delimit (rightHypothesis named.right),
        List.append_assoc, List.flatMap_append, List.flatMap_cons]
      rfl

/-- Cancelling does not reach beyond the brackets of a place. -/
theorem cancel_delimitTokens
    (least precedence : Int)
    (tokens : List Token) :
    Runs.cancel negationSign (delimitTokens least precedence tokens) =
      delimitTokens least precedence (Runs.cancel negationSign tokens) := by
  unfold delimitTokens
  by_cases admits : least ≤ precedence
  · rw [if_pos admits, if_pos admits]
  · rw [if_neg admits, if_neg admits, Token.cancel_group]

/--
What derives at the level of a formula, delimited for a place, derives at every
level that is no tighter than the place.
-/
theorem derives_delimitTokens
    {formula derived : Formula}
    {tokens : List Token}
    {asked : Level}
    {least : Int}
    (derives : Derives formula.level tokens derived)
    (order : asked.precedence ≤ least)
    (place : least ≤ Level.factor.precedence) :
    Derives asked
      (delimitTokens least formula.precedence tokens) derived := by
  unfold delimitTokens
  by_cases admits : least ≤ formula.precedence
  · rw [if_pos admits]
    exact derives.loosen
      (Int.le_trans order (precedence_le_level admits place))
  · have whole : Derives .equivalence tokens derived :=
      derives.loosen formula.level.equivalence_le
    rw [if_neg admits]
    exact whole.group.loosen (Int.le_trans order place)

/--
The cancelled tokens of a factor derive its reduced formula, and they start
with a sign exactly if that formula is a negation.
-/
structure Spells (tokens : List Token) (reduced : Formula) : Prop where
  derives :
    Derives .factor (Runs.cancel negationSign tokens) reduced
  signed_iff :
    (Runs.cancel negationSign tokens).head? = some negationSign ↔
      ∃ operand, reduced = .negation operand

namespace Spells

theorem atom
    {name : Text}
    (names : Token.namesVariable name = true) :
    Spells [Token.ofName name] (.atom name) := by
  have unsigned := ofName_ne_negationSign name
  have cancelled :
      Runs.cancel negationSign [Token.ofName name] = [Token.ofName name] :=
    Runs.cancel_cons_of_ne unsigned []
  constructor
  · rw [cancelled]
    exact .atom names
  · simp [cancelled, unsigned]

/-- A formula in brackets that is no negation starts with no sign. -/
theorem group
    {tokens : List Token}
    {reduced : Formula}
    (derives :
      Derives .equivalence (Runs.cancel negationSign tokens) reduced)
    (noNegation : ∀ operand, reduced ≠ .negation operand) :
    Spells (Token.opening :: tokens ++ [Token.closing]) reduced := by
  have unsigned : Token.opening ≠ negationSign := by
    decide
  constructor
  · rw [Token.cancel_group]
    exact derives.group
  · rw [Token.cancel_group]
    simp [unsigned, noNegation]

/-- A sign before a factor cancels with one in front of it, or else stays. -/
theorem negation
    {tokens : List Token}
    {reduced : Formula}
    (spells : Spells tokens reduced)
    (single : ∀ inner, reduced ≠ .negation (.negation inner)) :
    Spells (negationSign :: tokens) reduced.negate := by
  obtain ⟨derives, signed⟩ := spells
  rcases negate_cases reduced with
      ⟨operand, rfl, taken⟩ | ⟨noNegation, put⟩
  · have shape :=
      Runs.cancel_eq_cons_of_meets (signed.mpr ⟨operand, rfl⟩)
    rw [shape] at derives
    obtain ⟨_, same, laterDerives⟩ := derives.of_negation_cons
    cases same
    rw [taken]
    refine ⟨laterDerives, ?_, ?_⟩
    · intro laterSigned
      rw [Runs.cancel_eq_cons_of_meets laterSigned] at laterDerives
      obtain ⟨inner, isNegation, _⟩ := laterDerives.of_negation_cons
      exact ⟨inner, isNegation⟩
    · rintro ⟨inner, rfl⟩
      exact (single inner rfl).elim
  · have unsigned :
        (Runs.cancel negationSign tokens).head? ≠ some negationSign := by
      intro starts
      obtain ⟨operand, isNegation⟩ := signed.mp starts
      exact noNegation operand isNegation
    rw [put]
    constructor
    · rw [Runs.cancel_cons_of_apart unsigned]
      exact derives.negation
    · rw [Runs.cancel_cons_of_apart unsigned]
      simp

end Spells

/-- The tokens of a binary formula stand in brackets where a factor is asked. -/
theorem delimitTokens_factor_binary
    (operation : Binary)
    (left right : Formula) :
    delimitTokens Connective.negation.precedence
        (Formula.binary operation left right).precedence
        (Formula.binary operation left right).tokens =
      Token.opening :: (Formula.binary operation left right).tokens ++
        [Token.closing] := by
  have looser :
      ¬ Connective.negation.precedence ≤
        (Connective.binary operation).precedence := by
    cases operation <;> decide
  rw [delimitTokens]
  exact if_neg looser

theorem leftLevel_le_leastLeft (operation : Binary) :
    operation.leftLevel.precedence ≤ leastLeft operation ∧
      leastLeft operation ≤ Level.factor.precedence := by
  cases operation <;> decide

theorem rightLevel_le_leastRight (operation : Binary) :
    operation.rightLevel.precedence ≤ leastRight operation ∧
      leastRight operation ≤ Level.factor.precedence := by
  cases operation <;> decide

/--
The cancelled tokens of a formula derive its reduced form at its own level, and
delimited as a factor they start with a sign exactly if that is a negation.
-/
theorem derives_cancel_tokens
    {formula : Formula}
    (named : formula.Named) :
    Derives formula.level
        (Runs.cancel negationSign formula.tokens) formula.reduce ∧
      Spells
        (delimitTokens Connective.negation.precedence formula.precedence
          formula.tokens)
        formula.reduce := by
  induction formula with
  | atom name =>
      have spells := Spells.atom (named name (by simp [names]))
      exact ⟨spells.derives, spells⟩
  | negation operand inductionHypothesis =>
      obtain ⟨_, spells⟩ := inductionHypothesis named
      have negated := spells.negation operand.reduce_ne_double_negation
      exact ⟨negated.derives, negated⟩
  | binary operation left right leftHypothesis rightHypothesis =>
      obtain ⟨leftDerives, _⟩ := leftHypothesis named.left
      obtain ⟨rightDerives, _⟩ := rightHypothesis named.right
      obtain ⟨leftOrder, leftPlace⟩ := leftLevel_le_leastLeft operation
      obtain ⟨rightOrder, rightPlace⟩ := rightLevel_le_leastRight operation
      have derives :
          Derives operation.level
            (Runs.cancel negationSign
              (Formula.binary operation left right).tokens)
            (Formula.binary operation left right).reduce := by
        rw [tokens, Runs.cancel_append_cons (ofBinary_ne_negationSign operation),
          cancel_delimitTokens, cancel_delimitTokens]
        exact
          (derives_delimitTokens leftDerives leftOrder leftPlace).binary
            (derives_delimitTokens rightDerives rightOrder rightPlace)
      have whole := derives.loosen operation.level.equivalence_le
      refine ⟨derives, ?_⟩
      rw [delimitTokens_factor_binary]
      exact Spells.group whole (by simp [reduce])

/-- As they stand, the tokens of a formula derive it at its own level. -/
theorem derives_tokens
    {formula : Formula}
    (named : formula.Named) :
    Derives formula.level formula.tokens formula := by
  induction formula with
  | atom name =>
      exact .atom (named name (by simp [names]))
  | negation operand inductionHypothesis =>
      exact
        (derives_delimitTokens (inductionHypothesis named)
          (Int.le_refl _) (Int.le_refl _)).negation
  | binary operation left right leftHypothesis rightHypothesis =>
      obtain ⟨leftOrder, leftPlace⟩ := leftLevel_le_leastLeft operation
      obtain ⟨rightOrder, rightPlace⟩ := rightLevel_le_leastRight operation
      exact
        (derives_delimitTokens (leftHypothesis named.left)
            leftOrder leftPlace).binary
          (derives_delimitTokens (rightHypothesis named.right)
            rightOrder rightPlace)

/-- The delimited tokens of a left operand derive it at its level. -/
theorem derives_leftOperand
    {left : Formula}
    (named : left.Named)
    (operation : Binary) :
    Derives operation.leftLevel
      (delimitTokens (leastLeft operation) left.precedence left.tokens)
      left := by
  obtain ⟨order, place⟩ := leftLevel_le_leastLeft operation
  exact derives_delimitTokens (derives_tokens named) order place

/-- The delimited tokens of a right operand derive it at its level. -/
theorem derives_rightOperand
    {right : Formula}
    (named : right.Named)
    (operation : Binary) :
    Derives operation.rightLevel
      (delimitTokens (leastRight operation) right.precedence right.tokens)
      right := by
  obtain ⟨order, place⟩ := rightLevel_le_leastRight operation
  exact derives_delimitTokens (derives_tokens named) order place

/-- The tokens of a printed formula are lexemes. -/
theorem lexemes_tokens
    {formula : Formula}
    (named : formula.Named) :
    ∀ token ∈ formula.tokens, Token.Lexeme token :=
  (derives_tokens named).lexemes

theorem newline_notMem_delimit
    {text : Text}
    (unbroken : Byte.newline ∉ text)
    (least precedence : Int) :
    Byte.newline ∉ delimit least precedence text := by
  unfold delimit
  split
  · exact unbroken
  · exact List.not_mem_append
      (List.not_mem_append (by decide) unbroken) (by decide)

/-- A printed formula is unbroken. -/
theorem newline_notMem_print
    {formula : Formula}
    (named : formula.Named) :
    Byte.newline ∉ formula.print := by
  induction formula with
  | atom name =>
      obtain ⟨byte, rfl, capital⟩ :=
        Token.namesVariable_iff.mp (named name (by simp [names]))
      rw [print, List.mem_singleton]
      rintro rfl
      exact absurd capital (by decide)
  | negation operand inductionHypothesis =>
      exact List.not_mem_append
        (Connective.newline_notMem_symbol .negation)
        (newline_notMem_delimit (inductionHypothesis named) _ _)
  | binary operation left right leftHypothesis rightHypothesis =>
      have leftUnbroken :=
        newline_notMem_delimit (leftHypothesis named.left)
          (leastLeft operation) left.precedence
      have rightUnbroken :=
        newline_notMem_delimit (rightHypothesis named.right)
          (leastRight operation) right.precedence
      have symbolUnbroken :=
        Connective.newline_notMem_symbol (.binary operation)
      have blankUnbroken : Byte.newline ∉ Text.ascii " " := by
        decide
      simp only [print, List.mem_append, not_or]
      exact
        ⟨⟨⟨⟨leftUnbroken, blankUnbroken⟩, symbolUnbroken⟩, blankUnbroken⟩,
          rightUnbroken⟩

/-- A printed formula is not empty. -/
theorem print_ne_nil
    {formula : Formula}
    (named : formula.Named) :
    formula.print ≠ [] := by
  cases formula with
  | atom name =>
      obtain ⟨byte, rfl, _⟩ :=
        Token.namesVariable_iff.mp (named name (by simp [names]))
      exact List.cons_ne_nil byte []
  | negation operand =>
      exact List.cons_ne_nil _ _
  | binary operation left right =>
      simp [print, Text.ascii]

end Formula

end Propositional
