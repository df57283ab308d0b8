import Propositional.Formula.Grammar
import Propositional.Proofs.Token.Lexing

namespace Propositional

/-!
# Levels of the grammar

Every level of the grammar belongs to one precedence, and a binary connective
stands between operands of two levels that depend on it alone.  So a derivation
is built of atoms, negations, groups and binary connectives, with steps to
looser levels between them; `Derives.induction_levels` is the induction along
this coarser shape.
-/

namespace Formula

/-- The precedence of the connectives that a level chains. -/
def Level.precedence : Level → Int
  | .equivalence =>
      1
  | .implication =>
      2
  | .disjunction =>
      3
  | .conjunction =>
      4
  | .factor =>
      5

namespace Level

theorem equivalence_le (level : Level) :
    Level.equivalence.precedence ≤ level.precedence := by
  cases level <;> decide

theorem le_factor (level : Level) :
    level.precedence ≤ Level.factor.precedence := by
  cases level <;> decide

end Level

end Formula

namespace Binary

open Formula (Level)

/-- The level whose chains a connective makes. -/
def level : Binary → Level
  | .conjunction | .nand =>
      .conjunction
  | .disjunction | .xor | .nor =>
      .disjunction
  | .implication =>
      .implication
  | .equivalence =>
      .equivalence

/-- The level of a left operand. -/
def leftLevel : Binary → Level
  | .conjunction | .nand =>
      .conjunction
  | .disjunction | .xor | .nor | .implication =>
      .disjunction
  | .equivalence =>
      .equivalence

/-- The level of a right operand. -/
def rightLevel : Binary → Level
  | .conjunction | .nand =>
      .factor
  | .disjunction | .xor | .nor =>
      .conjunction
  | .implication | .equivalence =>
      .implication

theorem precedence_level (operation : Binary) :
    (Connective.binary operation).precedence = operation.level.precedence := by
  cases operation <;> rfl

theorem level_lt_factor (operation : Binary) :
    operation.level.precedence < Level.factor.precedence := by
  cases operation <;> decide

theorem level_le_leftLevel (operation : Binary) :
    operation.level.precedence ≤ operation.leftLevel.precedence := by
  cases operation <;> decide

theorem level_le_rightLevel (operation : Binary) :
    operation.level.precedence ≤ operation.rightLevel.precedence := by
  cases operation <;> decide

end Binary

namespace Formula.Derives

/-- What a level derives, every looser level derives. -/
theorem loosen
    {tighter looser : Level}
    {tokens : List Token}
    {formula : Formula}
    (derives : Derives tighter tokens formula)
    (order : looser.precedence ≤ tighter.precedence) :
    Derives looser tokens formula := by
  cases tighter with
  | factor =>
      have conjunction := ofFactor derives
      have disjunction := ofConjunction conjunction
      have implication := ofDisjunction disjunction
      have equivalence := ofImplication implication
      cases looser <;> assumption
  | conjunction =>
      have disjunction := ofConjunction derives
      have implication := ofDisjunction disjunction
      have equivalence := ofImplication implication
      cases looser with
      | factor => exact absurd order (by decide)
      | _ => assumption
  | disjunction =>
      have implication := ofDisjunction derives
      have equivalence := ofImplication implication
      cases looser with
      | factor | conjunction => exact absurd order (by decide)
      | _ => assumption
  | implication =>
      have equivalence := ofImplication derives
      cases looser with
      | factor | conjunction | disjunction => exact absurd order (by decide)
      | _ => assumption
  | equivalence =>
      cases looser with
      | equivalence => exact derives
      | _ => exact absurd order (by decide)

/-- A binary connective joins operands of its two levels. -/
theorem binary
    {operation : Binary}
    {leftTokens rightTokens : List Token}
    {left right : Formula}
    (leftDerives : Derives operation.leftLevel leftTokens left)
    (rightDerives : Derives operation.rightLevel rightTokens right) :
    Derives operation.level
      (leftTokens ++ Token.ofConnective (.binary operation) :: rightTokens)
      (.binary operation left right) := by
  cases operation with
  | conjunction | nand =>
      exact .conjunction (by simp) leftDerives rightDerives
  | disjunction | xor | nor =>
      exact .disjunction (by simp) leftDerives rightDerives
  | implication =>
      exact .implication leftDerives rightDerives
  | equivalence =>
      exact .equivalence leftDerives rightDerives

/-- Induction on derivations in which all levels are treated alike. -/
@[elab_as_elim]
theorem induction_levels
    {motive :
      (level : Level) →
        (tokens : List Token) →
        (formula : Formula) →
        Derives level tokens formula → Prop}
    (atom :
      ∀ {name}
        (names : Token.namesVariable name = true),
        motive .factor [Token.ofName name] (.atom name) (.atom names))
    (negation :
      ∀ {tokens operand}
        (operandDerives : Derives .factor tokens operand),
        motive .factor tokens operand operandDerives →
        motive .factor
          (Token.ofConnective .negation :: tokens) (.negation operand)
          (.negation operandDerives))
    (group :
      ∀ {tokens formula}
        (innerDerives : Derives .equivalence tokens formula),
        motive .equivalence tokens formula innerDerives →
        motive .factor
          (Token.opening :: tokens ++ [Token.closing]) formula
          (.group innerDerives))
    (loosen :
      ∀ {tighter looser : Level} {tokens formula}
        (order : looser.precedence ≤ tighter.precedence)
        (derives : Derives tighter tokens formula),
        motive tighter tokens formula derives →
        motive looser tokens formula (derives.loosen order))
    (binary :
      ∀ (operation : Binary) {leftTokens rightTokens left right}
        (leftDerives : Derives operation.leftLevel leftTokens left)
        (rightDerives : Derives operation.rightLevel rightTokens right),
        motive operation.leftLevel leftTokens left leftDerives →
        motive operation.rightLevel rightTokens right rightDerives →
        motive operation.level
          (leftTokens ++ Token.ofConnective (.binary operation) :: rightTokens)
          (.binary operation left right)
          (leftDerives.binary rightDerives))
    {level : Level}
    {tokens : List Token}
    {formula : Formula}
    (derives : Derives level tokens formula) :
    motive level tokens formula derives := by
  induction derives with
  | atom names =>
      exact atom names
  | negation operandDerives operandHolds =>
      exact negation operandDerives operandHolds
  | group innerDerives innerHolds =>
      exact group innerDerives innerHolds
  | ofFactor derives holds | ofConjunction derives holds
  | ofDisjunction derives holds | ofImplication derives holds =>
      exact loosen (by decide) derives holds
  | conjunction chains leftDerives rightDerives leftHolds rightHolds =>
      simp only [List.mem_cons, List.not_mem_nil, or_false] at chains
      rcases chains with rfl | rfl
      · exact binary .conjunction leftDerives rightDerives leftHolds rightHolds
      · exact binary .nand leftDerives rightDerives leftHolds rightHolds
  | disjunction chains leftDerives rightDerives leftHolds rightHolds =>
      simp only [List.mem_cons, List.not_mem_nil, or_false] at chains
      rcases chains with rfl | rfl | rfl
      · exact binary .disjunction leftDerives rightDerives leftHolds rightHolds
      · exact binary .xor leftDerives rightDerives leftHolds rightHolds
      · exact binary .nor leftDerives rightDerives leftHolds rightHolds
  | implication leftDerives rightDerives leftHolds rightHolds =>
      exact binary .implication leftDerives rightDerives leftHolds rightHolds
  | equivalence leftDerives rightDerives leftHolds rightHolds =>
      exact binary .equivalence leftDerives rightDerives leftHolds rightHolds

/-- A factor is a letter, a negated factor or a group. -/
theorem factor_cases
    {tokens : List Token}
    {formula : Formula}
    (derives : Derives .factor tokens formula) :
    (∃ name,
        Token.namesVariable name = true ∧
          tokens = [Token.ofName name] ∧ formula = .atom name) ∨
      (∃ rest operand,
        tokens = Token.ofConnective .negation :: rest ∧
          formula = .negation operand ∧ Derives .factor rest operand) ∨
      ∃ inner,
        tokens = Token.opening :: inner ++ [Token.closing] ∧
          Derives .equivalence inner formula := by
  cases derives with
  | atom names =>
      exact .inl ⟨_, names, rfl, rfl⟩
  | negation operandDerives =>
      exact .inr (.inl ⟨_, _, rfl, rfl, operandDerives⟩)
  | group innerDerives =>
      exact .inr (.inr ⟨_, rfl, innerDerives⟩)

/-- A factor that starts with a negation sign is a negated factor. -/
theorem of_negation_cons
    {rest : List Token}
    {formula : Formula}
    (derives :
      Derives .factor (Token.ofConnective .negation :: rest) formula) :
    ∃ operand, formula = .negation operand ∧ Derives .factor rest operand := by
  rcases derives.factor_cases with
      ⟨name, _, shape, _⟩ | ⟨tail, operand, shape, isNegation, operandDerives⟩ |
        ⟨inner, shape, _⟩
  · simp [Token.ofName, Token.ofConnective] at shape
  · obtain ⟨_, rfl⟩ := List.cons.inj shape
    exact ⟨operand, isNegation, operandDerives⟩
  · simp [Token.opening, Token.ofConnective] at shape

/-- The tokens of a derivable list are lexemes. -/
theorem lexemes
    {level : Level}
    {tokens : List Token}
    {formula : Formula}
    (derives : Derives level tokens formula) :
    ∀ token ∈ tokens, Token.Lexeme token := by
  induction derives using induction_levels with
  | atom names =>
      simpa using Token.Lexeme.ofName names
  | negation _ operandLexemes =>
      exact List.forall_mem_cons.mpr ⟨.symbol .negation, operandLexemes⟩
  | group _ innerLexemes =>
      exact Token.Lexeme.group innerLexemes
  | loosen _ _ tokenLexemes =>
      exact tokenLexemes
  | binary _ _ _ leftLexemes rightLexemes =>
      simp only [List.mem_append, List.mem_cons]
      rintro token (inLeft | rfl | inRight)
      · exact leftLexemes token inLeft
      · exact .symbol _
      · exact rightLexemes token inRight

end Formula.Derives

end Propositional
