import Propositional.Proofs.Formula.Levels
import Propositional.Proofs.Token.Placement

namespace Propositional

/-!
# Extending derivable token lists

A derivable token list can be extended on the right by a binary connective and a
factor: along its right edge there is always a level at which the connective
belongs.  So a token list that is read from the left either is derivable or
awaits a factor, as long as every operand has its place.
-/

namespace Binary

open Formula (Level)

/-- A level above that of a connective derives its left operands. -/
theorem leftLevel_le_of_level_lt
    {operation : Binary}
    {level : Level}
    (above : operation.level.precedence < level.precedence) :
    operation.leftLevel.precedence ≤ level.precedence := by
  revert above
  cases operation <;> cases level <;> decide

/-- A chain that cannot take a connective into its last operand is a left operand of it. -/
theorem leftLevel_le_of_lt_rightLevel
    {chain operation : Binary}
    (admits : chain.level.precedence ≤ operation.level.precedence)
    (above : operation.level.precedence < chain.rightLevel.precedence) :
    operation.leftLevel.precedence ≤ chain.level.precedence := by
  revert admits above
  cases chain <;> cases operation <;> decide

end Binary

namespace Formula

namespace Derives

open Token (negationSign Separated)

/-- No operand of a derivable list ends right before another one begins. -/
theorem separated
    {level : Level}
    {tokens : List Token}
    {formula : Formula}
    (derives : Derives level tokens formula) :
    Separated tokens := by
  induction derives using induction_levels with
  | atom names =>
      exact List.isChain_singleton _
  | negation _ operandSeparated =>
      exact operandSeparated.cons rfl
  | group _ innerSeparated =>
      have closed :=
        innerSeparated.append (List.isChain_singleton Token.closing) rfl
      exact Separated.cons closed rfl
  | loosen _ _ tighterSeparated =>
      exact tighterSeparated
  | binary operation _ _ leftSeparated rightSeparated =>
      have kept : (Token.ofConnective (.binary operation)).beginsOperand = false := by
        cases operation <;> decide
      exact leftSeparated.append (rightSeparated.cons rfl) kept

/-- What derives left operands of a connective is joined to a factor as a whole. -/
theorem exists_join
    {level : Level}
    {operation : Binary}
    {tokens rest : List Token}
    {formula factor : Formula}
    (derives : Derives level tokens formula)
    (order : operation.leftLevel.precedence ≤ level.precedence)
    (factorDerives : Derives .factor rest factor) :
    ∃ whole,
      Derives operation.level
        (tokens ++ Token.ofConnective (.binary operation) :: rest) whole := by
  have right := factorDerives.loosen operation.rightLevel.le_factor
  exact ⟨.binary operation formula factor, (derives.loosen order).binary right⟩

/--
A derivable list is extended by a connective and a factor at every level that
is no tighter than the connective.
-/
theorem exists_extension
    {level : Level}
    {operation : Binary}
    {tokens rest : List Token}
    {formula factor : Formula}
    (derives : Derives level tokens formula)
    (admits : level.precedence ≤ operation.level.precedence)
    (factorDerives : Derives .factor rest factor) :
    ∃ whole,
      Derives level
        (tokens ++ Token.ofConnective (.binary operation) :: rest) whole := by
  induction derives using induction_levels with
  | atom _ | negation _ _ | group _ _ =>
      exact absurd admits (Int.not_le.mpr operation.level_lt_factor)
  | @loosen tighter looser tokens formula order tighterDerives inductionHypothesis =>
      by_cases inside : tighter.precedence ≤ operation.level.precedence
      · obtain ⟨whole, extended⟩ := inductionHypothesis inside
        exact ⟨whole, extended.loosen order⟩
      · have above := Int.not_le.mp inside
        obtain ⟨whole, joined⟩ :=
          tighterDerives.exists_join
            (Binary.leftLevel_le_of_level_lt above) factorDerives
        exact ⟨whole, joined.loosen admits⟩
  | @binary chain leftTokens rightTokens left right
      leftDerives rightDerives _ rightHypothesis =>
      by_cases inside :
          chain.rightLevel.precedence ≤ operation.level.precedence
      · obtain ⟨whole, extended⟩ := rightHypothesis inside
        refine ⟨.binary chain left whole, ?_⟩
        rw [List.append_assoc, List.cons_append]
        exact leftDerives.binary extended
      · have above := Int.not_le.mp inside
        obtain ⟨whole, joined⟩ :=
          (leftDerives.binary rightDerives).exists_join
            (Binary.leftLevel_le_of_lt_rightLevel admits above) factorDerives
        exact ⟨whole, joined.loosen admits⟩

end Derives

open Token (negationSign)

/-- A token list awaits a factor if every factor completes it. -/
def Awaits (tokens : List Token) : Prop :=
  ∀ rest factor,
    Derives .factor rest factor →
      ∃ whole, Derives .equivalence (tokens ++ rest) whole

namespace Awaits

theorem nil : Awaits [] := by
  intro rest factor factorDerives
  exact ⟨factor, factorDerives.loosen (Level.equivalence_le _)⟩

/-- After a negation sign a factor is awaited as before it. -/
theorem negation
    {tokens : List Token}
    (awaits : Awaits tokens) :
    Awaits (tokens ++ [negationSign]) := by
  intro rest factor factorDerives
  rw [List.append_assoc, List.singleton_append]
  exact awaits _ _ factorDerives.negation

/-- After a derivable list and a binary connective a factor is awaited. -/
theorem binary
    {tokens : List Token}
    {formula : Formula}
    (derives : Derives .equivalence tokens formula)
    (operation : Binary) :
    Awaits (tokens ++ [Token.ofConnective (.binary operation)]) := by
  intro rest factor factorDerives
  rw [List.append_assoc, List.singleton_append]
  exact derives.exists_extension operation.level.equivalence_le factorDerives

/-- Where a factor is awaited, every derivable list can stand. -/
theorem exists_derives
    {level : Level}
    {tokens rest : List Token}
    {formula : Formula}
    (awaits : Awaits tokens)
    (derives : Derives level rest formula) :
    ∃ whole, Derives .equivalence (tokens ++ rest) whole := by
  induction derives using Derives.induction_levels generalizing tokens with
  | atom names =>
      exact awaits _ _ (.atom names)
  | negation operandDerives _ =>
      exact awaits _ _ operandDerives.negation
  | group innerDerives _ =>
      exact awaits _ _ innerDerives.group
  | loosen _ _ inductionHypothesis =>
      exact inductionHypothesis awaits
  | binary operation _ _ leftHypothesis rightHypothesis =>
      obtain ⟨front, frontDerives⟩ := leftHypothesis awaits
      obtain ⟨whole, wholeDerives⟩ :=
        rightHypothesis (Awaits.binary frontDerives operation)
      refine ⟨whole, ?_⟩
      simpa using wholeDerives

end Awaits

end Formula

end Propositional
