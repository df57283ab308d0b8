import Propositional.Formula

namespace Propositional

/-!
# The grammar of formulas

The infix language as a grammar of five levels, from the loosest to the
tightest.  A derivation of a token list carries the tree of the formula, with
brackets dropped.  Equivalences, disjunctions and conjunctions chain to the
left, implications to the right.
-/

namespace Formula

/-- The levels of the grammar, from the loosest to the tightest. -/
inductive Level where
  | equivalence
  | implication
  | disjunction
  | conjunction
  | factor
  deriving Repr, DecidableEq

/-- `Derives level tokens formula` if the tokens spell the formula at the level. -/
inductive Derives : Level → List Token → Formula → Prop where
  /-- A capital letter. -/
  | atom
      {name : Text} :
      Token.namesVariable name = true →
      Derives .factor [Token.ofName name] (.atom name)
  /-- A negated factor. -/
  | negation
      {tokens : List Token}
      {operand : Formula} :
      Derives .factor tokens operand →
      Derives .factor
        (Token.ofConnective .negation :: tokens) (.negation operand)
  /-- A formula in brackets. -/
  | group
      {tokens : List Token}
      {formula : Formula} :
      Derives .equivalence tokens formula →
      Derives .factor (Token.opening :: tokens ++ [Token.closing]) formula
  /-- A factor alone. -/
  | ofFactor
      {tokens : List Token}
      {formula : Formula} :
      Derives .factor tokens formula →
      Derives .conjunction tokens formula
  /-- A chain of `&` and `/`, which groups to the left. -/
  | conjunction
      {operation : Binary}
      {leftTokens rightTokens : List Token}
      {left right : Formula} :
      operation ∈ [.conjunction, .nand] →
      Derives .conjunction leftTokens left →
      Derives .factor rightTokens right →
      Derives .conjunction
        (leftTokens ++ Token.ofConnective (.binary operation) :: rightTokens)
        (.binary operation left right)
  /-- A chain of factors alone. -/
  | ofConjunction
      {tokens : List Token}
      {formula : Formula} :
      Derives .conjunction tokens formula →
      Derives .disjunction tokens formula
  /-- A chain of `|`, `^` and `\`, which groups to the left. -/
  | disjunction
      {operation : Binary}
      {leftTokens rightTokens : List Token}
      {left right : Formula} :
      operation ∈ [.disjunction, .xor, .nor] →
      Derives .disjunction leftTokens left →
      Derives .conjunction rightTokens right →
      Derives .disjunction
        (leftTokens ++ Token.ofConnective (.binary operation) :: rightTokens)
        (.binary operation left right)
  /-- A disjunction alone. -/
  | ofDisjunction
      {tokens : List Token}
      {formula : Formula} :
      Derives .disjunction tokens formula →
      Derives .implication tokens formula
  /-- A chain of `->`, which groups to the right. -/
  | implication
      {leftTokens rightTokens : List Token}
      {left right : Formula} :
      Derives .disjunction leftTokens left →
      Derives .implication rightTokens right →
      Derives .implication
        (leftTokens ++
          Token.ofConnective (.binary .implication) :: rightTokens)
        (.binary .implication left right)
  /-- An implication alone. -/
  | ofImplication
      {tokens : List Token}
      {formula : Formula} :
      Derives .implication tokens formula →
      Derives .equivalence tokens formula
  /-- A chain of `<->`, which groups to the left. -/
  | equivalence
      {leftTokens rightTokens : List Token}
      {left right : Formula} :
      Derives .equivalence leftTokens left →
      Derives .implication rightTokens right →
      Derives .equivalence
        (leftTokens ++
          Token.ofConnective (.binary .equivalence) :: rightTokens)
        (.binary .equivalence left right)

end Formula

end Propositional
