import Propositional.Arrangement
import Propositional.Step

namespace Propositional

/-!
# Formulas as trees

The tree of a formula with its truth value, its listing with every connective
after its operands, and its text with as few brackets as its place asks for.
Nothing here refers to a stack: the definitions say by recursion what a program
denotes and what its derivation shows.  Truth values are read off truth tables,
which list for each symbol when it is true.
-/

/-- A formula over named atoms. -/
inductive Formula where
  | atom (name : Text)
  | negation (operand : Formula)
  | binary (operation : Binary) (left right : Formula)
  deriving Repr, DecidableEq

namespace Formula

/-- The truth tables: for each symbol the arguments under which it is true. -/
def truthTables : List (Text × List (List Bool)) :=
  [(Text.ascii "!", [[false]]),
    (Text.ascii "&", [[true, true]]),
    (Text.ascii "/", [[false, false], [false, true], [true, false]]),
    (Text.ascii "|", [[false, true], [true, false], [true, true]]),
    (Text.ascii "^", [[false, true], [true, false]]),
    (Text.ascii "\\", [[false, false]]),
    (Text.ascii "->", [[false, false], [false, true], [true, true]]),
    (Text.ascii "<->", [[false, false], [true, true]])]

/-- The value of a symbol under some arguments, by its truth table. -/
def truth (symbol : Text) (arguments : List Bool) : Bool :=
  ((truthTables.lookup symbol).getD []).contains arguments

/-- By its truth table, negation exchanges the values. -/
@[simp] theorem truth_negation (operand : Bool) :
    truth Connective.negation.symbol [operand] = !operand := by
  cases operand <;> rfl

/-- The truth function of a binary connective has the values of its truth table. -/
@[simp] theorem truth_binary
    (operation : Binary)
    (left right : Bool) :
    truth (Connective.binary operation).symbol [left, right] =
      operation.eval left right := by
  cases operation <;> cases left <;> cases right <;> rfl

/-- The truth value of a formula under a valuation of its atoms. -/
def eval (valuation : Text → Bool) : Formula → Bool
  | .atom name =>
      valuation name
  | .negation operand =>
      truth Connective.negation.symbol [operand.eval valuation]
  | .binary operation left right =>
      truth (Connective.binary operation).symbol
        [left.eval valuation, right.eval valuation]

/-- The listing of a formula: left operand, right operand, connective. -/
def program : Formula → Program
  | .atom name =>
      [Token.ofName name]
  | .negation operand =>
      operand.program ++ [Token.ofConnective .negation]
  | .binary operation left right =>
      left.program ++ right.program ++ [Token.ofConnective (.binary operation)]

/-- The names of the atoms, from left to right. -/
def names : Formula → List Text
  | .atom name =>
      [name]
  | .negation operand =>
      operand.names
  | .binary _ left right =>
      left.names ++ right.names

/-- The precedence of the outermost connective; an atom binds tightest. -/
def precedence : Formula → Int
  | .atom _ =>
      atomicPrecedence
  | .negation _ =>
      Connective.negation.precedence
  | .binary operation _ _ =>
      (Connective.binary operation).precedence

/-- The text of a formula for a place that admits no precedence below `least`. -/
def delimit (least precedence : Int) (text : Text) : Text :=
  if least ≤ precedence then
    text
  else
    Text.ascii "(" ++ text ++ Text.ascii ")"

/--
The least precedence of a left operand.  The connective's own is enough where a
chain groups to the left.
-/
def leastLeft (operation : Binary) : Int :=
  match (Connective.binary operation).associativity with
  | .left =>
      (Connective.binary operation).precedence
  | .right =>
      (Connective.binary operation).precedence + 1

/-- The least precedence of a right operand, always above the connective's own. -/
def leastRight (operation : Binary) : Int :=
  (Connective.binary operation).precedence + 1

/-- The text of a formula; a binary connective stands between blanks. -/
def print : Formula → Text
  | .atom name =>
      name
  | .negation operand =>
      Connective.negation.symbol ++
        delimit Connective.negation.precedence operand.precedence operand.print
  | .binary operation left right =>
      delimit (leastLeft operation) left.precedence left.print ++
        Text.ascii " " ++ (Connective.binary operation).symbol ++ Text.ascii " " ++
          delimit (leastRight operation) right.precedence right.print

/-- What a derivation shows of a formula. -/
def toStep (valuation : Text → Bool) (formula : Formula) : Step where
  text :=
    formula.print
  value :=
    formula.eval valuation
  precedence :=
    formula.precedence

/-- What a derivation shows of every compound part of a formula, operands first. -/
def steps (valuation : Text → Bool) : Formula → List Step
  | .atom _ =>
      []
  | .negation operand =>
      operand.steps valuation ++ [(Formula.negation operand).toStep valuation]
  | .binary operation left right =>
      left.steps valuation ++ right.steps valuation ++
        [(Formula.binary operation left right).toStep valuation]

end Formula

end Propositional
