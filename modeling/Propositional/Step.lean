import Propositional.Connective

namespace Propositional

/-!
# Steps of a derivation

A step is a formula that has been evaluated: its text, its value, and the
precedence of the connective that built it.  From the steps of its operands a
connective builds the step of the whole; an operand is put into brackets only
where the text would otherwise group differently, and around every operand of a
chain that groups to the right.
-/

/-- An evaluated formula. -/
structure Step where
  text : Text
  value : Bool
  precedence : Int
  deriving Repr, DecidableEq

/-- The precedence of a formula without a connective, above that of every connective. -/
def atomicPrecedence : Int :=
  2147483647

/-- The side on which an operand stands. -/
inductive Side where
  | left
  | right
  deriving Repr, DecidableEq

namespace Step

/-- The step of a variable. -/
def atomic (name : Text) (value : Bool) : Step :=
  ⟨name, value, atomicPrecedence⟩

/-- Whether a step has the precedence of a variable. -/
def isAtomic (step : Step) : Bool :=
  step.precedence == atomicPrecedence

/-- Put a text into brackets. -/
def bracketed (text : Text) : Text :=
  Text.ascii "(" ++ text ++ Text.ascii ")"

/--
Whether an operand of a binary connective stands in brackets: it binds less
tightly, or equally tightly and either stands on the right or the connective
groups to the right.
-/
def isBracketed
    (operand : Step)
    (connective : Connective)
    (side : Side) :
    Bool :=
  if operand.precedence = connective.precedence then
    connective.associativity == .right || side == .right
  else
    operand.precedence < connective.precedence

/-- The text of an operand of a binary connective. -/
def operandText
    (operand : Step)
    (connective : Connective)
    (side : Side) :
    Text :=
  if operand.isBracketed connective side then
    bracketed operand.text
  else
    operand.text

/-- The text of a negated operand, which stands in brackets if it binds less tightly. -/
def negatedText (operand : Step) : Text :=
  if operand.precedence < Connective.negation.precedence then
    bracketed operand.text
  else
    operand.text

/-- The step of a negation. -/
def negation (operand : Step) : Step where
  text :=
    Connective.negation.symbol ++ operand.negatedText
  value :=
    !operand.value
  precedence :=
    Connective.negation.precedence

/-- The step of a binary connective. -/
def binary (operation : Binary) (left right : Step) : Step where
  text :=
    left.operandText (.binary operation) .left ++ Text.ascii " " ++
      (Connective.binary operation).symbol ++ Text.ascii " " ++
        right.operandText (.binary operation) .right
  value :=
    operation.eval left.value right.value
  precedence :=
    (Connective.binary operation).precedence

end Step

end Propositional
