import Propositional.Fault
import Propositional.Token

namespace Propositional

/-!
# Arranging tokens into programs

An infix token list is rearranged so that every connective follows its
operands.  One pass keeps, for the innermost open bracket and for each bracket
around it, the connectives that still wait for their last operand.  A waiting
connective is emitted when one arrives that binds no tighter, or, if it groups
to the right, when one arrives that binds looser.  So the connectives that wait
inside one bracket bind ever tighter, or equally tight and to the right.
-/

/-- Tokens with every connective after its operands. -/
abbrev Program := List Token

namespace Connective

/--
Whether a waiting connective takes its operands before an incoming one: it
binds tighter, or equally tight and groups to the left.
-/
def actsBefore (waiting incoming : Connective) : Bool :=
  incoming.precedence < waiting.precedence ||
    (waiting.precedence == incoming.precedence &&
      waiting.associativity == .left)

end Connective

/-- The state between two tokens of an infix list. -/
structure Arrangement where
  /-- The tokens emitted so far, the latest first. -/
  emitted : List Token
  /-- The connectives waiting in the innermost open bracket, the latest first. -/
  waiting : List Connective
  /-- The connectives waiting around each open bracket, the innermost first. -/
  enclosing : List (List Connective)
  deriving Repr, DecidableEq

namespace Arrangement

/-- Nothing is read yet. -/
def start : Arrangement :=
  ⟨[], [], []⟩

/-- Emit an operand. -/
def addOperand (arrangement : Arrangement) (token : Token) : Arrangement :=
  { arrangement with
    emitted := token :: arrangement.emitted }

/-- Emit connectives one after the other. -/
def emit
    (connectives : List Connective)
    (emitted : List Token) :
    List Token :=
  (connectives.map Token.ofConnective).reverse ++ emitted

/-- Let a connective wait, after those that act before it. -/
def addConnective
    (arrangement : Arrangement)
    (incoming : Connective) :
    Arrangement :=
  let acting := arrangement.waiting.takeWhile (Connective.actsBefore · incoming)
  let remaining := arrangement.waiting.dropWhile (Connective.actsBefore · incoming)
  { arrangement with
    emitted := emit acting arrangement.emitted
    waiting := incoming :: remaining }

/-- Open a bracket. -/
def openGroup (arrangement : Arrangement) : Arrangement :=
  { arrangement with
    waiting := []
    enclosing := arrangement.waiting :: arrangement.enclosing }

/-- Close the innermost bracket, after every connective that waits in it. -/
def closeGroup (arrangement : Arrangement) : Except Fault Arrangement :=
  match arrangement.enclosing with
  | [] =>
      .error .unmatchedClosing
  | around :: outer =>
      .ok
        { emitted := emit arrangement.waiting arrangement.emitted
          waiting := around
          enclosing := outer }

/-- Read one token. -/
def step
    (arrangement : Arrangement)
    (token : Token) :
    Except Fault Arrangement :=
  match token.role? with
  | some .operand =>
      .ok (arrangement.addOperand token)
  | some (.connective incoming) =>
      .ok (arrangement.addConnective incoming)
  | some .opens =>
      .ok arrangement.openGroup
  | some .closes =>
      arrangement.closeGroup
  | none =>
      .error (.unexpectedToken token.text)

/-- The program of a complete token list, in which no bracket is left open. -/
def finish (arrangement : Arrangement) : Except Fault Program :=
  match arrangement.enclosing with
  | [] =>
      .ok (emit arrangement.waiting arrangement.emitted).reverse
  | _ :: _ =>
      .error .unclosedOpening

/-- Read a token list from the left. -/
def run
    (arrangement : Arrangement)
    (tokens : List Token) :
    Except Fault Arrangement :=
  tokens.foldlM step arrangement

/-- Reading a concatenation is reading its parts in turn. -/
theorem run_append
    (arrangement : Arrangement)
    (first second : List Token) :
    arrangement.run (first ++ second) =
      (arrangement.run first).bind fun middle => middle.run second := by
  unfold run
  rw [List.foldlM_append]
  rfl

end Arrangement

namespace Program

/-- The program of an infix token list. -/
def ofTokens (tokens : List Token) : Except Fault Program := do
  let arrangement ← Arrangement.start.run tokens
  arrangement.finish

end Program

end Propositional
