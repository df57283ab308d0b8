import Propositional.Arrangement
import Propositional.Step

namespace Propositional

/-!
# Evaluating programs

A program runs on a stack of steps.  A variable token pushes its value under
the assignment; a connective takes its operands from the stack and pushes the
step that it builds of them.  The derivation lists the inputs and then every
built step, in the order of completion.
-/

/-- Values for names; of several values for one name the first counts. -/
abbrev Assignment := List (Text × Bool)

namespace Assignment

/-- The value of a name. -/
def value? (assignment : Assignment) (name : Text) : Option Bool :=
  List.lookup name assignment

/-- The inputs as steps, in the order of the assignment. -/
def steps (assignment : Assignment) : List Step :=
  assignment.map fun entry => Step.atomic entry.1 entry.2

end Assignment

/-- The state between two tokens of a program. -/
structure Machine where
  /-- The steps that no connective has taken yet, the latest first. -/
  operands : List Step
  /-- Every step that a connective has built, the latest first. -/
  derived : List Step
  deriving Repr, DecidableEq

/-- The outcome of a program that leaves one operand. -/
structure Derivation where
  /-- The inputs. -/
  inputs : List Step
  /-- The steps built by connectives, in the order of completion. -/
  derived : List Step
  /-- The operand that is left. -/
  result : Step
  deriving Repr, DecidableEq

namespace Derivation

/-- The inputs, and then the steps built of them. -/
def trace (derivation : Derivation) : List Step :=
  derivation.inputs ++ derivation.derived

/-- The last entry of the trace; a trace without entries leaves the result. -/
def conclusion (derivation : Derivation) : Step :=
  derivation.trace.getLastD derivation.result

end Derivation

namespace Connective

/-- Build a step of the operands on a stack, with what is left of the stack. -/
def build? : Connective → List Step → Option (Step × List Step)
  | .negation, operand :: rest =>
      some (operand.negation, rest)
  | .binary operation, right :: left :: rest =>
      some (Step.binary operation left right, rest)
  | _, _ =>
      none

/-- A connective builds no step exactly if the stack is lower than its arity. -/
theorem build?_eq_none_iff
    {connective : Connective}
    {operands : List Step} :
    connective.build? operands = none ↔ operands.length < connective.arity := by
  cases connective <;> match operands with
  | [] => simp [build?, arity]
  | [_] => simp [build?, arity]
  | _ :: _ :: _ => simp [build?, arity]

end Connective

namespace Machine

/-- Nothing is read yet. -/
def start : Machine :=
  ⟨[], []⟩

/-- Push the value of a variable. -/
def push
    (assignment : Assignment)
    (machine : Machine)
    (name : Text) :
    Except Fault Machine :=
  match assignment.value? name with
  | some value =>
      .ok
        { machine with
          operands := Step.atomic name value :: machine.operands }
  | none =>
      .error (.unknownVariable name)

/-- Let a connective take its operands. -/
def apply
    (machine : Machine)
    (connective : Connective) :
    Except Fault Machine :=
  match connective.build? machine.operands with
  | some (built, rest) =>
      .ok ⟨built :: rest, built :: machine.derived⟩
  | none =>
      .error (.insufficientOperands connective)

/-- Obey one token of a program. -/
def step
    (assignment : Assignment)
    (machine : Machine)
    (token : Token) :
    Except Fault Machine :=
  match token.kind with
  | .variableName =>
      machine.push assignment token.text
  | .connectiveSymbol =>
      match Connective.ofSymbol? token.text with
      | some connective =>
          machine.apply connective
      | none =>
          .error (.unexpectedInstruction token.text)
  | .openBracket | .closeBracket =>
      .error (.unexpectedInstruction token.text)

/-- Obey a program from the left. -/
def run
    (assignment : Assignment)
    (machine : Machine)
    (program : Program) :
    Except Fault Machine :=
  program.foldlM (step assignment) machine

/-- The derivation of a machine that has obeyed its program. -/
def finish
    (assignment : Assignment)
    (machine : Machine) :
    Except Fault Derivation :=
  match machine.operands with
  | [result] =>
      .ok
        { inputs := assignment.steps
          derived := machine.derived.reverse
          result := result }
  | operands =>
      .error (.malformedResult operands.length)

/-- Obeying a concatenation is obeying its parts in turn. -/
theorem run_append
    (assignment : Assignment)
    (machine : Machine)
    (first second : Program) :
    machine.run assignment (first ++ second) =
      (machine.run assignment first).bind fun middle =>
        middle.run assignment second := by
  unfold run
  rw [List.foldlM_append]
  rfl

end Machine

namespace Program

/-- Evaluate a program under an assignment. -/
def evaluate
    (program : Program)
    (assignment : Assignment) :
    Except Fault Derivation := do
  let machine ← Machine.start.run assignment program
  machine.finish assignment

end Program

end Propositional
