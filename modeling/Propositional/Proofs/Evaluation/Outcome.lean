import Propositional.Proofs.Evaluation.Failure
import Propositional.Proofs.Refusal

namespace Propositional

/-!
# How evaluation ends

The height of the stack can be counted without a look at values and texts, and
together with the names that have values it decides which token is refused, and
at the end whether one operand is left.  Each connective takes as many operands
as it is applied to, so it is never applied to a wrong number of them.
-/

namespace Token

/--
The height of a stack after a token: a variable adds an operand, and a
connective leaves one for all that it takes.
-/
def heightAfter (height : Nat) (token : Token) : Nat :=
  match token.kind with
  | .variableName =>
      height + 1
  | .connectiveSymbol =>
      match Connective.ofSymbol? token.text with
      | some connective =>
          height - connective.arity + 1
      | none =>
          height
  | .openBracket | .closeBracket =>
      height

/-- Whether a token is a connective between two operands. -/
def isBinary (token : Token) : Bool :=
  token.kind = .connectiveSymbol &&
    (Connective.ofSymbol? token.text).any fun connective =>
      connective.arity = 2

theorem heightAfter_ofConnective
    (height : Nat)
    (connective : Connective) :
    heightAfter height (ofConnective connective) =
      height - connective.arity + 1 := by
  simp [heightAfter, ofConnective, Connective.ofSymbol?_symbol]

end Token

namespace Connective

/-- A connective takes as many operands as it is applied to. -/
theorem exists_arguments_of_build?
    {connective : Connective}
    {operands rest : List Step}
    {built : Step}
    (builds : connective.build? operands = some (built, rest)) :
    ∃ arguments : List Step,
      operands = arguments.reverse ++ rest ∧
        arguments.length = connective.arity ∧
        connective.apply (arguments.map Step.value) = .ok built.value := by
  cases connective with
  | negation =>
      match operands with
      | [] => cases builds
      | operand :: _ =>
          cases builds
          exact ⟨[operand], rfl, rfl, rfl⟩
  | binary operation =>
      match operands with
      | [] => cases builds
      | [_] => cases builds
      | right :: left :: _ =>
          cases builds
          exact ⟨[left, right], rfl, rfl, rfl⟩

end Connective

namespace Machine

variable {assignment : Assignment}

/-- What a run over some tokens adds to a machine. -/
structure Tallies (before after : Machine) (tokens : List Token) : Prop where
  /-- The height is counted token by token. -/
  height :
    after.operands.length =
      tokens.foldl Token.heightAfter before.operands.length
  /-- Variables add an operand each, and binary connectives take one away. -/
  balance :
    after.operands.length + tokens.countP Token.isBinary =
      before.operands.length +
        tokens.countP fun token => token.kind = .variableName
  /-- Every connective derives one step. -/
  derived :
    after.derived.length =
      before.derived.length +
        tokens.countP fun token => token.kind = .connectiveSymbol

namespace Tallies

theorem refl (machine : Machine) : Tallies machine machine [] :=
  ⟨rfl, rfl, rfl⟩

/-- What two runs add one after the other. -/
theorem trans
    {first second third : Machine}
    {before after : List Token}
    (earlier : Tallies first second before)
    (later : Tallies second third after) :
    Tallies first third (before ++ after) where
  height := by
    rw [List.foldl_append, ← earlier.height, later.height]
  balance := by
    have earlierBalance := earlier.balance
    have laterBalance := later.balance
    rw [List.countP_append, List.countP_append]
    omega
  derived := by
    rw [List.countP_append, later.derived, earlier.derived, Nat.add_assoc]

/-- A step tallies with the token that it obeys. -/
theorem of_step
    {machine next : Machine}
    {token : Token}
    (stepped : machine.step assignment token = .ok next) :
    Tallies machine next [token] := by
  rcases step_cases stepped with
      ⟨name, value, rfl, _, rfl⟩ | ⟨connective, built, rest, rfl, builds, rfl⟩
  · exact ⟨rfl, rfl, rfl⟩
  · obtain ⟨arguments, operands, taken, _⟩ :=
      Connective.exists_arguments_of_build? builds
    have height : machine.operands.length = connective.arity + rest.length := by
      rw [operands, List.length_append, List.length_reverse, taken]
    refine ⟨?_, ?_, rfl⟩
    · simp [Token.heightAfter_ofConnective, height]
    · cases connective <;>
        simp [height, Token.isBinary, Token.ofConnective,
          Connective.ofSymbol?_symbol, Connective.arity] <;> omega

/-- A run tallies with the program that it obeys. -/
theorem of_run
    {machine final : Machine}
    {program : Program}
    (ran : machine.run assignment program = .ok final) :
    Tallies machine final program := by
  induction program generalizing machine with
  | nil =>
      cases ran
      exact refl _
  | cons token program inductionHypothesis =>
      obtain ⟨next, stepped, continued⟩ := Fault.bind_eq_ok_iff.mp ran
      exact (of_step stepped).trans (inductionHypothesis continued)

end Tallies

end Machine

namespace Program

/-- The height of the stack after a program none of whose tokens is refused. -/
def height (program : Program) : Nat :=
  program.foldl Token.heightAfter 0

end Program

namespace Machine

variable {assignment : Assignment} {machine : Machine} {program : Program}

/-- The fault of a token after the tokens before it, whose height is counted. -/
def RefusesAfter
    (assignment : Assignment)
    (before : Program) :
    Token → Fault → Prop :=
  Refuses assignment before.height

/-- From the start, the height of the stack is the height that is counted. -/
theorem length_operands_of_run_start
    (ran : start.run assignment program = .ok machine) :
    machine.operands.length = program.height :=
  (Tallies.of_run ran).height

/-- A run from the start refuses what the counted height refuses. -/
theorem describes_refusesAfter (assignment : Assignment) :
    Fault.Describes (RefusesAfter assignment) (step assignment) start where
  step_iff := by
    intro before machine ran token fault
    rw [step_eq_error_iff, length_operands_of_run_start ran, RefusesAfter]

/-- A machine has a result exactly if one operand is left. -/
theorem exists_finish_iff :
    (∃ derivation, machine.finish assignment = .ok derivation) ↔
      machine.operands.length = 1 := by
  constructor
  · rintro ⟨derivation, finished⟩
    obtain ⟨result, operands, _⟩ := finish_eq_ok_iff.mp finished
    rw [operands, List.length_singleton]
  · intro single
    obtain ⟨result, operands⟩ := List.length_eq_one_iff.mp single
    exact ⟨_, finish_eq_ok_iff.mpr ⟨result, operands, rfl⟩⟩

end Machine

namespace Program

open Fault (Admits FailsWith FirstRefused)
open Machine (RefusesAfter)

variable {program : Program} {assignment : Assignment}

/--
A program has the fault of the first token that is refused, and if there is
none, that of a height other than one.
-/
theorem evaluate_eq_error_iff
    {fault : Fault} :
    program.evaluate assignment = .error fault ↔
      FirstRefused (RefusesAfter assignment) program fault ∨
        Admits (RefusesAfter assignment) program ∧
          program.height ≠ 1 ∧ fault = .malformedResult program.height := by
  refine (Machine.describes_refusesAfter assignment).finished_eq_error_iff ?_
  intro machine ran
  rw [Machine.finish_eq_error_iff, Machine.length_operands_of_run_start ran]

/-- A fault of evaluation has no place in a text. -/
theorem position?_of_evaluate
    {fault : Fault}
    (failed : program.evaluate assignment = .error fault) :
    fault.position? = none := by
  rcases evaluate_eq_error_iff.mp failed with first | ⟨_, _, rfl⟩
  · obtain ⟨_, _, _, refuses⟩ := first.exists_mem
    exact refuses.position?_eq_none
  · rfl

end Program

end Propositional
