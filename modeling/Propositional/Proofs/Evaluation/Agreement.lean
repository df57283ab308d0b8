import Mathlib.Data.List.Forall2
import Propositional.Proofs.Evaluation.Failure
import Propositional.Proofs.Evaluation.Trace

namespace Propositional

/-!
# Evaluation under other values

Two evaluations of one program under assignments to the same names go in step:
machines whose operands agree in text and precedence obey every token with the
same fault or stay in agreement.  So the values decide neither whether a program
has a result nor what its trace shows, except for the values themselves.
-/

/-- Two steps agree in everything but their values. -/
structure Step.Alike (first second : Step) : Prop where
  text_eq :
    first.text = second.text
  precedence_eq :
    first.precedence = second.precedence

namespace Step.Alike

variable {first second : Step}

/-- Whether an operand stands in brackets does not depend on its value. -/
theorem operandText_eq
    (alike : Alike first second)
    (connective : Connective)
    (side : Side) :
    first.operandText connective side = second.operandText connective side := by
  unfold operandText isBracketed
  rw [alike.text_eq, alike.precedence_eq]

theorem negation
    (alike : Alike first second) :
    Alike first.negation second.negation where
  text_eq := by
    unfold Step.negation negatedText
    rw [alike.text_eq, alike.precedence_eq]
  precedence_eq :=
    rfl

theorem binary
    {left right : Step}
    (leftAlike : Alike first left)
    (rightAlike : Alike second right)
    (operation : Binary) :
    Alike
      (Step.binary operation first second)
      (Step.binary operation left right) where
  text_eq := by
    unfold Step.binary
    rw [leftAlike.operandText_eq, rightAlike.operandText_eq]
  precedence_eq :=
    rfl

end Step.Alike

namespace Assignment

variable {first second : Assignment}

/-- The steps of the inputs show the names and their order alone. -/
theorem steps_alike
    (sameNames : first.map Prod.fst = second.map Prod.fst) :
    List.Forall₂ Step.Alike first.steps second.steps := by
  rw [← List.forall₂_eq_eq_eq, List.forall₂_map_left_iff,
    List.forall₂_map_right_iff] at sameNames
  rw [steps, steps, List.forall₂_map_left_iff, List.forall₂_map_right_iff]
  exact sameNames.imp fun _ _ sameName => ⟨sameName, rfl⟩

/-- Which names have values depends on the names alone. -/
theorem isSome_value?_eq
    (sameNames : first.map Prod.fst = second.map Prod.fst)
    (name : Text) :
    (first.value? name).isSome = (second.value? name).isSome := by
  rw [Bool.eq_iff_iff, value?_isSome_iff, value?_isSome_iff, sameNames]

end Assignment

namespace Machine

/-- Two machines agree in everything but the values of their steps. -/
structure Alike (first second : Machine) : Prop where
  operands :
    List.Forall₂ Step.Alike first.operands second.operands
  derived :
    List.Forall₂ Step.Alike first.derived second.derived

namespace Alike

variable {first second : Machine} {firstValues secondValues : Assignment}

theorem start : Alike Machine.start Machine.start :=
  ⟨.nil, .nil⟩

/-- A name that has values in both assignments is pushed alike. -/
theorem push
    (alike : Alike first second)
    {name : Text}
    (bound :
      (firstValues.value? name).isSome = (secondValues.value? name).isSome) :
    Fault.Agree Alike
      (first.push firstValues name) (second.push secondValues name) := by
  unfold Machine.push
  cases firstFound : firstValues.value? name <;>
    cases secondFound : secondValues.value? name
  case none.none =>
    exact .error _
  case some.some firstValue secondValue =>
    exact .ok ⟨.cons ⟨rfl, rfl⟩ alike.operands, alike.derived⟩
  case none.some | some.none =>
    simp [firstFound, secondFound] at bound

/-- A connective takes the same operands from machines that agree. -/
theorem apply
    (alike : Alike first second)
    (connective : Connective) :
    Fault.Agree Alike (first.apply connective) (second.apply connective) := by
  rcases first with ⟨firstOperands, firstDerived⟩
  rcases second with ⟨secondOperands, secondDerived⟩
  obtain ⟨operands, derived⟩ := alike
  cases connective with
  | negation =>
      cases operands with
      | nil =>
          exact .error _
      | cons operand rest =>
          exact .ok ⟨.cons operand.negation rest, .cons operand.negation derived⟩
  | binary operation =>
      cases operands with
      | nil =>
          exact .error _
      | cons right belowRight =>
          cases belowRight with
          | nil =>
              exact .error _
          | cons left rest =>
              have built := left.binary right operation
              exact .ok ⟨.cons built rest, .cons built derived⟩

/-- Machines that agree fail alike at a token, or agree after it. -/
theorem step
    (alike : Alike first second)
    (sameNames :
      firstValues.map Prod.fst = secondValues.map Prod.fst)
    (token : Token) :
    Fault.Agree Alike
      (first.step firstValues token) (second.step secondValues token) := by
  unfold Machine.step
  cases token.kind with
  | variableName =>
      exact alike.push (Assignment.isSome_value?_eq sameNames token.text)
  | connectiveSymbol =>
      cases Connective.ofSymbol? token.text with
      | none =>
          exact .error _
      | some connective =>
          exact alike.apply connective
  | openBracket | closeBracket =>
      exact .error _

/-- Machines that agree fail alike in a program, or agree after it. -/
theorem run
    (alike : Alike first second)
    (sameNames :
      firstValues.map Prod.fst = secondValues.map Prod.fst)
    (program : Program) :
    Fault.Agree Alike
      (first.run firstValues program) (second.run secondValues program) :=
  Fault.Agree.foldlM (fun alike token => alike.step sameNames token) alike program

/-- Machines that agree have the same heights and traces that agree. -/
theorem finish
    (alike : Alike first second)
    (sameNames :
      firstValues.map Prod.fst = secondValues.map Prod.fst) :
    Fault.Agree
      (fun firstDerivation secondDerivation =>
        List.Forall₂ Step.Alike firstDerivation.trace secondDerivation.trace)
      (first.finish firstValues) (second.finish secondValues) := by
  rcases first with ⟨firstOperands, firstDerived⟩
  rcases second with ⟨secondOperands, secondDerived⟩
  obtain ⟨operands, derived⟩ := alike
  have inputs := Assignment.steps_alike sameNames
  cases operands with
  | nil =>
      exact .error _
  | cons result rest =>
      cases rest with
      | nil =>
          exact .ok (List.rel_append inputs (List.rel_reverse derived))
      | cons next rest =>
          have sameHeight := rest.length_eq
          simp only [Machine.finish, List.length_cons, sameHeight]
          exact .error _

end Alike

end Machine

namespace Program

/--
Under assignments to the same names a program has the same fault, or traces that
agree in everything but the values.
-/
theorem evaluate_agree
    (program : Program)
    {first second : Assignment}
    (sameNames : first.map Prod.fst = second.map Prod.fst) :
    Fault.Agree
      (fun firstDerivation secondDerivation =>
        List.Forall₂ Step.Alike firstDerivation.trace secondDerivation.trace)
      (program.evaluate first) (program.evaluate second) :=
  (Machine.Alike.start.run sameNames program).bind fun alike =>
    alike.finish sameNames

end Program

end Propositional
