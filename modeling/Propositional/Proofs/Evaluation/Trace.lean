import Mathlib.Data.List.Nodup
import Propositional.Proofs.Evaluation.Listing

namespace Propositional

/-!
# Traces of evaluation

No two formulas have the same listing, so a program that has a result denotes
exactly one formula, and the trace shows the inputs and then the steps of its
compound parts.  The trace ends with the step of the whole formula, unless the
formula is a single variable: then nothing is derived, and the trace ends with
the last input, whichever that is.
-/

namespace Formula

/-- The token with which a listing ends. -/
def outermost : Formula → Token
  | .atom name =>
      Token.ofName name
  | .negation _ =>
      Token.ofConnective .negation
  | .binary operation _ _ =>
      Token.ofConnective (.binary operation)

/-- The listings of the operands that a formula joins. -/
def operandsProgram : Formula → Program
  | .atom _ =>
      []
  | .negation operand =>
      operand.program
  | .binary _ left right =>
      left.program ++ right.program

/-- A listing is the listings of its operands and the outermost token. -/
theorem program_eq_operandsProgram_append (formula : Formula) :
    formula.program = formula.operandsProgram ++ [formula.outermost] := by
  cases formula <;> rfl

/-- Of two equal token lists that end with listings the outermost tokens agree. -/
theorem operandsProgram_eq_of_append_program_eq
    {first second : Formula}
    {before after : Program}
    (same : before ++ first.program = after ++ second.program) :
    before ++ first.operandsProgram = after ++ second.operandsProgram ∧
      first.outermost = second.outermost := by
  simpa [program_eq_operandsProgram_append, ← List.append_assoc] using same

/--
A listing at the end of a token list determines its formula and the tokens
before it.
-/
theorem eq_of_append_program_eq
    {first second : Formula}
    {before after : Program}
    (same : before ++ first.program = after ++ second.program) :
    before = after ∧ first = second := by
  induction first generalizing second before after with
  | atom name =>
      obtain ⟨sameFront, sameLast⟩ :=
        operandsProgram_eq_of_append_program_eq same
      cases second with
      | atom other =>
          cases sameLast
          exact ⟨by simpa [operandsProgram] using sameFront, rfl⟩
      | negation operand | binary operation left right =>
          simp [outermost, Token.ofName, Token.ofConnective] at sameLast
  | negation operand inductionHypothesis =>
      obtain ⟨sameFront, sameLast⟩ :=
        operandsProgram_eq_of_append_program_eq same
      cases second with
      | atom other =>
          simp [outermost, Token.ofName, Token.ofConnective] at sameLast
      | negation other =>
          obtain ⟨sameBefore, rfl⟩ := inductionHypothesis sameFront
          exact ⟨sameBefore, rfl⟩
      | binary operation left right =>
          cases Token.ofConnective_injective sameLast
  | binary operation left right leftHypothesis rightHypothesis =>
      obtain ⟨sameFront, sameLast⟩ :=
        operandsProgram_eq_of_append_program_eq same
      cases second with
      | atom other =>
          simp [outermost, Token.ofName, Token.ofConnective] at sameLast
      | negation other =>
          cases Token.ofConnective_injective sameLast
      | binary other otherLeft otherRight =>
          cases Token.ofConnective_injective sameLast
          simp only [operandsProgram, ← List.append_assoc] at sameFront
          obtain ⟨sameLeft, rfl⟩ := rightHypothesis sameFront
          obtain ⟨sameBefore, rfl⟩ := leftHypothesis sameLeft
          exact ⟨sameBefore, rfl⟩

/-- Different formulas have different listings. -/
theorem program_injective
    {first second : Formula}
    (same : first.program = second.program) :
    first = second :=
  (eq_of_append_program_eq (congrArg ([] ++ ·) same)).2

/-- The steps of a compound formula end with its own step. -/
theorem steps_eq_append
    (valuation : Text → Bool)
    (formula : Formula) :
    (∃ name, formula = .atom name) ∨
      ∃ parts,
        formula.steps valuation = parts ++ [formula.toStep valuation] := by
  cases formula with
  | atom name =>
      exact .inl ⟨name, rfl⟩
  | negation operand =>
      exact .inr ⟨_, rfl⟩
  | binary operation left right =>
      exact .inr ⟨_, rfl⟩

end Formula

namespace Assignment

variable {assignment : Assignment} {name : Text} {value : Bool}

/-- With distinct names every entry gives its name the value of the entry. -/
theorem value?_eq_of_mem
    (distinct : (assignment.map Prod.fst).Nodup)
    (member : (name, value) ∈ assignment) :
    assignment.value? name = some value := by
  obtain ⟨before, after, rfl⟩ := List.append_of_mem member
  refine List.lookup_eq_some_iff.mpr ⟨before, after, rfl, ?_⟩
  intro entry inBefore
  have earlier : entry.1 ∈ before.map Prod.fst :=
    List.mem_map_of_mem inBefore
  rw [List.map_append, List.nodup_append] at distinct
  have different := distinct.2.2 entry.1 earlier name (by simp)
  simpa using different.symm

/-- With distinct names an input is the step of its name. -/
theorem atomic_eq_toStep
    (distinct : (assignment.map Prod.fst).Nodup)
    (member : (name, value) ∈ assignment) :
    Step.atomic name value =
      (Formula.atom name).toStep assignment.valuation := by
  have found := value?_eq_of_mem distinct member
  simp [Step.atomic, Formula.toStep, Formula.print, Formula.eval,
    Formula.precedence, valuation, found]

end Assignment

namespace Formula

/--
The trace ends with the step of the formula, except if the formula is a
variable that is not the last input.
-/
theorem getLast?_trace_eq_toStep_iff
    {assignment : Assignment}
    (distinct : (assignment.map Prod.fst).Nodup)
    (formula : Formula) :
    (formula.derivation assignment).trace.getLast? =
        some (formula.toStep assignment.valuation) ↔
      ∀ name, formula = .atom name →
        (assignment.map Prod.fst).getLast? = some name := by
  rcases formula.steps_eq_append assignment.valuation with
      ⟨name, rfl⟩ | ⟨parts, shape⟩
  · have inputsOnly :
        (derivation assignment (.atom name)).trace = assignment.steps :=
      List.append_nil _
    rw [inputsOnly, Assignment.steps, List.getLast?_map, List.getLast?_map]
    constructor
    · intro last other isAtom
      cases isAtom
      obtain ⟨entry, isLast, shown⟩ := Option.map_eq_some_iff.mp last
      have sameName : entry.1 = name :=
        congrArg Step.text shown
      rw [isLast, Option.map_some, sameName]
    · intro last
      obtain ⟨entry, isLast, rfl⟩ :=
        Option.map_eq_some_iff.mp (last name rfl)
      have member : (entry.1, entry.2) ∈ assignment :=
        List.mem_of_getLast? isLast
      rw [isLast, Option.map_some,
        Assignment.atomic_eq_toStep distinct member]
  · have compound : ∀ name, formula ≠ .atom name := by
      rintro name rfl
      simp [steps] at shape
    simp [Derivation.trace, derivation, shape, compound]

end Formula

namespace Program

/--
The operand that is left is the step of the whole program.  The trace ends with
it, except if the program is a single variable that is not the last input.
-/
theorem getLast?_trace_eq_result_iff
    {program : Program}
    {assignment : Assignment}
    {derivation : Derivation}
    (distinct : (assignment.map Prod.fst).Nodup)
    (evaluated : program.evaluate assignment = .ok derivation) :
    (∃ formula : Formula,
        program = formula.program ∧
          derivation.result = formula.toStep assignment.valuation) ∧
      (derivation.trace.getLast? = some derivation.result ↔
        ∀ name, program = [Token.ofName name] →
          (assignment.map Prod.fst).getLast? = some name) := by
  obtain ⟨formula, rfl, _, rfl⟩ := exists_formula_of_evaluate evaluated
  refine ⟨⟨formula, rfl, rfl⟩, ?_⟩
  have single :
      ∀ name, formula.program = [Token.ofName name] ↔ formula = .atom name := by
    intro name
    constructor
    · intro same
      have sameListing : formula.program = (Formula.atom name).program := same
      exact Formula.program_injective sameListing
    · rintro rfl
      rfl
  simp only [single]
  exact Formula.getLast?_trace_eq_toStep_iff distinct formula

/-- The trace of a compound program ends with its step also if more names are bound. -/
theorem getLast?_trace_of_negation :
    ([(Text.ascii "A", true), (Text.ascii "B", false)].map Prod.fst).Nodup ∧
      ∃ derivation,
        evaluate
            [Token.ofName (Text.ascii "A"), Token.ofConnective .negation]
            [(Text.ascii "A", true), (Text.ascii "B", false)] =
          .ok derivation ∧
        (∃ formula : Formula,
          [Token.ofName (Text.ascii "A"), Token.ofConnective .negation] =
              formula.program ∧
            derivation.result =
              formula.toStep
                (Assignment.valuation
                  [(Text.ascii "A", true), (Text.ascii "B", false)])) ∧
          (derivation.trace.getLast? = some derivation.result ↔
            ∀ name,
              [Token.ofName (Text.ascii "A"), Token.ofConnective .negation] =
                  [Token.ofName name] →
                ([(Text.ascii "A", true), (Text.ascii "B", false)].map
                  Prod.fst).getLast? = some name) := by
  have distinct :
      ([(Text.ascii "A", true), (Text.ascii "B", false)].map
        Prod.fst).Nodup := by
    decide
  exact ⟨distinct, _, rfl, getLast?_trace_eq_result_iff distinct rfl⟩

/-- The trace of a single variable ends with another input if that comes last. -/
theorem exists_trace_ending_in_other_input :
    ([(Text.ascii "A", true), (Text.ascii "B", false)].map Prod.fst).Nodup ∧
      ∃ derivation,
        evaluate [Token.ofName (Text.ascii "A")]
            [(Text.ascii "A", true), (Text.ascii "B", false)] =
          .ok derivation ∧
        derivation.result = Step.atomic (Text.ascii "A") true ∧
          derivation.trace.getLast? =
            some (Step.atomic (Text.ascii "B") false) :=
  ⟨by decide, _, rfl, rfl, rfl⟩

end Program

end Propositional
