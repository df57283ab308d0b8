import Propositional.Proofs.Formula.Levels
import Propositional.Proofs.Token.Cancellation

namespace Propositional

/-!
# Formulas without double negations

Cancelling negation signs among the tokens of a formula gives a formula with the
same reduced form.  It need not be reduced itself, because brackets keep signs
apart, but it has the same names and the same value under every valuation.  The
listing of the reduced form is the listing with its negation signs cancelled.
-/

namespace Formula

/-- The negation of a formula, by taking off a negation if there is one. -/
def negate : Formula → Formula
  | .negation operand =>
      operand
  | formula =>
      .negation formula

/-- A formula with every double negation taken off. -/
def reduce : Formula → Formula
  | .atom name =>
      .atom name
  | .negation operand =>
      operand.reduce.negate
  | .binary operation left right =>
      .binary operation left.reduce right.reduce

theorem negate_cases (formula : Formula) :
    (∃ operand, formula = .negation operand ∧ formula.negate = operand) ∨
      (∀ operand, formula ≠ .negation operand) ∧
        formula.negate = .negation formula := by
  cases formula with
  | negation operand =>
      exact .inl ⟨operand, rfl, rfl⟩
  | atom name =>
      exact .inr ⟨by simp, rfl⟩
  | binary operation left right =>
      exact .inr ⟨by simp, rfl⟩

theorem names_negate (formula : Formula) :
    formula.negate.names = formula.names := by
  cases formula <;> rfl

theorem eval_negate
    (valuation : Text → Bool)
    (formula : Formula) :
    formula.negate.eval valuation = !formula.eval valuation := by
  cases formula with
  | negation operand =>
      simp [negate, eval]
  | atom name =>
      simp [negate, eval]
  | binary operation left right =>
      simp [negate, eval]

/-- Reducing keeps the names. -/
theorem names_reduce (formula : Formula) :
    formula.reduce.names = formula.names := by
  induction formula with
  | atom name =>
      rfl
  | negation operand inductionHypothesis =>
      rw [reduce, names_negate, inductionHypothesis, names]
  | binary operation left right leftHypothesis rightHypothesis =>
      rw [reduce, names, leftHypothesis, rightHypothesis, names]

/-- Reducing keeps the value under every valuation. -/
theorem eval_reduce
    (valuation : Text → Bool)
    (formula : Formula) :
    formula.reduce.eval valuation = formula.eval valuation := by
  induction formula with
  | atom name =>
      rfl
  | negation operand inductionHypothesis =>
      rw [reduce, eval_negate, inductionHypothesis, eval, truth_negation]
  | binary operation left right leftHypothesis rightHypothesis =>
      rw [reduce, eval, leftHypothesis, rightHypothesis, eval]

/-- No double negation is left. -/
theorem reduce_ne_double_negation
    (formula inner : Formula) :
    formula.reduce ≠ .negation (.negation inner) := by
  induction formula generalizing inner with
  | atom name =>
      simp [reduce]
  | negation operand inductionHypothesis =>
      rw [reduce]
      rcases negate_cases operand.reduce with
          ⟨negated, shape, taken⟩ | ⟨noNegation, put⟩
      · rw [taken]
        intro isDouble
        exact inductionHypothesis (.negation inner) (by rw [shape, isDouble])
      · rw [put]
        intro isDouble
        exact noNegation inner (Formula.negation.inj isDouble)
  | binary operation left right leftHypothesis rightHypothesis =>
      simp [reduce]

/-- Negating a reduced formula twice gives it back. -/
theorem negate_negate_reduce (formula : Formula) :
    formula.reduce.negate.negate = formula.reduce := by
  rcases negate_cases formula.reduce with
      ⟨operand, shape, taken⟩ | ⟨_, put⟩
  · rw [taken]
    rcases negate_cases operand with
        ⟨inner, isNegation, _⟩ | ⟨_, putOperand⟩
    · exact (formula.reduce_ne_double_negation inner
        (by rw [shape, isNegation])).elim
    · rw [putOperand, shape]
  · rw [put, negate]

/-- Formulas with one reduced form have the same names. -/
theorem names_eq_of_reduce_eq
    {first second : Formula}
    (same : first.reduce = second.reduce) :
    first.names = second.names := by
  rw [← names_reduce first, same, names_reduce]

/-- Formulas with one reduced form have the same value. -/
theorem eval_eq_of_reduce_eq
    {first second : Formula}
    (same : first.reduce = second.reduce)
    (valuation : Text → Bool) :
    first.eval valuation = second.eval valuation := by
  rw [← eval_reduce valuation first, same, eval_reduce]

/-- A listing starts with a variable. -/
theorem exists_program_eq_cons (formula : Formula) :
    ∃ name rest, formula.program = Token.ofName name :: rest := by
  induction formula with
  | atom name =>
      exact ⟨name, [], rfl⟩
  | negation operand inductionHypothesis =>
      obtain ⟨name, rest, shape⟩ := inductionHypothesis
      exact ⟨name, rest ++ [Token.negationSign], by simp [program, shape]⟩
  | binary operation left right leftHypothesis _ =>
      obtain ⟨name, rest, shape⟩ := leftHypothesis
      exact ⟨name,
        rest ++ right.program ++ [Token.ofConnective (.binary operation)],
        by simp [program, shape]⟩

theorem ofName_ne_negationSign (name : Text) :
    Token.ofName name ≠ Token.negationSign := by
  simp [Token.ofName, Token.ofConnective]

theorem ofBinary_ne_negationSign (operation : Binary) :
    Token.ofConnective (.binary operation) ≠ Token.negationSign := by
  cases operation <;> decide

/-- Cancelling does not reach from one listing into the next. -/
theorem cancel_append_program
    (front : Program)
    (formula : Formula) :
    Runs.cancel Token.negationSign (front ++ formula.program) =
      Runs.cancel Token.negationSign front ++
        Runs.cancel Token.negationSign formula.program := by
  obtain ⟨name, rest, shape⟩ := formula.exists_program_eq_cons
  rw [shape, Runs.cancel_append_cons (ofName_ne_negationSign name),
    Runs.cancel_cons_of_ne (ofName_ne_negationSign name)]

/-- A last item other than the sign is kept. -/
theorem cancel_append_ofBinary
    (front : Program)
    (operation : Binary) :
    Runs.cancel Token.negationSign
        (front ++ [Token.ofConnective (.binary operation)]) =
      Runs.cancel Token.negationSign front ++
        [Token.ofConnective (.binary operation)] := by
  rw [Runs.cancel_append_cons (ofBinary_ne_negationSign operation)]
  rfl

/-- A listing that does not end in a sign is cancelled apart from what follows. -/
theorem cancel_program_append
    {formula : Formula}
    (noNegation : ∀ operand, formula ≠ .negation operand)
    (rest : Program) :
    Runs.cancel Token.negationSign (formula.program ++ rest) =
      Runs.cancel Token.negationSign formula.program ++
        Runs.cancel Token.negationSign rest := by
  cases formula with
  | atom name =>
      rw [program, List.singleton_append,
        Runs.cancel_cons_of_ne (ofName_ne_negationSign name),
        Runs.cancel_cons_of_ne (ofName_ne_negationSign name)]
      rfl
  | negation operand =>
      exact (noNegation operand rfl).elim
  | binary operation left right =>
      rw [program, cancel_append_ofBinary, List.append_assoc,
        List.singleton_append,
        Runs.cancel_append_cons (ofBinary_ne_negationSign operation),
        List.append_assoc]
      rfl

theorem cancel_sign :
    Runs.cancel Token.negationSign [Token.negationSign] =
      [Token.negationSign] := by
  exact Runs.cancel_cons_of_apart (by simp)

/-- Cancelling the negation signs of a listing lists the reduced formula. -/
theorem cancel_program (formula : Formula) :
    Runs.cancel Token.negationSign formula.program =
      formula.reduce.program := by
  induction formula with
  | atom name =>
      exact Runs.cancel_cons_of_ne (ofName_ne_negationSign name) []
  | negation operand inductionHypothesis =>
      have reduced :
          Runs.cancel Token.negationSign operand.reduce.program =
            operand.reduce.program := by
        rw [← inductionHypothesis, Runs.cancel_cancel]
      have front :
          Runs.cancel Token.negationSign
              (operand.program ++ [Token.negationSign]) =
            Runs.cancel Token.negationSign
              (operand.reduce.program ++ [Token.negationSign]) := by
        rw [← Runs.cancel_cancel_append, inductionHypothesis]
      rw [program, front, reduce]
      rcases negate_cases operand.reduce with
          ⟨inner, shape, taken⟩ | ⟨noNegation, put⟩
      · have single : ∀ negated, inner ≠ .negation negated := by
          rintro negated rfl
          exact operand.reduce_ne_double_negation negated shape
        have pair :
            Runs.cancel Token.negationSign
                ([Token.negationSign] ++ [Token.negationSign]) = [] :=
          Runs.cancel_cons_cons Token.negationSign []
        rw [shape, program, cancel_program_append single, cancel_sign] at reduced
        rw [shape, program, List.append_assoc, cancel_program_append single,
          List.append_cancel_right reduced, pair, List.append_nil, negate]
      · rw [put, cancel_program_append noNegation, reduced, cancel_sign,
          program]
  | binary operation left right leftHypothesis rightHypothesis =>
      rw [program, cancel_append_ofBinary, cancel_append_program,
        leftHypothesis, rightHypothesis, reduce, program]

end Formula

namespace Formula.Derives

open Token (negationSign)

/-- A derivation survives cancelling, up to double negations. -/
theorem exists_cancel
    {level : Level}
    {tokens : List Token}
    {formula : Formula}
    (derives : Derives level tokens formula) :
    ∃ cancelled,
      Derives level (Runs.cancel negationSign tokens) cancelled ∧
        cancelled.reduce = formula.reduce := by
  induction derives using induction_levels with
  | @atom name names =>
      refine ⟨.atom name, ?_, rfl⟩
      rw [Runs.cancel_cons_of_ne (ofName_ne_negationSign name)]
      exact .atom names
  | @negation tokens operand _ inductionHypothesis =>
      obtain ⟨cancelled, derives, same⟩ := inductionHypothesis
      by_cases meets :
          (Runs.cancel negationSign tokens).head? = some negationSign
      · rw [Runs.cancel_eq_cons_of_meets meets] at derives
        obtain ⟨inner, rfl, innerDerives⟩ := derives.of_negation_cons
        refine ⟨inner, innerDerives, ?_⟩
        rw [reduce, ← same, reduce, negate_negate_reduce]
      · refine ⟨.negation cancelled, ?_, ?_⟩
        · rw [Runs.cancel_cons_of_apart meets]
          exact derives.negation
        · rw [reduce, same, reduce]
  | @group tokens formula _ inductionHypothesis =>
      obtain ⟨cancelled, derives, same⟩ := inductionHypothesis
      refine ⟨cancelled, ?_, same⟩
      rw [Token.cancel_group]
      exact derives.group
  | loosen order _ inductionHypothesis =>
      obtain ⟨cancelled, derives, same⟩ := inductionHypothesis
      exact ⟨cancelled, derives.loosen order, same⟩
  | binary operation _ _ leftHypothesis rightHypothesis =>
      obtain ⟨left, leftDerives, leftSame⟩ := leftHypothesis
      obtain ⟨right, rightDerives, rightSame⟩ := rightHypothesis
      refine ⟨.binary operation left right, ?_, ?_⟩
      · rw [Runs.cancel_append_cons (ofBinary_ne_negationSign operation)]
        exact leftDerives.binary rightDerives
      · rw [reduce, leftSame, rightSame, reduce]

end Formula.Derives

end Propositional
