import Propositional.Proofs.Evaluation.Restriction
import Propositional.Proofs.Table.RoundTrip

namespace Propositional

/-!
# What the columns of a table show

Every entry of a trace shows a part of the formula, an input being the part that
is a single variable.  Its text is read back as a formula with the value of that
part: reading back cancels the negation signs of a part, which changes its
program but neither its atoms nor its value.
-/

namespace Formula

/--
The reduced form of a formula evaluates under the values of its atoms alone, and
its trace ends with the value of the formula.
-/
theorem exists_evaluate_reduce_restrict
    {assignment : Assignment}
    {formula : Formula}
    (distinct : (assignment.map Prod.fst).Nodup)
    (covered : formula.Covered assignment) :
    ∃ derivation last,
      formula.reduce.program.evaluate
          (assignment.restrict (Token.names formula.program)) =
        .ok derivation ∧
      derivation.trace.getLast? = some last ∧
      last.value = formula.eval assignment.valuation := by
  have sameNames := formula.names_reduce
  have included : formula.reduce.names ⊆ Token.names formula.program := by
    intro name member
    rw [sameNames] at member
    exact mem_names_program.mpr member
  have reducedCovered : formula.reduce.Covered assignment := by
    rw [Covered, sameNames]
    exact covered
  have restrictedCovered := reducedCovered.restrict included
  have restrictedDistinct :
      ((assignment.restrict (Token.names formula.program)).map
        Prod.fst).Nodup := by
    rw [Assignment.map_fst_restrict]
    exact distinct.filter _
  refine ⟨_, _, Program.evaluate_program restrictedCovered,
    (getLast?_trace_eq_toStep_iff restrictedDistinct formula.reduce).mpr ?_, ?_⟩
  · intro name isAtom
    apply Assignment.getLast?_of_forall_eq
    · intro other listed
      rw [Assignment.map_fst_restrict] at listed
      have inFormula := mem_names_program.mp
        (of_decide_eq_true (List.mem_filter.mp listed).2)
      rw [← sameNames, isAtom] at inFormula
      exact List.mem_singleton.mp inFormula
    · have isName : name ∈ formula.reduce.names := by
        simp [isAtom, names]
      exact Assignment.value?_isSome_iff.mp (restrictedCovered name isName)
  · calc
      formula.reduce.eval
            (assignment.restrict (Token.names formula.program)).valuation
        = formula.reduce.eval assignment.valuation := eval_restrict included
      _ = formula.eval assignment.valuation :=
          eval_reduce assignment.valuation formula

end Formula

namespace Table

/-- Every entry of the trace of a row shows a part of the formula. -/
theorem Lists.exists_part_of_mem_trace
    {table : Table}
    {formula : Formula}
    {number : Row}
    {step : Step}
    (lists : Lists table formula)
    (member :
      step ∈ (formula.derivation (number.assignment table.names)).trace) :
    ∃ part : Formula,
      part.names ⊆ formula.names ∧
        step =
          part.toStep (number.assignment table.names).valuation := by
  rcases List.mem_append.mp member with isInput | isDerived
  · obtain ⟨⟨name, value⟩, bound, rfl⟩ := List.mem_map.mp isInput
    refine ⟨.atom name, ?_,
      Assignment.atomic_eq_toStep (lists.distinct number) bound⟩
    have named : name ∈ table.names := by
      rw [← number.map_fst_assignment table.names]
      exact List.mem_map_of_mem bound
    rw [lists.names_eq] at named
    intro other isName
    rw [List.mem_singleton.mp isName]
    exact Formula.mem_names_program.mp named
  · exact Formula.exists_part_of_mem_steps isDerived

/--
The text of every entry in the trace of every row is read back, its names are
names of the table, and under the values that the row gives to these names alone
the program that is read ends with the value of the entry.
-/
theorem evaluate_parse_of_mem_trace
    {text : Text}
    {table : Table}
    {rows : List Derivation}
    (read : ofText text = .ok table)
    (tabulated : table.rows = .ok rows) :
    ∀ number < Row.count table.names,
      ∃ derivation,
        rows[number.toNat]? = some derivation ∧
          table.row number = .ok derivation ∧
          ∀ step ∈ derivation.trace,
            ∃ expression reread last,
              Expression.parse step.text = .ok expression ∧
                expression.names ⊆ table.names ∧
                expression.program.evaluate
                    ((number.assignment table.names).restrict
                      expression.names) =
                  .ok reread ∧
                reread.trace.getLast? = some last ∧
                last.value = step.value := by
  intro number counted
  obtain ⟨derivation, atPlace, evaluated⟩ :=
    exists_getElem?_of_rows tabulated counted
  obtain ⟨formula, lists, named⟩ := exists_lists_of_row read evaluated
  refine ⟨derivation, atPlace, evaluated, ?_⟩
  intro step member
  have isDerivation := lists.row_eq number
  rw [evaluated, Except.ok.injEq] at isDerivation
  rw [isDerivation] at member
  obtain ⟨part, included, rfl⟩ := lists.exists_part_of_mem_trace member
  have partNamed : part.Named :=
    fun name inPart => named name (included inPart)
  have partCovered : part.Covered (number.assignment table.names) :=
    fun name inPart => lists.covered number name (included inPart)
  obtain ⟨reread, last, rereadOk, isLast, sameValue⟩ :=
    Formula.exists_evaluate_reduce_restrict
      (lists.distinct number) partCovered
  refine ⟨_, reread, last, Expression.parse_print partNamed, ?_, rereadOk,
    isLast, sameValue⟩
  intro name inPart
  rw [lists.names_eq]
  exact Formula.mem_names_program.mpr
    (included (Formula.mem_names_program.mp inPart))

/-- The heading of a doubly negated part is read back with another program. -/
theorem evaluate_parse_of_double_negation :
    ∃ table rows,
      ofText (Text.ascii "!(!(A | B)) -> A") = .ok table ∧
        table.rows = .ok rows ∧
        ∀ number < Row.count table.names,
          ∃ derivation,
            rows[number.toNat]? = some derivation ∧
              table.row number = .ok derivation ∧
              ∀ step ∈ derivation.trace,
                ∃ expression reread last,
                  Expression.parse step.text = .ok expression ∧
                    expression.names ⊆ table.names ∧
                    expression.program.evaluate
                        ((number.assignment table.names).restrict
                          expression.names) =
                      .ok reread ∧
                    reread.trace.getLast? = some last ∧
                    last.value = step.value := by
  have read :
      ofText (Text.ascii "!(!(A | B)) -> A") =
        .ok
          ⟨Text.ascii "!(!(A | B)) -> A",
            [Token.ofName (Text.ascii "A"), Token.ofName (Text.ascii "B"),
              Token.ofConnective (.binary .disjunction),
              Token.negationSign, Token.negationSign,
              Token.ofName (Text.ascii "A"),
              Token.ofConnective (.binary .implication)],
            [Text.ascii "A", Text.ascii "B"]⟩ := by
    rfl
  exact ⟨_, _, read, rfl, evaluate_parse_of_mem_trace read rfl⟩

end Table

end Propositional
