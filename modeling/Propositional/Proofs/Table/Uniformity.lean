import Propositional.Proofs.Evaluation.Agreement
import Propositional.Proofs.Evaluation.Outcome
import Propositional.Proofs.Table.Rows
import Propositional.Table.Layout

namespace Propositional

/-!
# Rows of one table

The rows of a table assign values to the same names.  So all of them fail alike,
or all of them have results, and then every row fills the same columns: those
headed by the trace of the first row.
-/

namespace Table

/-- Any two rows of a table fail alike or have traces that agree. -/
theorem row_agree
    (table : Table)
    (first second : Row) :
    Fault.Agree
      (fun firstDerivation secondDerivation =>
        List.Forall₂ Step.Alike firstDerivation.trace secondDerivation.trace)
      (table.row first) (table.row second) :=
  table.expression.program.evaluate_agree
    ((first.map_fst_assignment table.names).trans
      (second.map_fst_assignment table.names).symm)

/-- If the first row has a fault, every row has it. -/
theorem row_eq_error
    {table : Table}
    {fault : Fault}
    (failed : table.row 0 = .error fault)
    (number : Row) :
    table.row number = .error fault := by
  have agree := table.row_agree 0 number
  rw [failed] at agree
  exact agree.eq_error

/-- If the first row has a result, every row fills the columns of the headings. -/
theorem exists_row_of_first
    {table : Table}
    {first : Derivation}
    (evaluated : table.row 0 = .ok first)
    (number : Row) :
    ∃ derivation,
      table.row number = .ok derivation ∧
        derivation.trace.map Step.text = table.headings := by
  have agree := table.row_agree 0 number
  rw [evaluated] at agree
  obtain ⟨derivation, rowEvaluated, alike⟩ := agree.exists_ok
  have sameTexts :
      first.trace.map Step.text = derivation.trace.map Step.text := by
    rw [← List.forall₂_eq_eq_eq, List.forall₂_map_left_iff,
      List.forall₂_map_right_iff]
    exact alike.imp fun _ _ stepAlike => stepAlike.text_eq
  refine ⟨derivation, rowEvaluated, ?_⟩
  simp only [headings, evaluated, sameTexts]

/-- A row that has a result fills the columns of the headings. -/
theorem trace_of_row
    {table : Table}
    {number : Row}
    {derivation : Derivation}
    (evaluated : table.row number = .ok derivation) :
    derivation.trace.map Step.text = table.headings := by
  cases firstRow : table.row 0 with
  | error fault =>
      rw [row_eq_error firstRow number] at evaluated
      cases evaluated
  | ok first =>
      obtain ⟨other, otherEvaluated, sameTexts⟩ :=
        exists_row_of_first firstRow number
      rw [evaluated] at otherEvaluated
      cases otherEvaluated
      exact sameTexts

/-- Every tabulated row fills the columns of the headings. -/
theorem trace_of_mem_rows
    {table : Table}
    {rows : List Derivation}
    {derivation : Derivation}
    (tabulated : table.rows = .ok rows)
    (member : derivation ∈ rows) :
    derivation.trace.map Step.text = table.headings := by
  obtain ⟨number, _, evaluated⟩ := (rows_spec tabulated).2 derivation member
  exact trace_of_row evaluated

/--
Under two assignments to the same names a program has one and the same fault,
which has no place in a text, or it has results whose traces agree entry by entry
in text and precedence.  So the rows of any table all have one fault, or all have
results, whose traces show the headings of the table.
-/
theorem evaluate_alike_of_names_eq
    (program : Program)
    {first second : Assignment}
    (sameNames : first.map Prod.fst = second.map Prod.fst)
    (table : Table) :
    ((∃ fault,
        program.evaluate first = .error fault ∧
          program.evaluate second = .error fault ∧
          fault.position? = none) ∨
        ∃ firstDerivation secondDerivation,
          program.evaluate first = .ok firstDerivation ∧
            program.evaluate second = .ok secondDerivation ∧
            firstDerivation.trace.length = secondDerivation.trace.length ∧
            List.Forall₂ Step.Alike
              firstDerivation.trace secondDerivation.trace) ∧
      ((∃ fault, ∀ number, table.row number = .error fault) ∨
        ∀ number,
          ∃ derivation,
            table.row number = .ok derivation ∧
              derivation.trace.map Step.text = table.headings) := by
  constructor
  · have agree := program.evaluate_agree sameNames
    cases evaluated : program.evaluate first with
    | error fault =>
        rw [evaluated] at agree
        exact .inl
          ⟨fault, rfl, agree.eq_error,
            Program.position?_of_evaluate evaluated⟩
    | ok firstDerivation =>
        rw [evaluated] at agree
        obtain ⟨secondDerivation, secondEvaluated, alike⟩ := agree.exists_ok
        exact .inr
          ⟨firstDerivation, secondDerivation, rfl, secondEvaluated,
            alike.length_eq, alike⟩
  · cases evaluated : table.row 0 with
    | error fault =>
        exact .inl ⟨fault, row_eq_error evaluated⟩
    | ok derivation =>
        exact .inr (exists_row_of_first evaluated)

/-- Opposite values leave the trace of an implication in the same columns. -/
theorem evaluate_alike_of_names_eq_of_implication :
    [(Text.ascii "A", true), (Text.ascii "B", false)].map Prod.fst =
        [(Text.ascii "A", false), (Text.ascii "B", true)].map Prod.fst ∧
      ∃ table,
        ofText (Text.ascii "A -> B") = .ok table ∧
          ((∃ fault,
              table.expression.program.evaluate
                  [(Text.ascii "A", true), (Text.ascii "B", false)] =
                .error fault ∧
              table.expression.program.evaluate
                  [(Text.ascii "A", false), (Text.ascii "B", true)] =
                .error fault ∧
              fault.position? = none) ∨
            ∃ firstDerivation secondDerivation,
              table.expression.program.evaluate
                  [(Text.ascii "A", true), (Text.ascii "B", false)] =
                .ok firstDerivation ∧
              table.expression.program.evaluate
                  [(Text.ascii "A", false), (Text.ascii "B", true)] =
                .ok secondDerivation ∧
              firstDerivation.trace.length = secondDerivation.trace.length ∧
              List.Forall₂ Step.Alike
                firstDerivation.trace secondDerivation.trace) ∧
          ((∃ fault, ∀ number, table.row number = .error fault) ∨
            ∀ number,
              ∃ derivation,
                table.row number = .ok derivation ∧
                  derivation.trace.map Step.text = table.headings) := by
  have sameNames :
      [(Text.ascii "A", true), (Text.ascii "B", false)].map Prod.fst =
        [(Text.ascii "A", false), (Text.ascii "B", true)].map Prod.fst := by
    rfl
  exact
    ⟨sameNames, _, rfl, evaluate_alike_of_names_eq _ sameNames _⟩

end Table

end Propositional
