import Mathlib.Algebra.Order.Ring.Nat
import Propositional.Proofs.Arrangement.Conservation
import Propositional.Proofs.Evaluation.Trace
import Propositional.Table

namespace Propositional

/-!
# Rows of a truth table

A table over at most twenty-six names has two to the number of names rows, and
each row gives every name a value.  So the program of a formula over these names
evaluates in every row, and the trace of a row ends with the step of the whole
formula, also where the formula is a single variable.
-/

namespace Formula

open Token (variableTokens)

/-- The variable tokens of a listing are the names of the formula. -/
theorem variableTokens_program (formula : Formula) :
    variableTokens formula.program = formula.names.map Token.ofName := by
  induction formula with
  | atom name =>
      rfl
  | negation operand inductionHypothesis =>
      rw [program, Token.variableTokens_append, inductionHypothesis, names]
      exact List.append_nil _
  | binary operation left right leftHypothesis rightHypothesis =>
      rw [program, Token.variableTokens_append, Token.variableTokens_append,
        leftHypothesis, rightHypothesis, names, List.map_append]
      exact List.append_nil _

/-- The names in a listing are the names of the formula. -/
theorem mem_names_program
    {name : Text}
    {formula : Formula} :
    name ∈ Token.names formula.program ↔ name ∈ formula.names := by
  have kept :
      Token.ofName name ∈ formula.program ↔
        Token.ofName name ∈ variableTokens formula.program := by
    simp [variableTokens, Token.ofName]
  rw [Token.mem_names, kept, variableTokens_program]
  simp [Token.ofName]

end Formula

namespace Row

/-- The number of rows is two to the number of names. -/
theorem toNat_count
    {names : List Text}
    (few : names.length < 64) :
    (count names).toNat = 2 ^ names.length := by
  have small : names.length < 2 ^ 64 :=
    Nat.lt_trans few (by decide)
  have power : 2 ^ names.length < 2 ^ 64 :=
    Nat.pow_lt_pow_right (by decide) few
  have one : (1 : UInt64).toNat = 1 := by
    rfl
  rw [count, UInt64.toNat_shiftLeft, UInt64.toNat_ofNat_of_lt' small,
    Nat.mod_eq_of_lt few, one, Nat.one_shiftLeft, Nat.mod_eq_of_lt power]

theorem map_fst_assignment
    (row : Row)
    (names : List Text) :
    (row.assignment names).map Prod.fst = names := by
  induction names with
  | nil =>
      rfl
  | cons name rest inductionHypothesis =>
      rw [assignment, List.map_cons, inductionHypothesis]

/-- A row gives each of its names a value. -/
theorem value?_isSome
    (row : Row)
    {name : Text}
    {names : List Text}
    (member : name ∈ names) :
    ((row.assignment names).value? name).isSome := by
  rw [Assignment.value?_isSome_iff, row.map_fst_assignment]
  exact member

end Row

namespace Table

open Formula (derivation)

/-- The table of a formula that has been read. -/
structure Lists (table : Table) (formula : Formula) : Prop where
  program_eq :
    table.expression.program = formula.program
  names_eq :
    table.names = Token.names formula.program

namespace Lists

variable {table : Table} {formula : Formula}

/-- A row gives no name two values. -/
theorem distinct
    (lists : Lists table formula)
    (number : Row) :
    ((number.assignment table.names).map Prod.fst).Nodup := by
  rw [Row.map_fst_assignment, lists.names_eq]
  exact Token.names_nodup formula.program

/-- Every row gives the atoms of the formula values. -/
theorem covered
    (lists : Lists table formula)
    (number : Row) :
    formula.Covered (number.assignment table.names) := by
  intro name member
  apply number.value?_isSome
  rw [lists.names_eq]
  exact Formula.mem_names_program.mpr member

/-- Every row evaluates the formula. -/
theorem row_eq
    (lists : Lists table formula)
    (number : Row) :
    table.row number =
      .ok (formula.derivation (number.assignment table.names)) := by
  rw [row, evaluate, lists.program_eq]
  exact Program.evaluate_program (lists.covered number)

/-- The formula has a derivation for each row number. -/
theorem rows_eq (lists : Lists table formula) :
    table.rows =
      .ok
        (table.rowNumbers.map fun number =>
          formula.derivation (number.assignment table.names)) := by
  rw [rows, Fault.mapM_eq_ok_iff, List.map_map]
  exact List.map_congr_left fun number _ => lists.row_eq number

/-- The trace of a row ends with the step of the whole formula. -/
theorem getLast?_trace
    (lists : Lists table formula)
    (number : Row) :
    (formula.derivation
        (number.assignment table.names)).trace.getLast? =
      some
        (formula.toStep (number.assignment table.names).valuation) := by
  refine
    (Formula.getLast?_trace_eq_toStep_iff
      (lists.distinct number) formula).mpr ?_
  rintro name rfl
  rw [Row.map_fst_assignment, lists.names_eq]
  rfl

/-- A row concludes with the step of the whole formula. -/
theorem conclusion_derivation
    (lists : Lists table formula)
    (number : Row) :
    (formula.derivation (number.assignment table.names)).conclusion =
      formula.toStep (number.assignment table.names).valuation := by
  rw [Derivation.conclusion, List.getLastD_eq_getLast?,
    lists.getLast?_trace number, Option.getD_some]

/-- The column of the whole formula has its text and its value in every row. -/
theorem conclusion_eq (lists : Lists table formula) :
    table.conclusion =
      .ok
        { text := formula.print
          precedence := formula.precedence
          values := table.rowNumbers.map fun number =>
            formula.eval (number.assignment table.names).valuation } := by
  rw [conclusion, lists.row_eq, lists.rows_eq, Fault.ok_bind, Fault.ok_bind,
    lists.conclusion_derivation, List.map_map]
  simp only [Function.comp_def, lists.conclusion_derivation]
  rfl

end Lists

/-- The row numbers are the words below the number of rows. -/
theorem mem_rowNumbers
    {table : Table}
    {number : Row} :
    number ∈ table.rowNumbers ↔ number < Row.count table.names := by
  rw [rowNumbers, List.mem_map, UInt64.lt_iff_toNat_lt]
  constructor
  · rintro ⟨index, member, rfl⟩
    have below := List.mem_range.mp member
    have small : index < 2 ^ 64 :=
      Nat.lt_trans below (UInt64.toNat_lt _)
    rw [UInt64.toNat_ofNat_of_lt' small]
    exact below
  · intro below
    exact ⟨number.toNat, List.mem_range.mpr below, UInt64.ofNat_toNat⟩

/-- There are as many rows as the table counts, each of a number below that. -/
theorem rows_spec
    {table : Table}
    {rows : List Derivation}
    (tabulated : table.rows = .ok rows) :
    rows.length = (Row.count table.names).toNat ∧
      ∀ derivation ∈ rows,
        ∃ number < Row.count table.names,
          table.row number = .ok derivation := by
  have mapped := Fault.mapM_eq_ok_iff.mp tabulated
  constructor
  · have same := congrArg List.length mapped
    rw [List.length_map, List.length_map] at same
    rw [← same, rowNumbers, List.length_map, List.length_range]
  · intro derivation member
    have listed : Except.ok derivation ∈ table.rowNumbers.map table.row := by
      rw [mapped]
      exact List.mem_map_of_mem member
    obtain ⟨number, counted, computed⟩ := List.mem_map.mp listed
    exact ⟨number, mem_rowNumbers.mp counted, computed⟩

/-- The row at the place of a number is the row of that number. -/
theorem exists_getElem?_of_rows
    {table : Table}
    {rows : List Derivation}
    {number : Row}
    (tabulated : table.rows = .ok rows)
    (counted : number < Row.count table.names) :
    ∃ derivation,
      rows[number.toNat]? = some derivation ∧
        table.row number = .ok derivation := by
  have mapped := Fault.mapM_eq_ok_iff.mp tabulated
  have below : number.toNat < (Row.count table.names).toNat :=
    UInt64.lt_iff_toNat_lt.mp counted
  have listed : table.rowNumbers[number.toNat]? = some number := by
    simp [rowNumbers, below]
  have sameRow := congrArg (·[number.toNat]?) mapped
  simp only [List.getElem?_map, listed, Option.map_some] at sameRow
  obtain ⟨derivation, found, computed⟩ :=
    Option.map_eq_some_iff.mp sameRow.symm
  exact ⟨derivation, found, computed.symm⟩

/-- Reading a text is reading its tokens and arranging them. -/
theorem ofText_eq_ok_iff
    {text : Text}
    {table : Table} :
    ofText text = .ok table ↔
      ∃ tokens,
        Token.tokenize text = .ok tokens ∧
          Program.ofTokens tokens = .ok table.expression.program ∧
          table.names = Token.names tokens ∧
          table.source = text := by
  rcases table with ⟨source, program, names⟩
  constructor
  · intro read
    obtain ⟨expression, parsed, collected⟩ := Fault.bind_eq_ok_iff.mp read
    obtain ⟨tokens, tokenized, continued⟩ := Fault.bind_eq_ok_iff.mp parsed
    obtain ⟨arranged, arrangedOk, built⟩ := Fault.bind_eq_ok_iff.mp continued
    cases built
    cases collected
    exact ⟨tokens, tokenized, arrangedOk, rfl, rfl⟩
  · rintro ⟨tokens, tokenized, arranged, rfl, rfl⟩
    rw [ofText, Expression.parse, tokenized, Fault.ok_bind, arranged]
    rfl

/-- A table that was read has two to the number of names rows. -/
theorem toNat_count_of_ofText
    {text : Text}
    {table : Table}
    (read : ofText text = .ok table) :
    (Row.count table.names).toNat = 2 ^ table.names.length := by
  obtain ⟨tokens, tokenized, _, names, _⟩ := ofText_eq_ok_iff.mp read
  obtain ⟨lexemes, _⟩ := Token.tokenize_eq_ok_iff_spells.mp tokenized
  have few : table.names.length ≤ 26 := by
    rw [names]
    exact Token.length_names_le lexemes
  exact Row.toNat_count (Nat.lt_of_le_of_lt few (by decide))

end Table

end Propositional
