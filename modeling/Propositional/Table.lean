import Propositional.Evaluation
import Propositional.Expression

namespace Propositional

/-!
# Truth tables

A truth table evaluates an expression under every assignment of its variables.
A row is numbered by a word whose lowest bits are the values of the variables,
the first variable in the highest of them, so the rows ascend from all false to
all true.
-/

/-- The number of a row. -/
abbrev Row := UInt64

namespace Row

/-- How many rows a table over variables with these names has. -/
def count (names : List Text) : Row :=
  1 <<< UInt64.ofNat names.length

/--
The assignment that a row stands for: the value of a variable is the bit whose
place is the number of variables after it.
-/
def assignment (row : Row) : List Text → Assignment
  | [] =>
      []
  | name :: rest =>
      (name, (row >>> UInt64.ofNat rest.length) &&& 1 == 1) ::
        assignment row rest

end Row

/-- The values of one formula in every row. -/
structure Column where
  text : Text
  precedence : Int
  values : List Bool
  deriving Repr, DecidableEq

/-- A formula as it was written and as it was read. -/
structure Table where
  source : Text
  expression : Expression
  deriving Repr, DecidableEq

namespace Table

/-- The table of a formula. -/
def ofText (text : Text) : Except Fault Table := do
  let expression ← Expression.parse text
  return ⟨text, expression⟩

/-- The names of the variables, in ascending order. -/
def names (table : Table) : List Text :=
  table.expression.names

/-- Evaluate the formula under any assignment. -/
def evaluate
    (table : Table)
    (assignment : Assignment) :
    Except Fault Derivation :=
  table.expression.program.evaluate assignment

/-- Evaluate one row. -/
def row (table : Table) (number : Row) : Except Fault Derivation :=
  table.evaluate (number.assignment table.names)

/-- The row numbers, in ascending order. -/
def rowNumbers (table : Table) : List Row :=
  (List.range (Row.count table.names).toNat).map UInt64.ofNat

/-- Every row, or the fault of the first row that has one. -/
def rows (table : Table) : Except Fault (List Derivation) :=
  table.rowNumbers.mapM table.row

/-- The column of the whole formula. -/
def conclusion (table : Table) : Except Fault Column := do
  let first ← table.row 0
  let rows ← table.rows
  return {
    text := first.conclusion.text
    precedence := first.conclusion.precedence
    values := rows.map fun derivation => derivation.conclusion.value
  }

end Table

end Propositional
