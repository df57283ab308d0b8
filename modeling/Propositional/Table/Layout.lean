import Propositional.Table

namespace Propositional.Table

/-!
# The layout of a table

A table is drawn as a line of headings, a rule and one line a row.  A column is
as wide as its heading, and never empty; every cell is filled with blanks on
the right.  A row without a value shows its fault instead.
-/

/--
The headings: the entries of the trace, or the variables and the formula as it
was written if the first row has no value.
-/
def headings (table : Table) : List Text :=
  match table.row 0 with
  | .ok derivation =>
      derivation.trace.map Step.text
  | .error _ =>
      table.names ++ [table.source]

/-- The width of a column. -/
def columnWidth (heading : Text) : Nat :=
  max heading.length 1

/-- Join the cells of one line. -/
def joinCells (cells : List Text) : Text :=
  (Text.ascii " | ").intercalate cells

/-- The line of headings. -/
def headingLine (headings : List Text) : Text :=
  joinCells (headings.map fun heading => Text.pad (columnWidth heading) heading)

/-- The rule below the headings. -/
def ruleLine (headings : List Text) : Text :=
  (Text.ascii "-+-").intercalate
    (headings.map fun heading =>
      List.replicate (columnWidth heading) (Byte.ofChar '-'))

/-- The digit of a truth value. -/
def digit (value : Bool) : Text :=
  if value then Text.ascii "1" else Text.ascii "0"

/-- The cells of a trace; a cell beyond the last column has width one. -/
def valueCells (widths : List Nat) (trace : List Step) : List Text :=
  trace.zipIdx.map fun (step, column) =>
    Text.pad (widths.getD column 1) (digit step.value)

/-- The line of a row that has a value. -/
def valueLine (widths : List Nat) (derivation : Derivation) : Text :=
  joinCells (valueCells widths derivation.trace)

/-- The line of a row that has none. -/
def faultLine (fault : Fault) : Text :=
  Text.ascii "Eval Error: " ++ fault.message

/-- The line of a row. -/
def rowLine
    (widths : List Nat)
    (row : Except Fault Derivation) :
    Text :=
  match row with
  | .ok derivation =>
      valueLine widths derivation
  | .error fault =>
      faultLine fault

/-- The drawn table. -/
def render (table : Table) : Text :=
  let headings := table.headings
  let widths := headings.map columnWidth
  Text.line (headingLine headings) ++
    Text.line (ruleLine headings) ++
      table.rowNumbers.flatMap fun number =>
        Text.line (rowLine widths (table.row number))

end Propositional.Table
