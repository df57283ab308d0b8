import Propositional.Proofs.Table.Closure
import Propositional.Proofs.Table.Columns
import Propositional.Proofs.Table.Headings
import Propositional.Proofs.Table.Uniformity

namespace Propositional

/-!
# Reading a drawn table

A drawn table loses nothing of what it tabulates.  Its lines are unbroken and
equally long, and its rule divides the headings into the texts of the trace and
every row into the digits of the values, although headings contain the bytes
that separate columns.  If the rows have no values, each of them says why.
-/

namespace Table

/-- A heading fills its column. -/
theorem pad_heading
    {heading : Text}
    (visible : heading ≠ []) :
    Text.pad (columnWidth heading) heading = heading := by
  have width : columnWidth heading = heading.length :=
    Nat.max_eq_left (List.length_pos_iff.mpr visible)
  rw [width, Text.pad, List.rightpad, Nat.sub_self]
  exact List.append_nil heading

/-- The cell of a step in its column. -/
def valueCell (step : Step) : Text :=
  Text.pad (columnWidth step.text) (digit step.value)

theorem length_digit (value : Bool) : (digit value).length = 1 := by
  cases value <;> rfl

/-- A cell is the digit of its value and blanks. -/
theorem valueCell_eq (step : Step) :
    valueCell step =
      digit step.value ++
        List.replicate (columnWidth step.text - 1) Byte.blank := by
  rw [valueCell, Text.pad, List.rightpad, length_digit]

theorem length_valueCell (step : Step) :
    (valueCell step).length = columnWidth step.text := by
  rw [valueCell, Text.pad, List.length_rightpad, length_digit]
  exact Nat.max_eq_left (Nat.le_max_right _ _)

theorem newline_notMem_valueCell (step : Step) :
    Byte.newline ∉ valueCell step := by
  have digitUnbroken : Byte.newline ∉ digit step.value := by
    cases step.value <;> decide
  have blankUnbroken : Byte.newline ≠ Byte.blank := by
    decide
  rw [valueCell_eq]
  exact List.not_mem_append digitUnbroken
    fun member => blankUnbroken (List.eq_of_mem_replicate member)

/-- With a column for every step no cell lies beyond the last column. -/
theorem valueCells_of_length_eq
    {widths : List Nat}
    {trace : List Step}
    (same : trace.length = widths.length) :
    valueCells widths trace =
      List.zipWith (fun width step => Text.pad width (digit step.value))
        widths trace := by
  apply List.ext_getElem
  · simp [valueCells, same]
  · intro column inCells inZip
    have inWidths : column < widths.length := by
      simpa [valueCells, same] using inCells
    simp [valueCells, inWidths]

example :
    valueCells [3]
        [Step.atomic (Text.ascii "A") true,
          Step.atomic (Text.ascii "B") false] =
      [Text.ascii "1  ", Text.ascii "0"] := by
  rfl

/-- No row of a table has a cell beyond the last column. -/
theorem valueLine_of_row
    {table : Table}
    {number : Row}
    {derivation : Derivation}
    (evaluated : table.row number = .ok derivation) :
    valueLine (table.headings.map columnWidth) derivation =
      joinCells
        (List.zipWith (fun width step => Text.pad width (digit step.value))
          (table.headings.map columnWidth) derivation.trace) := by
  have columns :
      derivation.trace.length = (table.headings.map columnWidth).length := by
    rw [← trace_of_row evaluated, List.length_map, List.length_map]
  rw [valueLine, valueCells_of_length_eq columns]

/-- The line of a row joins the cells of its trace. -/
theorem valueLine_eq_joinCells (derivation : Derivation) :
    valueLine ((derivation.trace.map Step.text).map columnWidth) derivation =
      joinCells (derivation.trace.map valueCell) := by
  have columns :
      derivation.trace.length =
        ((derivation.trace.map Step.text).map columnWidth).length := by
    rw [List.length_map, List.length_map]
  rw [valueLine, valueCells_of_length_eq columns, List.map_map,
    List.zipWith_map_left, List.zipWith_self]
  rfl

/-- The line of visible headings is divided into the headings. -/
theorem ruled_headingLine
    {headings : List Text}
    (notEmpty : headings ≠ [])
    (visible : ∀ heading ∈ headings, heading ≠ [])
    (unbroken : ∀ heading ∈ headings, Byte.newline ∉ heading) :
    Ruled (ruleLine headings) (headingLine headings) headings := by
  have filled :
      headings.map (fun heading => Text.pad (columnWidth heading) heading) =
        headings := by
    rw [List.map_congr_left fun heading member =>
      pad_heading (visible heading member)]
    exact List.map_id headings
  have widths : headings.map columnWidth = headings.map List.length :=
    List.map_congr_left fun heading member =>
      Nat.max_eq_left (List.length_pos_iff.mpr (visible heading member))
  rw [headingLine, filled, ruleLine_eq_rule, widths]
  exact ruled_joinCells notEmpty unbroken

/-- The line of a row is divided into the cells of its trace. -/
theorem ruled_valueLine
    {headings : List Text}
    {derivation : Derivation}
    (notEmpty : headings ≠ [])
    (sameTexts : derivation.trace.map Step.text = headings) :
    Ruled (ruleLine headings)
      (valueLine (headings.map columnWidth) derivation)
      (derivation.trace.map valueCell) := by
  subst sameTexts
  have widths :
      (derivation.trace.map Step.text).map columnWidth =
        (derivation.trace.map valueCell).map List.length := by
    rw [List.map_map, List.map_map]
    exact List.map_congr_left fun step _ => (length_valueCell step).symm
  rw [valueLine_eq_joinCells, ruleLine_eq_rule, widths]
  apply ruled_joinCells
  · simpa using notEmpty
  · intro cell member
    obtain ⟨step, _, rfl⟩ := List.mem_map.mp member
    exact newline_notMem_valueCell step

/-- A drawn table is its headings, its rule and one line a row. -/
theorem render_eq_flatMap_line (table : Table) :
    table.render =
      (headingLine table.headings :: ruleLine table.headings ::
        table.rowNumbers.map fun number =>
          rowLine (table.headings.map columnWidth) (table.row number)).flatMap
        Text.line := by
  rw [List.flatMap_cons, List.flatMap_cons, List.flatMap_map,
    ← List.append_assoc]
  rfl

/-- The rows of a table with values are drawn from their derivations. -/
theorem map_rowLine_of_rows
    {table : Table}
    {rows : List Derivation}
    (tabulated : table.rows = .ok rows)
    (widths : List Nat) :
    (table.rowNumbers.map fun number =>
        rowLine widths (table.row number)) =
      rows.map (valueLine widths) := by
  have mapped :=
    congrArg (List.map (rowLine widths)) (Fault.mapM_eq_ok_iff.mp tabulated)
  rw [List.map_map, List.map_map] at mapped
  exact mapped

/-- The texts in the trace of a row are visible and unbroken. -/
theorem Lists.text_of_mem_trace
    {table : Table}
    {formula : Formula}
    {number : Row}
    {step : Step}
    (lists : Lists table formula)
    (named : formula.Named)
    (member :
      step ∈ (formula.derivation (number.assignment table.names)).trace) :
    step.text ≠ [] ∧ Byte.newline ∉ step.text := by
  obtain ⟨part, included, rfl⟩ := lists.exists_part_of_mem_trace member
  have partNamed : part.Named :=
    fun name inPart => named name (included inPart)
  exact
    ⟨Formula.print_ne_nil partNamed, Formula.newline_notMem_print partNamed⟩

/-- The message of a row without a value is unbroken. -/
theorem newline_notMem_message_of_row
    {text : Text}
    {table : Table}
    {number : Row}
    {fault : Fault}
    (read : ofText text = .ok table)
    (failed : table.row number = .error fault) :
    Byte.newline ∉ fault.message := by
  obtain ⟨expression, parsed, collected⟩ := Fault.bind_eq_ok_iff.mp read
  cases collected
  have kinds :=
    (Expression.Closed.of_parse parsed).kind_of_evaluate number failed
  apply Fault.newline_notMem_message
  cases fault with
  | insufficientOperands connective =>
      exact connective.newline_notMem_symbol
  | malformedResult height =>
      exact List.not_mem_nil
  | _ =>
      rcases kinds with isKind | isKind <;> cases isKind

/-- The number of row numbers is the number of rows. -/
theorem length_rowNumbers
    {text : Text}
    {table : Table}
    (read : ofText text = .ok table) :
    table.rowNumbers.length = 2 ^ table.names.length := by
  rw [rowNumbers, List.length_map, List.length_range]
  exact toNat_count_of_ofText read

/-- A cell shows the value of a step: its digit, and then blanks. -/
def Shows (cell : Text) (step : Step) : Prop :=
  ∃ blanks,
    cell =
      (if step.value then Text.ascii "1" else Text.ascii "0") ++
        List.replicate blanks (Byte.ofChar ' ')

/-- The cells of a trace show its values. -/
theorem forall₂_shows_valueCell (trace : List Step) :
    List.Forall₂ Shows (trace.map valueCell) trace := by
  rw [List.forall₂_map_left_iff, List.forall₂_same]
  intro step _
  exact ⟨_, valueCell_eq step⟩

/--
A drawing of values: the headings, a rule of dashes and plus signs, and one line
a row.  The rule divides the headings into the texts of the first trace, and
every row into cells that show the values of its own trace.
-/
structure ValueDrawing
    (table : Table)
    (first : Derivation)
    (rows : List Derivation)
    (heading ruled : Text)
    (body : List Text) : Prop where
  render_eq :
    table.render =
      (heading :: ruled :: body).flatMap fun line => line ++ Text.ascii "\n"
  length_eq :
    body.length = 2 ^ table.names.length
  columns_eq :
    ∀ derivation ∈ rows, derivation.trace.length = first.trace.length
  dashed :
    ∀ byte ∈ ruled, byte = Byte.ofChar '-' ∨ byte = Byte.ofChar '+'
  heading_ruled :
    Ruled ruled heading (first.trace.map Step.text)
  body_ruled :
    List.Forall₂
      (fun line derivation =>
        ∃ cells,
          Ruled ruled line cells ∧ List.Forall₂ Shows cells derivation.trace)
      body rows

/-- If the first row has a value, every row has one and the table draws them. -/
theorem exists_valueDrawing
    {text : Text}
    {table : Table}
    {first : Derivation}
    (read : ofText text = .ok table)
    (evaluated : table.row 0 = .ok first) :
    ∃ rows heading ruled body,
      table.rows = .ok rows ∧
        ValueDrawing table first rows heading ruled body := by
  obtain ⟨formula, lists, named⟩ := exists_lists_of_row read evaluated
  obtain ⟨rows, tabulated⟩ : ∃ rows, table.rows = .ok rows :=
    ⟨_, lists.rows_eq⟩
  have headed : table.headings = first.trace.map Step.text := by
    simp only [headings, evaluated]
  have isDerivation := lists.row_eq 0
  rw [evaluated, Except.ok.injEq] at isDerivation
  have notEmpty : first.trace.map Step.text ≠ [] := by
    have last := lists.getLast?_trace 0
    rw [← isDerivation] at last
    have member := List.mem_of_getLast? last
    exact List.ne_nil_of_mem (List.mem_map_of_mem member)
  have texts :
      ∀ heading ∈ first.trace.map Step.text,
        heading ≠ [] ∧ Byte.newline ∉ heading := by
    intro heading listed
    obtain ⟨step, member, rfl⟩ := List.mem_map.mp listed
    rw [isDerivation] at member
    exact lists.text_of_mem_trace named member
  have sameTexts :
      ∀ derivation ∈ rows,
        derivation.trace.map Step.text = first.trace.map Step.text := by
    intro derivation member
    exact (trace_of_mem_rows tabulated member).trans headed
  have drawn := table.render_eq_flatMap_line
  rw [headed, map_rowLine_of_rows tabulated] at drawn
  refine ⟨rows, _, _, _, tabulated, drawn, ?_, ?_, ?_, ?_, ?_⟩
  · rw [List.length_map, (rows_spec tabulated).1]
    exact toNat_count_of_ofText read
  · intro derivation member
    have sameLength := congrArg List.length (sameTexts derivation member)
    rwa [List.length_map, List.length_map] at sameLength
  · intro byte member
    rw [ruleLine_eq_rule] at member
    exact mem_rule member
  · exact ruled_headingLine notEmpty
      (fun heading listed => (texts heading listed).1)
      (fun heading listed => (texts heading listed).2)
  · rw [List.forall₂_map_left_iff, List.forall₂_same]
    intro derivation member
    exact
      ⟨_, ruled_valueLine notEmpty (sameTexts derivation member),
        forall₂_shows_valueCell derivation.trace⟩

/-- A formula as it heads a column: one without any text leaves a blank. -/
def shown (source : Text) : Text :=
  if source = [] then Text.ascii " " else source

/-- Without values the headings are the names and the formula as it was written. -/
theorem headingLine_of_names
    {names : List Text}
    (visible : ∀ name ∈ names, name ≠ [])
    (source : Text) :
    headingLine (names ++ [source]) =
      joinCells (names ++ [shown source]) := by
  have filled :
      names.map (fun name => Text.pad (columnWidth name) name) = names := by
    rw [List.map_congr_left fun name member =>
      pad_heading (visible name member)]
    exact List.map_id names
  have sourceFilled :
      Text.pad (columnWidth source) source = shown source := by
    by_cases isEmpty : source = []
    · subst source
      rfl
    · rw [pad_heading isEmpty, shown, if_neg isEmpty]
  rw [headingLine, List.map_append, filled, List.map_singleton, sourceFilled]

/-- The rule is as long as the line of headings, whatever the headings are. -/
theorem length_ruleLine (headings : List Text) :
    (ruleLine headings).length = (headingLine headings).length := by
  have widths :
      (headings.map fun heading =>
          Text.pad (columnWidth heading) heading).map List.length =
        headings.map columnWidth := by
    rw [List.map_map]
    refine List.map_congr_left fun heading _ => ?_
    rw [Function.comp_apply, Text.pad, List.length_rightpad]
    exact Nat.max_eq_left (Nat.le_max_left _ _)
  rw [headingLine, length_joinCells, widths, ruleLine_eq_rule]

/-- The rows of a table without values are drawn alike. -/
theorem map_rowLine_of_fault
    {text : Text}
    {table : Table}
    {fault : Fault}
    (read : ofText text = .ok table)
    (failed : table.row 0 = .error fault)
    (widths : List Nat) :
    (table.rowNumbers.map fun number =>
        rowLine widths (table.row number)) =
      List.replicate (2 ^ table.names.length) (faultLine fault) := by
  have alike :
      ∀ number ∈ table.rowNumbers,
        rowLine widths (table.row number) = faultLine fault := by
    intro number _
    rw [row_eq_error failed number]
    rfl
  rw [List.map_congr_left alike, List.map_const', length_rowNumbers read]

/--
A drawing of a fault: the names and the formula as it was written, a rule as
long as these, and the same report for each row.
-/
structure FaultDrawing
    (table : Table)
    (fault : Fault)
    (heading ruled : Text) : Prop where
  render_eq :
    table.render =
      (heading :: ruled ::
        List.replicate (2 ^ table.names.length)
          (Text.ascii "Eval Error: " ++ fault.message)).flatMap
        fun line => line ++ Text.ascii "\n"
  heading_eq :
    heading = (Text.ascii " | ").intercalate (table.names ++ [shown table.source])
  length_eq :
    ruled.length = heading.length
  dashed :
    ∀ byte ∈ ruled, byte = Byte.ofChar '-' ∨ byte = Byte.ofChar '+'
  unbroken :
    Byte.ofChar '\n' ∉ fault.message

/-- If the first row has a fault, the table draws this fault for every row. -/
theorem exists_faultDrawing
    {text : Text}
    {table : Table}
    {fault : Fault}
    (read : ofText text = .ok table)
    (failed : table.row 0 = .error fault) :
    ∃ heading ruled, FaultDrawing table fault heading ruled := by
  obtain ⟨expression, parsed, collected⟩ := Fault.bind_eq_ok_iff.mp read
  have closed := Expression.Closed.of_parse parsed
  have visible : ∀ name ∈ table.names, name ≠ [] := by
    intro name member
    rw [← Except.ok.inj collected] at member
    obtain ⟨byte, rfl, _⟩ := closed.capital name member
    exact List.cons_ne_nil byte []
  have headed : table.headings = table.names ++ [table.source] := by
    simp only [headings, failed]
  have drawn := table.render_eq_flatMap_line
  rw [map_rowLine_of_fault read failed, headed] at drawn
  refine
    ⟨_, _, drawn, headingLine_of_names visible table.source,
      length_ruleLine _, ?_, newline_notMem_message_of_row read failed⟩
  intro byte member
  rw [ruleLine_eq_rule] at member
  exact mem_rule member

/--
A drawn table can be read back.  If the first row has a value, the table is
unbroken lines of one length, two more than it has rows.  Cut where the rule has
plus signs, the headings are the texts of the trace, and each row is the digits
of its values, filled with blanks.  Otherwise each row is the same report of the
fault.
-/
theorem render_readable
    {text : Text}
    {table : Table}
    (read : ofText text = .ok table) :
    table.source = text ∧
      (∀ first,
        table.row 0 = .ok first →
          ∃ rows heading ruled body,
            table.rows = .ok rows ∧
              ValueDrawing table first rows heading ruled body) ∧
      ∀ fault,
        table.row 0 = .error fault →
          ∃ heading ruled, FaultDrawing table fault heading ruled := by
  obtain ⟨_, _, _, _, source⟩ := ofText_eq_ok_iff.mp read
  refine ⟨source, ?_, ?_⟩
  · intro first evaluated
    exact exists_valueDrawing read evaluated
  · intro fault failed
    exact exists_faultDrawing read failed

/--
The disjunction sign in a heading starts no column, and a formula that is broken
into two lines is still reported on.
-/
theorem render_readable_of_disjunction :
    (∃ table first rows heading ruled body,
      ofText (Text.ascii "A | (B -> A)") = .ok table ∧
        table.source = Text.ascii "A | (B -> A)" ∧
        table.row 0 = .ok first ∧
        table.rows = .ok rows ∧
        ValueDrawing table first rows heading ruled body) ∧
      ∃ table fault heading ruled,
        ofText (Text.ascii "A\n&") = .ok table ∧
          table.source = Text.ascii "A\n&" ∧
          table.row 0 = .error fault ∧
          FaultDrawing table fault heading ruled := by
  have read :
      ofText (Text.ascii "A | (B -> A)") =
        .ok
          ⟨Text.ascii "A | (B -> A)",
            [Token.ofName (Text.ascii "A"), Token.ofName (Text.ascii "B"),
              Token.ofName (Text.ascii "A"),
              Token.ofConnective (.binary .implication),
              Token.ofConnective (.binary .disjunction)],
            [Text.ascii "A", Text.ascii "B"]⟩ := by
    rfl
  have brokenRead :
      ofText (Text.ascii "A\n&") =
        .ok
          ⟨Text.ascii "A\n&",
            [Token.ofName (Text.ascii "A"),
              Token.ofConnective (.binary .conjunction)],
            [Text.ascii "A"]⟩ := by
    rfl
  obtain ⟨source, drawn, _⟩ := render_readable read
  obtain ⟨rows, heading, ruled, body, tabulated, drawing⟩ := drawn _ rfl
  obtain ⟨brokenSource, _, reported⟩ := render_readable brokenRead
  obtain ⟨brokenHeading, brokenRuled, report⟩ := reported _ rfl
  exact
    ⟨⟨_, _, rows, heading, ruled, body, read, source, rfl, tabulated, drawing⟩,
      _, _, brokenHeading, brokenRuled, brokenRead, brokenSource, rfl, report⟩

end Table

end Propositional
