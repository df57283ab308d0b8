import Mathlib.Logic.Basic
import Propositional.Console
import Propositional.Proofs.Reading
import Propositional.Proofs.Table.Drawing

namespace Propositional

/-!
# A single run

A run over the formula in its arguments shows all or nothing.  If the formula can
be read, the whole table is shown and the run succeeds: a row without a value
takes its line like any other, and its fault goes no further.  If the formula
cannot be read, the run fails, and what it leaves behind is one line about why.
-/

namespace Table

/--
A line that heads the columns above a rule: the texts of the first row in the
cells of the line, or the names and the formula as it was written if that row has
no value.
-/
inductive Heads
    (table : Table)
    (ruled line : Text) :
    Except Fault Derivation → Prop where
  | texts
      {first : Derivation} :
      Ruled ruled line (first.trace.map Step.text) →
      Heads table ruled line (.ok first)
  | names
      {fault : Fault} :
      line =
          (Text.ascii " | ").intercalate (table.names ++ [shown table.source]) →
      ruled.length = line.length →
      Heads table ruled line (.error fault)

/--
A line below a rule that shows what a row gives: its values in the cells of the
line, or its fault.
-/
inductive Draws (ruled line : Text) : Except Fault Derivation → Prop where
  | values
      {derivation : Derivation}
      {cells : List Text} :
      Ruled ruled line cells →
      List.Forall₂ Shows cells derivation.trace →
      Draws ruled line (.ok derivation)
  | fault
      {fault : Fault} :
      line = Text.ascii "Eval Error: " ++ fault.message →
      Byte.ofChar '\n' ∉ line →
      Draws ruled line (.error fault)

/-- What shows a row is one line. -/
theorem Draws.unbroken
    {ruled line : Text}
    {row : Except Fault Derivation}
    (draws : Draws ruled line row) :
    Byte.ofChar '\n' ∉ line := by
  cases draws with
  | values isRuled _ =>
      exact isRuled.unbroken
  | fault _ unbroken =>
      exact unbroken

/--
A drawing of a whole table: the headings, a rule of dashes and plus signs, and
one line for each row in order, with values or without.
-/
structure Drawn
    (table : Table)
    (heading ruled : Text)
    (body : List Text) : Prop where
  render_eq :
    table.render =
      (heading :: ruled :: body).flatMap fun line => line ++ Text.ascii "\n"
  heads :
    Heads table ruled heading (table.row 0)
  dashed :
    ∀ byte ∈ ruled, byte = Byte.ofChar '-' ∨ byte = Byte.ofChar '+'
  length_eq :
    body.length = 2 ^ table.names.length
  draws :
    List.Forall₂ (Draws ruled) body (table.rowNumbers.map table.row)

namespace Drawn

/-- The line of a row has no line break. -/
theorem unbroken
    {table : Table}
    {heading ruled : Text}
    {body : List Text}
    (drawn : Drawn table heading ruled body) :
    ∀ line ∈ body, Byte.ofChar '\n' ∉ line := by
  have lines :
      List.Forall₂
        (fun line row => Byte.ofChar '\n' ∉ line ∧ Draws ruled line row)
        body (table.rowNumbers.map table.row) :=
    drawn.draws.imp fun _ _ draws => ⟨draws.unbroken, draws⟩
  exact ((List.forall₂_and_left _ _).mp lines).1

/-- A table of values is drawn whole. -/
theorem of_values
    {table : Table}
    {first : Derivation}
    {rows : List Derivation}
    {heading ruled : Text}
    {body : List Text}
    (evaluated : table.row 0 = .ok first)
    (tabulated : table.rows = .ok rows)
    (drawing : ValueDrawing table first rows heading ruled body) :
    Drawn table heading ruled body where
  render_eq :=
    drawing.render_eq
  heads :=
    evaluated ▸ .texts drawing.heading_ruled
  dashed :=
    drawing.dashed
  length_eq :=
    drawing.length_eq
  draws := by
    have results : table.rowNumbers.map table.row = rows.map .ok :=
      Fault.mapM_eq_ok_iff.mp tabulated
    simp only [results, List.forall₂_map_right_iff]
    refine drawing.body_ruled.imp ?_
    rintro line derivation ⟨cells, isRuled, shows⟩
    exact .values isRuled shows

/-- A table of faults is drawn whole. -/
theorem of_fault
    {text : Text}
    {table : Table}
    {fault : Fault}
    {heading ruled : Text}
    (read : ofText text = .ok table)
    (failed : table.row 0 = .error fault)
    (drawing : FaultDrawing table fault heading ruled) :
    Drawn table heading ruled
      (List.replicate (2 ^ table.names.length)
        (Text.ascii "Eval Error: " ++ fault.message)) where
  render_eq :=
    drawing.render_eq
  heads :=
    failed ▸ .names drawing.heading_eq drawing.length_eq
  dashed :=
    drawing.dashed
  length_eq :=
    List.length_replicate
  draws := by
    have reports :
        List.replicate (2 ^ table.names.length)
            (Text.ascii "Eval Error: " ++ fault.message) =
          table.rowNumbers.map fun _ =>
            Text.ascii "Eval Error: " ++ fault.message := by
      simp only [List.map_const', length_rowNumbers read]
    have unbroken :
        Byte.ofChar '\n' ∉ Text.ascii "Eval Error: " ++ fault.message :=
      List.not_mem_append (by decide) drawing.unbroken
    simp only [reports, List.forall₂_map_left_iff,
      List.forall₂_map_right_iff, List.forall₂_same, row_eq_error failed]
    exact fun _ _ => .fault rfl unbroken

end Drawn

/-- Whatever can be read is drawn whole. -/
theorem exists_drawn
    {text : Text}
    {table : Table}
    (read : ofText text = .ok table) :
    ∃ heading ruled body, Drawn table heading ruled body := by
  cases evaluated : table.row 0 with
  | ok first =>
      obtain ⟨rows, heading, ruled, body, tabulated, drawing⟩ :=
        exists_valueDrawing read evaluated
      exact ⟨heading, ruled, body, .of_values evaluated tabulated drawing⟩
  | error fault =>
      obtain ⟨heading, ruled, drawing⟩ := exists_faultDrawing read evaluated
      exact ⟨heading, ruled, _, .of_fault read evaluated drawing⟩

end Table

namespace Console

/-- A successful run that shows a whole table and closes it with an empty line. -/
structure Shown (table : Table) (outcome : Outcome) : Prop where
  status_eq :
    outcome.status = 0
  errors_eq :
    outcome.errors = []
  output_eq :
    ∃ heading ruled body,
      (outcome.output =
          (heading :: ruled :: body ++ [[]]).flatMap fun line =>
            line ++ Text.ascii "\n") ∧
        Table.Drawn table heading ruled body ∧
        ∀ line ∈ body, Byte.ofChar '\n' ∉ line

/-- A failed run that shows no table but one line about a fault. -/
structure Reported (fault : Fault) (outcome : Outcome) : Prop where
  status_eq :
    outcome.status = 1
  output_eq :
    outcome.output = []
  errors_eq :
    outcome.errors =
      Text.ascii "Error: " ++ fault.message ++ Text.ascii "\n"
  unbroken :
    Byte.ofChar '\n' ∉ Text.ascii "Error: " ++ fault.message

/-- The answer to a formula that can be read is its whole table. -/
theorem shown_answer
    {text : Text}
    {table : Table}
    (read : Table.ofText text = .ok table) :
    Shown table (answer text) := by
  have answered : answer text = ⟨0, Text.line table.render, []⟩ := by
    simp only [answer, read]
  obtain ⟨heading, ruled, body, drawn⟩ := Table.exists_drawn read
  refine ⟨?_, ?_, heading, ruled, body, ?_, drawn, drawn.unbroken⟩
  · simp only [answered]
  · simp only [answered]
  · simp only [answered, drawn.render_eq, List.flatMap_append,
      List.flatMap_singleton]
    rfl

/-- The answer to a formula that cannot be read is the fault. -/
theorem reported_answer
    {text : Text}
    {fault : Fault}
    (failed : Expression.parse text = .error fault) :
    Reported fault (answer text) := by
  have unread : Table.ofText text = .error fault :=
    Fault.bind_eq_error_iff.mpr (.inl failed)
  have answered :
      answer text =
        ⟨1, [], Text.line (Text.ascii "Error: " ++ fault.message)⟩ := by
    simp only [answer, unread]
  refine ⟨?_, ?_, ?_, ?_⟩
  · simp only [answered]
  · simp only [answered]
  · simp only [answered]
    rfl
  · exact List.not_mem_append (by decide)
      (Expression.newline_notMem_message_of_parse failed)

/--
A run over the formula in its arguments either shows the whole table of the
formula or reports why it cannot be read, and never both.  No fault of a row keeps
the table from being shown, and no table is shown in part.
-/
theorem run_all_or_nothing
    {first : Text}
    (notShort : first ≠ Text.ascii "-h")
    (notLong : first ≠ Text.ascii "--help")
    (others : List Text)
    (input : Text) :
    Xor
      (∃ expression,
        Expression.parse ((Text.ascii " ").intercalate (first :: others)) =
            .ok expression ∧
          Shown
            ⟨(Text.ascii " ").intercalate (first :: others), expression⟩
            (run (first :: others) input))
      (∃ fault,
        Expression.parse ((Text.ascii " ").intercalate (first :: others)) =
            .error fault ∧
          Reported fault (run (first :: others) input)) := by
  have isAnswer :
      run (first :: others) input =
        answer ((Text.ascii " ").intercalate (first :: others)) := by
    simp [run, oneShot, asksForHelp, notShort, notLong]
  simp only [isAnswer]
  generalize (Text.ascii " ").intercalate (first :: others) = text
  cases parsed : Expression.parse text with
  | ok expression =>
      have read : Table.ofText text = .ok ⟨text, expression⟩ :=
        Fault.bind_eq_ok_iff.mpr ⟨expression, parsed, rfl⟩
      refine .inl ⟨⟨expression, rfl, shown_answer read⟩, ?_⟩
      rintro ⟨_, isError, _⟩
      cases isError
  | error fault =>
      refine .inr ⟨⟨fault, rfl, reported_answer parsed⟩, ?_⟩
      rintro ⟨_, isOk, _⟩
      cases isOk

/--
A connective without operands is a fault of the rows, which are shown, but a
bracket that closes no group is a fault of the formula.
-/
theorem run_all_or_nothing_of_missing_operand :
    Text.ascii "A" ≠ Text.ascii "-h" ∧
      Text.ascii "A" ≠ Text.ascii "--help" ∧
      (∃ expression,
        Expression.parse (Text.ascii "A &") = .ok expression ∧
          Shown ⟨Text.ascii "A &", expression⟩
            (run [Text.ascii "A", Text.ascii "&"] [])) ∧
      ∃ fault,
        Expression.parse (Text.ascii "A )") = .error fault ∧
          Reported fault (run [Text.ascii "A", Text.ascii ")"] []) := by
  have notShort : Text.ascii "A" ≠ Text.ascii "-h" := by
    decide
  have notLong : Text.ascii "A" ≠ Text.ascii "--help" := by
    decide
  refine ⟨notShort, notLong, ?_, ?_⟩
  · rcases run_all_or_nothing notShort notLong [Text.ascii "&"] [] with
        ⟨shown, _⟩ | ⟨⟨_, failed, _⟩, _⟩
    · exact shown
    · cases failed
  · rcases run_all_or_nothing notShort notLong [Text.ascii ")"] [] with
        ⟨⟨_, parsed, _⟩, _⟩ | ⟨reported, _⟩
    · cases parsed
    · exact reported

end Console

end Propositional
