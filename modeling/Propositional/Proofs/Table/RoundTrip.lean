import Propositional.Proofs.Arrangement.Grammar
import Propositional.Proofs.Formula.Printing
import Propositional.Proofs.Table.Rows

namespace Propositional

/-!
# Reading back what a table shows

The text that a table shows for the whole formula is read back as the program
that was tabulated, with the negation signs of the program cancelled.  No
bracket of the text is missing for that, and no text needs to be well formed:
whatever has a table is the listing of a formula.
-/

open Token (negationSign)

namespace Expression

/-- A printed formula is read as the listing of its reduced form. -/
theorem parse_print
    {formula : Formula}
    (named : formula.Named) :
    parse formula.print =
      .ok ⟨formula.reduce.program, Token.names formula.program⟩ := by
  have tokenized :=
    Token.tokenize_of_spells (Formula.lexemes_tokens named)
      (Formula.withoutBlanks_print named)
  obtain ⟨derives, _⟩ := Formula.derives_cancel_tokens named
  have arranged :=
    Program.ofTokens_of_reads (Arrangement.reads_of_derives derives)
  have sameNames :
      Token.names formula.reduce.program = Token.names formula.program := by
    apply Token.names_congr
    have same := congrArg (List.map Token.ofName) formula.names_reduce
    rw [← Formula.variableTokens_program, ← Formula.variableTokens_program] at same
    exact same
  rw [parse, tokenized, Fault.ok_bind, arranged, Fault.ok_bind,
    ← Program.names_of_ofTokens arranged, sameNames]
  rfl

end Expression

namespace Table

/-- The atoms of a formula that lists the program of lexemes are capital letters. -/
theorem named_of_ofTokens
    {tokens : List Token}
    {formula : Formula}
    (lexemes : ∀ token ∈ tokens, Token.Lexeme token)
    (arranged : Program.ofTokens tokens = .ok formula.program) :
    formula.Named := by
  intro name member
  have listed : name ∈ Token.names tokens := by
    rw [← Program.names_of_ofTokens arranged]
    exact Formula.mem_names_program.mpr member
  exact (lexemes _ (Token.mem_names.mp listed)).namesVariable rfl

/-- A table with a row that has a value lists a formula over capital letters. -/
theorem exists_lists_of_row
    {text : Text}
    {table : Table}
    {number : Row}
    {derivation : Derivation}
    (read : ofText text = .ok table)
    (evaluated : table.row number = .ok derivation) :
    ∃ formula : Formula, Lists table formula ∧ formula.Named := by
  obtain ⟨tokens, tokenized, arranged, names, _⟩ := ofText_eq_ok_iff.mp read
  obtain ⟨lexemes, _⟩ := Token.tokenize_eq_ok_iff_spells.mp tokenized
  obtain ⟨formula, isListing, _, _⟩ :=
    Program.exists_formula_of_evaluate evaluated
  rw [isListing] at arranged
  refine ⟨formula, ⟨isListing, ?_⟩, named_of_ofTokens lexemes arranged⟩
  rw [names, Program.names_of_ofTokens arranged]

/--
The last text in the trace of every row is read back with the same names and
the same program up to cancelled negation signs, and exactly the same program
if that has no neighbouring negation signs.
-/
theorem parse_last_text_of_rows
    {text : Text}
    {table : Table}
    {rows : List Derivation}
    (read : ofText text = .ok table)
    (tabulated : table.rows = .ok rows) :
    rows.length = 2 ^ table.names.length ∧
      ∀ derivation ∈ rows,
        ∃ last,
          derivation.trace.getLast? = some last ∧
            Expression.parse last.text =
              .ok
                ⟨Runs.cancel negationSign table.expression.program,
                  table.names⟩ ∧
            (¬ [negationSign, negationSign] <:+: table.expression.program →
              Expression.parse last.text = .ok table.expression) := by
  obtain ⟨length, fromRow⟩ := rows_spec tabulated
  refine ⟨length.trans (toNat_count_of_ofText read), ?_⟩
  intro derivation member
  obtain ⟨number, _, evaluated⟩ := fromRow derivation member
  obtain ⟨formula, lists, named⟩ := exists_lists_of_row read evaluated
  have isDerivation := lists.row_eq number
  rw [evaluated, Except.ok.injEq] at isDerivation
  have parsed :
      Expression.parse formula.print =
        .ok
          ⟨Runs.cancel negationSign table.expression.program,
            table.names⟩ := by
    rw [Expression.parse_print named, lists.program_eq, lists.names_eq,
      Formula.cancel_program]
  refine
    ⟨formula.toStep (number.assignment table.names).valuation, ?_, parsed, ?_⟩
  · rw [isDerivation]
    exact lists.getLast?_trace number
  · intro single
    rw [Runs.cancel_eq_self single] at parsed
    exact parsed

/-- Negation signs that a bracket keeps apart are cancelled when read back. -/
theorem parse_last_text_of_double_negation :
    ∃ table rows,
      ofText (Text.ascii "!(!A) -> B") = .ok table ∧
        table.rows = .ok rows ∧
        rows.length = 2 ^ table.names.length ∧
        ∀ derivation ∈ rows,
          ∃ last,
            derivation.trace.getLast? = some last ∧
              Expression.parse last.text =
                .ok
                  ⟨Runs.cancel negationSign table.expression.program,
                    table.names⟩ ∧
              (¬ [negationSign, negationSign] <:+: table.expression.program →
                Expression.parse last.text = .ok table.expression) := by
  have read :
      ofText (Text.ascii "!(!A) -> B") =
        .ok
          ⟨Text.ascii "!(!A) -> B",
            [Token.ofName (Text.ascii "A"), negationSign, negationSign,
              Token.ofName (Text.ascii "B"),
              Token.ofConnective (.binary .implication)],
            [Text.ascii "A", Text.ascii "B"]⟩ := by
    rfl
  exact ⟨_, _, read, rfl, parse_last_text_of_rows read rfl⟩

end Table

end Propositional
