import Propositional.Proofs.Table.RoundTrip

namespace Propositional

/-!
# One text for each formula

Reading a printed formula back cancels its negation signs, so it does not tell
formulas apart that differ in these.  The text alone does: the grammar is
unambiguous, and the tokens of a printed formula derive it as they stand.  So
two tables show the same last text exactly if they tabulate the same program.
-/

namespace Formula

/-- A token list derives at most one formula. -/
theorem Derives.unique
    {tokens : List Token}
    {firstLevel secondLevel : Level}
    {first second : Formula}
    (firstDerives : Derives firstLevel tokens first)
    (secondDerives : Derives secondLevel tokens second) :
    first = second := by
  have firstArranged :=
    Program.ofTokens_of_reads (Arrangement.reads_of_derives firstDerives)
  have secondArranged :=
    Program.ofTokens_of_reads (Arrangement.reads_of_derives secondDerives)
  exact program_injective
    (Except.ok.inj (firstArranged.symm.trans secondArranged))

/-- Different formulas over capital letters are printed differently. -/
theorem print_injective
    {first second : Formula}
    (firstNamed : first.Named)
    (secondNamed : second.Named)
    (same : first.print = second.print) :
    first = second := by
  have sameSpelling :
      first.tokens.flatMap Token.text = second.tokens.flatMap Token.text := by
    rw [← withoutBlanks_print firstNamed, ← withoutBlanks_print secondNamed,
      same]
  have sameTokens : first.tokens = second.tokens :=
    Token.eq_of_flatMap_text_eq (lexemes_tokens firstNamed)
      (lexemes_tokens secondNamed) sameSpelling
  have firstDerives := derives_tokens firstNamed
  rw [sameTokens] at firstDerives
  exact firstDerives.unique (derives_tokens secondNamed)

end Formula

namespace Table

/-- The trace of every row ends with the text of the formula that is tabulated. -/
theorem exists_last_of_mem_rows
    {text : Text}
    {table : Table}
    {rows : List Derivation}
    {derivation : Derivation}
    (read : ofText text = .ok table)
    (tabulated : table.rows = .ok rows)
    (member : derivation ∈ rows) :
    ∃ (formula : Formula) (last : Step),
      Lists table formula ∧
        formula.Named ∧
        derivation.trace.getLast? = some last ∧
        last.text = formula.print := by
  obtain ⟨number, _, evaluated⟩ := (rows_spec tabulated).2 derivation member
  obtain ⟨formula, lists, named⟩ := exists_lists_of_row read evaluated
  rw [lists.row_eq number, Except.ok.injEq] at evaluated
  refine
    ⟨formula, formula.toStep (number.assignment table.names).valuation,
      lists, named, ?_, rfl⟩
  rw [← evaluated]
  exact lists.getLast?_trace number

/--
The last texts of any two tables, in whatever rows, are the same exactly if the
tables tabulate the same program, also if negation signs stand side by side in
it.
-/
theorem last_text_eq_iff_program_eq
    {firstText secondText : Text}
    {first second : Table}
    {firstRows secondRows : List Derivation}
    (firstRead : ofText firstText = .ok first)
    (firstTabulated : first.rows = .ok firstRows)
    (secondRead : ofText secondText = .ok second)
    (secondTabulated : second.rows = .ok secondRows) :
    firstRows.length = 2 ^ first.names.length ∧
      secondRows.length = 2 ^ second.names.length ∧
      ∀ firstDerivation ∈ firstRows,
        ∀ secondDerivation ∈ secondRows,
          ∃ firstLast secondLast,
            firstDerivation.trace.getLast? = some firstLast ∧
              secondDerivation.trace.getLast? = some secondLast ∧
              (firstLast.text = secondLast.text ↔
                first.expression.program = second.expression.program) := by
  refine
    ⟨(rows_spec firstTabulated).1.trans (toNat_count_of_ofText firstRead),
      (rows_spec secondTabulated).1.trans (toNat_count_of_ofText secondRead),
      ?_⟩
  intro firstDerivation firstMember secondDerivation secondMember
  obtain ⟨firstFormula, firstLast, firstLists, firstNamed, isFirst, firstShown⟩ :=
    exists_last_of_mem_rows firstRead firstTabulated firstMember
  obtain
      ⟨secondFormula, secondLast, secondLists, secondNamed, isSecond,
        secondShown⟩ :=
    exists_last_of_mem_rows secondRead secondTabulated secondMember
  refine ⟨firstLast, secondLast, isFirst, isSecond, ?_⟩
  rw [firstShown, secondShown, firstLists.program_eq, secondLists.program_eq]
  constructor
  · intro sameText
    rw [Formula.print_injective firstNamed secondNamed sameText]
  · intro sameProgram
    rw [Formula.program_injective sameProgram]

/-- Two signs that reading back would cancel are still told apart from none. -/
theorem last_text_eq_iff_program_eq_of_double_negation :
    ∃ first second firstRows secondRows,
      ofText (Text.ascii "!(!A) & B") = .ok first ∧
        first.rows = .ok firstRows ∧
        ofText (Text.ascii "A & B") = .ok second ∧
        second.rows = .ok secondRows ∧
        firstRows.length = 2 ^ first.names.length ∧
        secondRows.length = 2 ^ second.names.length ∧
        ∀ firstDerivation ∈ firstRows,
          ∀ secondDerivation ∈ secondRows,
            ∃ firstLast secondLast,
              firstDerivation.trace.getLast? = some firstLast ∧
                secondDerivation.trace.getLast? = some secondLast ∧
                (firstLast.text = secondLast.text ↔
                  first.expression.program = second.expression.program) := by
  have firstRead :
      ofText (Text.ascii "!(!A) & B") =
        .ok
          ⟨Text.ascii "!(!A) & B",
            [Token.ofName (Text.ascii "A"), Token.negationSign,
              Token.negationSign, Token.ofName (Text.ascii "B"),
              Token.ofConnective (.binary .conjunction)],
            [Text.ascii "A", Text.ascii "B"]⟩ := by
    rfl
  have secondRead :
      ofText (Text.ascii "A & B") =
        .ok
          ⟨Text.ascii "A & B",
            [Token.ofName (Text.ascii "A"), Token.ofName (Text.ascii "B"),
              Token.ofConnective (.binary .conjunction)],
            [Text.ascii "A", Text.ascii "B"]⟩ := by
    rfl
  exact ⟨_, _, _, _, firstRead, rfl, secondRead, rfl,
    last_text_eq_iff_program_eq firstRead rfl secondRead rfl⟩

end Table

end Propositional
