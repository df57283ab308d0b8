import Propositional.Proofs.Formula.Enclosure
import Propositional.Proofs.Formula.Regrouping
import Propositional.Proofs.Table.Acceptance
import Propositional.Proofs.Table.RoundTrip

namespace Propositional

/-!
# Brackets that are needed

A table shows its formula with few brackets.  Without one of its pairs the text
is still read, but as another program, because the symbols regroup or because
two negation signs meet and cancel.  The only pairs that could be left out stand
around an implication on the right of an implication, and the text has a pair
around every such implication.
-/

open Formula (Context Derives Places Delimits)
open Token (negationSign)

namespace Formula

/--
Between `front` and `back` the text of a formula shows an implication that is
the right operand of an implication.
-/
def NestsImplication (formula : Formula) (front inner back : Text) : Prop :=
  ∃ left outer antecedent consequent,
    Places formula
      (.rightOf .implication left :: outer)
      (.binary .implication antecedent consequent)
      front inner back

/-- An implication is not admitted without brackets on the right of one. -/
theorem NestsImplication.exists_delimits
    {formula : Formula}
    {front inner back : Text}
    (nests : formula.NestsImplication front inner back) :
    ∃ left outer antecedent consequent,
      Delimits formula
        (.rightOf .implication left :: outer)
        (.binary .implication antecedent consequent)
        front inner back := by
  obtain ⟨left, outer, antecedent, consequent, places⟩ := nests
  have looser :
      ¬ leastRight .implication ≤
        (Connective.binary .implication).precedence := by
    decide
  exact ⟨left, outer, antecedent, consequent, places, looser⟩

/-- A derivable list has as many tokens of every connective as the listing. -/
theorem Derives.count_ofConnective
    {formula : Formula}
    {level : Level}
    {tokens : List Token}
    (derives : Derives level tokens formula)
    (connective : Connective) :
    formula.program.count (Token.ofConnective connective) =
      tokens.count (Token.ofConnective connective) := by
  have arranged :=
    Program.ofTokens_of_reads (Arrangement.reads_of_derives derives)
  exact Program.count_ofConnective_of_ofTokens arranged connective

/--
No signs cancel in a list that derives a formula whose program has no
neighbouring signs.
-/
theorem Derives.cancel_eq_self
    {formula : Formula}
    {level : Level}
    {tokens : List Token}
    (derives : Derives level tokens formula)
    (single : ¬ [negationSign, negationSign] <:+: formula.program) :
    Runs.cancel negationSign tokens = tokens := by
  obtain ⟨cancelled, cancelledDerives, sameReduced⟩ := derives.exists_cancel
  have programCancelled :
      Runs.cancel negationSign cancelled.program = formula.program := by
    rw [cancel_program, sameReduced, ← cancel_program,
      Runs.cancel_eq_self single]
  have sublist := Runs.cancel_sublist negationSign cancelled.program
  rw [programCancelled] at sublist
  apply Runs.cancel_eq_self_of_count
  apply Nat.le_antisymm
  · exact (Runs.cancel_sublist negationSign tokens).count_le negationSign
  · calc
      tokens.count negationSign = formula.program.count negationSign :=
          (derives.count_ofConnective .negation).symm
      _ ≤ cancelled.program.count negationSign :=
          sublist.count_le negationSign
      _ = (Runs.cancel negationSign tokens).count negationSign :=
          cancelledDerives.count_ofConnective .negation

end Formula

namespace Expression

/--
A text spells a derivable list that has as many signs as a formula without
neighbouring signs.  Then it is read as the program of the formula exactly if
the list derives the formula.
-/
theorem parse_program_iff_derives
    {formula derived : Formula}
    {tokens : List Token}
    {text : Text}
    (single : ¬ [negationSign, negationSign] <:+: formula.program)
    (derives : Derives .equivalence tokens derived)
    (sameSigns :
      formula.program.count negationSign = tokens.count negationSign)
    (spells : Text.withoutBlanks text = tokens.flatMap Token.text) :
    ∃ expression,
      parse text = .ok expression ∧
        (expression.program = formula.program ↔
          Derives .equivalence tokens formula) := by
  have tokenized := Token.tokenize_of_spells derives.lexemes spells
  obtain ⟨cancelled, cancelledDerives, _⟩ := derives.exists_cancel
  have arranged :=
    Program.ofTokens_of_reads (Arrangement.reads_of_derives cancelledDerives)
  have parsed :
      parse text =
        .ok
          ⟨cancelled.program,
            Token.names (Runs.cancel negationSign tokens)⟩ := by
    rw [parse, tokenized, Fault.ok_bind, arranged]
    rfl
  refine ⟨_, parsed, ?_, ?_⟩
  · intro (sameProgram : cancelled.program = formula.program)
    have noneLost : Runs.cancel negationSign tokens = tokens := by
      apply Runs.cancel_eq_self_of_count
      rw [← cancelledDerives.count_ofConnective, sameProgram, sameSigns]
    rw [noneLost, Formula.program_injective sameProgram] at cancelledDerives
    exact cancelledDerives
  · intro formulaDerives
    rw [formulaDerives.cancel_eq_self single] at arranged
    have formulaArranged :=
      Program.ofTokens_of_reads (Arrangement.reads_of_derives formulaDerives)
    exact Except.ok.inj (arranged.symm.trans formulaArranged)

/--
The text of a formula without neighbouring signs is read also without a pair of
its brackets.  It is read as the same program exactly if the operand in these
brackets is an implication on the right of an implication.
-/
theorem parse_without_group
    {formula operand : Formula}
    {around : Context}
    {front inner back : Text}
    (named : formula.Named)
    (single : ¬ [negationSign, negationSign] <:+: formula.program)
    (delimits : Delimits formula around operand front inner back) :
    ∃ expression,
      parse (front ++ inner ++ back) = .ok expression ∧
        (expression.program = formula.program ↔
          ∃ left outer antecedent consequent,
            around = .rightOf .implication left :: outer ∧
              operand = .binary .implication antecedent consequent) := by
  obtain ⟨⟨rfl, rfl, rfl, rfl⟩, notAdmitted⟩ := delimits
  obtain ⟨aroundNamed, operandNamed⟩ := Context.named_of_plug named
  rw [← Context.derives_plug_iff named notAdmitted]
  have operandDerives := Formula.derives_tokens operandNamed
  obtain ⟨whole, wholeDerives⟩ :=
    Context.exists_derives aroundNamed
      (operandDerives.loosen operand.level.equivalence_le)
  apply parse_program_iff_derives single wholeDerives
  · rw [(Formula.derives_tokens named).count_ofConnective,
      around.tokens_plug, Formula.delimitTokens, if_neg notAdmitted]
    simp [Token.opening, Token.closing, Token.ofConnective]
  · simp [Text.withoutBlanks_append, Formula.withoutBlanks_print operandNamed,
      Context.withoutBlanks_textBefore aroundNamed,
      Context.withoutBlanks_textAfter aroundNamed]

/--
Taking a matching pair of brackets out of the text of a formula changes the
program that is read, except around nested implications.
-/
theorem parse_without_brackets_of_encloses
    {formula : Formula}
    {front inner back : Text}
    (named : formula.Named)
    (single : ¬ [negationSign, negationSign] <:+: formula.program)
    (encloses : Text.Encloses formula.print front inner back) :
    ∃ expression,
      parse (front ++ inner ++ back) = .ok expression ∧
        (expression.program = formula.program ↔
          formula.NestsImplication front inner back) := by
  obtain ⟨around, operand, delimits⟩ :=
    (Formula.encloses_print_iff named).mp encloses
  obtain ⟨expression, parsed, same⟩ :=
    parse_without_group named single delimits
  refine ⟨expression, parsed, ?_, ?_⟩
  · intro sameProgram
    obtain ⟨left, outer, antecedent, consequent, rfl, rfl⟩ :=
      same.mp sameProgram
    exact ⟨left, outer, antecedent, consequent, delimits.toPlaces⟩
  · intro nests
    obtain ⟨left, outer, antecedent, consequent, nestsDelimits⟩ :=
      nests.exists_delimits
    obtain ⟨nested, nestedParsed, nestedSame⟩ :=
      parse_without_group named single nestsDelimits
    obtain rfl : expression = nested :=
      Except.ok.inj (parsed.symm.trans nestedParsed)
    exact nestedSame.mpr ⟨left, outer, antecedent, consequent, rfl, rfl⟩

end Expression

namespace Table

/--
The last text in the trace of every row shows the formula that was read.  If the
program has no neighbouring negation signs, then the text without any one of its
matching pairs of brackets is read, and it is read as the same program exactly
if the pair stands around an implication that is the right operand of an
implication.  Every such implication stands in brackets.
-/
theorem parse_without_brackets
    {text : Text}
    {table : Table}
    {rows : List Derivation}
    (read : ofText text = .ok table)
    (tabulated : table.rows = .ok rows)
    (single :
      ¬ [negationSign, negationSign] <:+: table.expression.program) :
    rows.length = 2 ^ table.names.length ∧
      ∃ formula : Formula,
        table.expression.program = formula.program ∧
          ∀ derivation ∈ rows,
            ∃ last,
              derivation.trace.getLast? = some last ∧
                last.text = formula.print ∧
                (∀ front inner back,
                  Text.Encloses last.text front inner back →
                    ∃ expression,
                      Expression.parse (front ++ inner ++ back) =
                          .ok expression ∧
                        (expression.program = table.expression.program ↔
                          formula.NestsImplication front inner back)) ∧
                ∀ front inner back,
                  formula.NestsImplication front inner back →
                    Text.Encloses last.text front inner back := by
  obtain ⟨length, fromRow⟩ := rows_spec tabulated
  obtain ⟨formula, isListing⟩ := exists_formula_of_rows read tabulated
  refine
    ⟨length.trans (toNat_count_of_ofText read), formula, isListing, ?_⟩
  intro derivation member
  obtain ⟨number, _, evaluated⟩ := fromRow derivation member
  obtain ⟨listed, lists, named⟩ := exists_lists_of_row read evaluated
  obtain rfl : formula = listed :=
    Formula.program_injective (isListing.symm.trans lists.program_eq)
  have isDerivation := lists.row_eq number
  rw [evaluated, Except.ok.injEq] at isDerivation
  rw [isListing] at single ⊢
  refine
    ⟨formula.toStep (number.assignment table.names).valuation, ?_, rfl, ?_, ?_⟩
  · rw [isDerivation]
    exact lists.getLast?_trace number
  · intro front inner back encloses
    exact Expression.parse_without_brackets_of_encloses named single encloses
  · intro front inner back nests
    obtain ⟨left, outer, antecedent, consequent, delimits⟩ :=
      nests.exists_delimits
    exact delimits.encloses named

/-- Two signs that meet cancel, and only the brackets of `(B -> A)` can be left out. -/
theorem parse_without_brackets_of_nested_implication :
    ∃ table rows,
      ofText (Text.ascii "!(!A & B) -> (B -> A)") = .ok table ∧
        table.rows = .ok rows ∧
        ¬ [negationSign, negationSign] <:+: table.expression.program ∧
        rows.length = 2 ^ table.names.length ∧
        ∃ formula : Formula,
          table.expression.program = formula.program ∧
            ∀ derivation ∈ rows,
              ∃ last,
                derivation.trace.getLast? = some last ∧
                  last.text = formula.print ∧
                  (∀ front inner back,
                    Text.Encloses last.text front inner back →
                      ∃ expression,
                        Expression.parse (front ++ inner ++ back) =
                            .ok expression ∧
                          (expression.program = table.expression.program ↔
                            formula.NestsImplication front inner back)) ∧
                  ∀ front inner back,
                    formula.NestsImplication front inner back →
                      Text.Encloses last.text front inner back := by
  have read :
      ofText (Text.ascii "!(!A & B) -> (B -> A)") =
        .ok
          ⟨Text.ascii "!(!A & B) -> (B -> A)",
            [Token.ofName (Text.ascii "A"), negationSign,
              Token.ofName (Text.ascii "B"),
              Token.ofConnective (.binary .conjunction), negationSign,
              Token.ofName (Text.ascii "B"), Token.ofName (Text.ascii "A"),
              Token.ofConnective (.binary .implication),
              Token.ofConnective (.binary .implication)],
            [Text.ascii "A", Text.ascii "B"]⟩ := by
    rfl
  have single :
      ¬ [negationSign, negationSign] <:+:
        [Token.ofName (Text.ascii "A"), negationSign,
          Token.ofName (Text.ascii "B"),
          Token.ofConnective (.binary .conjunction), negationSign,
          Token.ofName (Text.ascii "B"), Token.ofName (Text.ascii "A"),
          Token.ofConnective (.binary .implication),
          Token.ofConnective (.binary .implication)] := by
    decide
  exact ⟨_, _, read, rfl, single, parse_without_brackets read rfl single⟩

end Table

end Propositional
