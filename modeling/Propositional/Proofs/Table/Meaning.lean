import Propositional.Proofs.Arrangement.Grammar
import Propositional.Proofs.Formula.Reduction
import Propositional.Proofs.Table.Rows

namespace Propositional

/-!
# What a table means

Every text that spells a derivable token list, with blanks anywhere and with
negation signs in any number, has a table with a value in every row.  It is the
value of the formula as it was derived, although the table is made from a token
list in which the negation signs have been cancelled.
-/

namespace Table

open Formula (Derives)

/-- A table that lists a reduced form of a formula has the value of the formula. -/
theorem value?_of_lists
    {table : Table}
    {formula listed : Formula}
    (lists : Lists table listed)
    (same : listed.reduce = formula.reduce)
    (number : Row) :
    formula.value? (number.assignment table.names) =
      some
        (listed.toStep
          (number.assignment table.names).valuation).value := by
  have covered : formula.Covered (number.assignment table.names) := by
    intro name member
    rw [← Formula.names_eq_of_reduce_eq same] at member
    exact lists.covered number name member
  rw [Formula.value?_eq_eval covered,
    ← Formula.eval_eq_of_reduce_eq same]
  rfl

/-- A text that spells a derivable token list is read as a formula with one reduced form. -/
theorem exists_lists_of_derives
    {text : Text}
    {tokens : List Token}
    {formula : Formula}
    (derives : Derives .equivalence tokens formula)
    (spells : Text.withoutBlanks text = tokens.flatMap Token.text) :
    ∃ table listed,
      ofText text = .ok table ∧
        table.names.length ≤ 26 ∧
        Lists table listed ∧
        listed.reduce = formula.reduce := by
  obtain ⟨listed, listedDerives, same⟩ := derives.exists_cancel
  have tokenized := Token.tokenize_of_spells derives.lexemes spells
  have arranged :=
    Program.ofTokens_of_reads (Arrangement.reads_of_derives listedDerives)
  have few := Token.length_names_le listedDerives.lexemes
  refine ⟨⟨text, listed.program, Token.names _⟩, listed, ?_, few, ?_, same⟩
  · rw [ofText_eq_ok_iff]
    exact ⟨_, tokenized, arranged, rfl, rfl⟩
  · exact ⟨rfl, (Program.names_of_ofTokens arranged).symm⟩

/--
A text that spells a derivable token list once its blanks are removed can be
read, and every row of its table has a value: the value that the truth tables
give the derived formula under the assignment of the row.
-/
theorem row_value_of_derives
    {text : Text}
    {tokens : List Token}
    {formula : Formula}
    (derives : Derives .equivalence tokens formula)
    (spells : Text.withoutBlanks text = tokens.flatMap Token.text) :
    ∃ table,
      ofText text = .ok table ∧
        (Row.count table.names).toNat = 2 ^ table.names.length ∧
        ∀ number < Row.count table.names,
          ∃ derivation last,
            table.row number = .ok derivation ∧
              derivation.trace.getLast? = some last ∧
              formula.value? (number.assignment table.names) =
                some last.value := by
  obtain ⟨table, listed, read, few, lists, same⟩ :=
    exists_lists_of_derives derives spells
  refine ⟨table, read, Row.toNat_count (Nat.lt_of_le_of_lt few (by decide)), ?_⟩
  intro number _
  exact
    ⟨listed.derivation (number.assignment table.names),
      listed.toStep (number.assignment table.names).valuation,
      lists.row_eq number,
      lists.getLast?_trace number,
      value?_of_lists lists same number⟩

/-- Blanks inside a symbol and a run of negation signs do not change the value. -/
theorem row_value_of_three_negations :
    Derives .equivalence
        [Token.negationSign, Token.negationSign, Token.negationSign,
          Token.ofName (Text.ascii "A"),
          Token.ofConnective (.binary .implication),
          Token.ofName (Text.ascii "B")]
        (.binary .implication
          (.negation (.negation (.negation (.atom (Text.ascii "A")))))
          (.atom (Text.ascii "B"))) ∧
      Text.withoutBlanks (Text.ascii "! !!A - > B") =
        [Token.negationSign, Token.negationSign, Token.negationSign,
          Token.ofName (Text.ascii "A"),
          Token.ofConnective (.binary .implication),
          Token.ofName (Text.ascii "B")].flatMap Token.text ∧
      ∃ table,
        ofText (Text.ascii "! !!A - > B") = .ok table ∧
          (Row.count table.names).toNat = 4 ∧
          ∀ entry ∈ [((0 : Row), false), (1, true), (2, true), (3, true)],
            ∃ derivation last,
              table.row entry.1 = .ok derivation ∧
                derivation.trace.getLast? = some last ∧
                last.value = entry.2 := by
  have first : Derives .factor [Token.ofName (Text.ascii "A")] _ :=
    .atom rfl
  have second : Derives .factor [Token.ofName (Text.ascii "B")] _ :=
    .atom rfl
  have left := first.negation.negation.negation.ofFactor.ofConjunction
  have right := second.ofFactor.ofConjunction.ofDisjunction
  have derives := (left.implication right).ofImplication
  have spells :
      Text.withoutBlanks (Text.ascii "! !!A - > B") =
        [Token.negationSign, Token.negationSign, Token.negationSign,
          Token.ofName (Text.ascii "A"),
          Token.ofConnective (.binary .implication),
          Token.ofName (Text.ascii "B")].flatMap Token.text := by
    rfl
  obtain ⟨table, read, counted, valued⟩ :=
    row_value_of_derives derives spells
  have names : table.names = [Text.ascii "A", Text.ascii "B"] := by
    cases read
    rfl
  rw [names] at counted valued
  refine ⟨derives, spells, table, read, names ▸ counted, ?_⟩
  have valuedAs :
      ∀ {number : Row} {value : Bool},
        number < Row.count [Text.ascii "A", Text.ascii "B"] →
          Formula.value? (number.assignment [Text.ascii "A", Text.ascii "B"])
              (.binary .implication
                (.negation (.negation (.negation (.atom (Text.ascii "A")))))
                (.atom (Text.ascii "B"))) =
            some value →
          ∃ derivation last,
            table.row number = .ok derivation ∧
              derivation.trace.getLast? = some last ∧
              last.value = value := by
    intro number value below isValue
    obtain ⟨derivation, last, evaluated, isLast, same⟩ := valued number below
    rw [isValue, Option.some.injEq] at same
    exact ⟨derivation, last, evaluated, isLast, same.symm⟩
  simp only [List.forall_mem_cons]
  exact
    ⟨valuedAs (by decide) rfl, valuedAs (by decide) rfl,
      valuedAs (by decide) rfl, valuedAs (by decide) rfl, by simp⟩

end Table

end Propositional
