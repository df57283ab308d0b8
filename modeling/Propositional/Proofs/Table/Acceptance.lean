import Propositional.Proofs.Arrangement.Acceptance
import Propositional.Proofs.Table.Rows

namespace Propositional

/-!
# Which texts have a table

A text has a table with a value in every row only if its program is the listing
of a formula.  That alone does not make the text well formed, because nothing
checks what may follow what: a connective finds its operands also where they
stand side by side.  This is the only way in which a text with a table can fail
to be derivable.
-/

namespace Table

open Formula (Derives)
open Token (Separated)

/-- A text whose table has a value in every row is arranged into a listing. -/
theorem exists_formula_of_rows
    {text : Text}
    {table : Table}
    {rows : List Derivation}
    (read : ofText text = .ok table)
    (tabulated : table.rows = .ok rows) :
    ∃ formula : Formula, table.expression.program = formula.program := by
  obtain ⟨length, fromRow⟩ := rows_spec tabulated
  rw [toNat_count_of_ofText read] at length
  have some : 0 < rows.length := by
    rw [length]
    exact Nat.two_pow_pos _
  obtain ⟨first, member⟩ := List.exists_mem_of_length_pos some
  obtain ⟨number, _, evaluated⟩ := fromRow first member
  obtain ⟨formula, isListing, _⟩ :=
    Program.exists_formula_of_evaluate evaluated
  exact ⟨formula, isListing⟩

/--
A text whose table has a value in every row is arranged into the listing of a
formula, and its tokens are derivable exactly if no operand ends right before
another one begins.
-/
theorem derivable_iff_separated
    {text : Text}
    {table : Table}
    {rows : List Derivation}
    (read : ofText text = .ok table)
    (tabulated : table.rows = .ok rows) :
    ∃ (tokens : List Token) (formula : Formula),
      Token.tokenize text = .ok tokens ∧
        table.expression.program = formula.program ∧
        ((∃ derived, Derives .equivalence tokens derived) ↔
          Separated tokens) := by
  obtain ⟨tokens, tokenized, arranged, _⟩ := ofText_eq_ok_iff.mp read
  obtain ⟨lexemes, _⟩ := Token.tokenize_eq_ok_iff_spells.mp tokenized
  obtain ⟨formula, isListing⟩ := exists_formula_of_rows read tabulated
  rw [isListing] at arranged
  exact ⟨tokens, formula, tokenized, isListing,
    Program.exists_derives_iff_separated lexemes arranged⟩

/-- Operands on the two sides of a connective, in brackets, stay apart. -/
theorem derivable_iff_separated_of_brackets :
    ∃ table rows,
      ofText (Text.ascii "!(A) & B") = .ok table ∧
        table.rows = .ok rows ∧
        ∃ (tokens : List Token) (formula : Formula),
          Token.tokenize (Text.ascii "!(A) & B") = .ok tokens ∧
            table.expression.program = formula.program ∧
            ((∃ derived, Derives .equivalence tokens derived) ↔
              Separated tokens) := by
  have read :
      ofText (Text.ascii "!(A) & B") =
        .ok
          ⟨Text.ascii "!(A) & B",
            [Token.ofName (Text.ascii "A"), Token.ofConnective .negation,
              Token.ofName (Text.ascii "B"),
              Token.ofConnective (.binary .conjunction)],
            [Text.ascii "A", Text.ascii "B"]⟩ := by
    rfl
  exact ⟨_, _, read, rfl, derivable_iff_separated read rfl⟩

/-- A connective behind both of its operands has a table but no derivation. -/
theorem exists_rows_of_trailing_connective :
    (∃ table rows,
      ofText (Text.ascii "AB&") = .ok table ∧ table.rows = .ok rows) ∧
      ∃ tokens,
        Token.tokenize (Text.ascii "AB&") = .ok tokens ∧
          ¬ ∃ formula, Derives .equivalence tokens formula := by
  refine ⟨⟨_, _, rfl, rfl⟩, _, rfl, ?_⟩
  rintro ⟨formula, derives⟩
  exact absurd derives.separated (by decide)

end Table

end Propositional
