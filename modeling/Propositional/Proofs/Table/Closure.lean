import Propositional.Proofs.Evaluation.Outcome
import Propositional.Proofs.Table.Rows

namespace Propositional

/-!
# What a table can rely on

A formula that has been read is closed: its program consists of variables and
connectives, and its names are exactly those of these variables, at most one for
each capital letter.  So every row has a value for every variable, no row number
overflows, no shift reaches the width of a word, and a row fails only by leaving
a connective without its operands or an operand without a connective.
-/

namespace Expression

/-- The names are those of the program, in order and few, and the program is all instructions. -/
structure Closed (expression : Expression) : Prop where
  /-- The names ascend strictly. -/
  ascending :
    expression.names.Pairwise (· < ·)
  /-- Every name is one capital letter. -/
  capital :
    ∀ name ∈ expression.names,
      ∃ byte, name = [byte] ∧ Byte.isUpper byte = true
  /-- The names are those of the variables in the program. -/
  mem_names_iff :
    ∀ name, name ∈ expression.names ↔ Token.ofName name ∈ expression.program
  /-- The program consists of variables and connectives. -/
  instruction :
    ∀ token ∈ expression.program,
      (∃ name ∈ expression.names, token = Token.ofName name) ∨
        ∃ connective, token = Token.ofConnective connective
  /-- There is at most one name for each capital letter. -/
  few :
    expression.names.length ≤ 26

namespace Closed

/-- What has been read is closed. -/
theorem of_parse
    {text : Text}
    {expression : Expression}
    (parsed : parse text = .ok expression) :
    expression.Closed := by
  have read : Table.ofText text = .ok ⟨text, expression⟩ := by
    rw [Table.ofText, parsed]
    rfl
  obtain ⟨tokens, tokenized, arranged, names, _⟩ :=
    Table.ofText_eq_ok_iff.mp read
  obtain ⟨lexemes, _⟩ := Token.tokenize_eq_ok_iff_spells.mp tokenized
  have sameNames : expression.names = Token.names expression.program :=
    Eq.trans names (Program.names_of_ofTokens arranged).symm
  have instructions := Program.perm_of_ofTokens arranged
  have listed :
      ∀ name, name ∈ expression.names ↔
        Token.ofName name ∈ expression.program := by
    intro name
    rw [sameNames]
    exact Token.mem_names
  refine ⟨?_, ?_, listed, ?_, ?_⟩
  · rw [sameNames]
    exact Token.names_pairwise _
  · intro name member
    have inTokens : Token.ofName name ∈ tokens :=
      (List.mem_filter.mp
        (instructions.mem_iff.mp ((listed name).mp member))).1
    have lexeme := lexemes _ inTokens
    exact Token.namesVariable_iff.mp (lexeme.namesVariable rfl)
  · intro token member
    obtain ⟨inTokens, noBracket⟩ :=
      List.mem_filter.mp (instructions.mem_iff.mp member)
    cases lexemes token inTokens with
    | letter capital =>
        exact .inl ⟨_, (listed _).mpr member, rfl⟩
    | symbol connective =>
        exact .inr ⟨connective, rfl⟩
    | opening | closing =>
        exact absurd noBracket (by decide)
  · have counted := Token.length_names_le lexemes
    rw [← names] at counted
    exact counted

/-- A row of a closed expression fails only by the number of its operands. -/
theorem kind_of_evaluate
    {expression : Expression}
    {fault : Fault}
    (closed : expression.Closed)
    (number : Row)
    (failed :
      expression.program.evaluate (number.assignment expression.names) =
        .error fault) :
    fault.kind = .insufficientOperands ∨ fault.kind = .malformedResult := by
  rcases Program.evaluate_eq_error_iff.mp failed with
      first | ⟨_, _, rfl⟩
  · obtain ⟨before, token, member, refuses⟩ := first.exists_mem
    refine .inl (refuses.kind_eq ?_)
    rcases closed.instruction token member with
        ⟨name, listed, isName⟩ | isSymbol
    · exact .inl ⟨name, isName, number.value?_isSome listed⟩
    · exact .inr isSymbol
  · exact .inr rfl

end Closed

end Expression

namespace Row

/-- By how many places a row is shifted for the value of each name. -/
def shifts : List Text → List Nat
  | [] =>
      []
  | _ :: rest =>
      rest.length :: shifts rest

/-- The value of a name is the lowest bit of the row after its shift. -/
theorem assignment_eq_zipWith
    (row : Row)
    (names : List Text) :
    row.assignment names =
      List.zipWith
        (fun name shift => (name, (row >>> UInt64.ofNat shift) &&& 1 == 1))
        names (shifts names) := by
  induction names with
  | nil =>
      rfl
  | cons name rest inductionHypothesis =>
      rw [assignment, inductionHypothesis, shifts, List.zipWith_cons_cons]

/-- Every shift is by fewer places than there are names. -/
theorem lt_length_of_mem_shifts
    {names : List Text}
    {shift : Nat}
    (member : shift ∈ shifts names) :
    shift < names.length := by
  induction names with
  | nil =>
      cases member
  | cons name rest inductionHypothesis =>
      rw [List.length_cons]
      rcases List.mem_cons.mp member with isFirst | inRest
      · omega
      · have below := inductionHypothesis inRest
        omega

end Row

namespace Expression

/--
What has been read is closed.  There are two to the number of names rows, at most
two to the twenty-sixth, and all shifts, that of the row count and those of a
row's values, are below the width of a word.  A row has no fault but operands
that are missing or left over.
-/
theorem closed_of_parse
    {text : Text}
    {expression : Expression}
    (parsed : parse text = .ok expression) :
    expression.Closed ∧
      (Row.count expression.names).toNat = 2 ^ expression.names.length ∧
      (Row.count expression.names).toNat ≤ 2 ^ 26 ∧
      (∀ shift ∈ expression.names.length :: Row.shifts expression.names,
        shift < 64) ∧
      ∀ number : Row,
        number.assignment expression.names =
            List.zipWith
              (fun name shift =>
                (name, (number >>> UInt64.ofNat shift) &&& 1 == 1))
              expression.names (Row.shifts expression.names) ∧
          ∀ fault,
            expression.program.evaluate
                (number.assignment expression.names) =
              .error fault →
            fault.kind = .insufficientOperands ∨
              fault.kind = .malformedResult := by
  have closed := Closed.of_parse parsed
  have few := closed.few
  have counted : (Row.count expression.names).toNat = 2 ^ expression.names.length :=
    Row.toNat_count (Nat.lt_of_le_of_lt few (by decide))
  refine ⟨closed, counted, ?_, ?_, ?_⟩
  · rw [counted]
    exact Nat.pow_le_pow_right (by decide) few
  · intro shift member
    rcases List.mem_cons.mp member with isCount | ofValue
    · omega
    · have below := Row.lt_length_of_mem_shifts ofValue
      omega
  · intro number
    exact
      ⟨number.assignment_eq_zipWith expression.names,
        fun _ failed => closed.kind_of_evaluate number failed⟩

/-- A connective without its operands is the fault of every row. -/
theorem closed_of_parse_of_missing_operand :
    ∃ expression,
      parse (Text.ascii "B & !(A ->)") = .ok expression ∧
        expression.Closed ∧
        (Row.count expression.names).toNat = 2 ^ expression.names.length ∧
        (Row.count expression.names).toNat ≤ 2 ^ 26 ∧
        (∀ shift ∈ expression.names.length :: Row.shifts expression.names,
          shift < 64) ∧
        ∀ number : Row,
          number.assignment expression.names =
              List.zipWith
                (fun name shift =>
                  (name, (number >>> UInt64.ofNat shift) &&& 1 == 1))
                expression.names (Row.shifts expression.names) ∧
            ∀ fault,
              expression.program.evaluate
                  (number.assignment expression.names) =
                .error fault →
              fault.kind = .insufficientOperands ∨
                fault.kind = .malformedResult := by
  have parsed :
      parse (Text.ascii "B & !(A ->)") =
        .ok
          ⟨[Token.ofName (Text.ascii "B"), Token.ofName (Text.ascii "A"),
              Token.ofConnective (.binary .implication),
              Token.ofConnective .negation,
              Token.ofConnective (.binary .conjunction)],
            [Text.ascii "A", Text.ascii "B"]⟩ := by
    rfl
  exact ⟨_, parsed, closed_of_parse parsed⟩

end Expression

end Propositional
