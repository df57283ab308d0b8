import Mathlib.Logic.Relation
import Propositional.Proofs.Arrangement.DoubleNegation
import Propositional.Proofs.Brackets
import Propositional.Proofs.Formula.Reduction
import Propositional.Proofs.Table.Rows

namespace Propositional

/-!
# Values without a pair of negation signs

A pair of neighbouring negation signs in the listing of a formula negates one
operand twice.  The listing without the pair is again the listing of a formula,
with the same names and the same value in every row.  So cancelling negation
signs, one pair after the other, keeps the truth table of whatever has one.
-/

open Relation (ReflTransGen)
open Token (negationSign)

/-- The second list is the first one after pairs of a sign have been dropped. -/
abbrev Drops
    {α : Type}
    (sign : α) :
    List α → List α → Prop :=
  ReflTransGen (Exchanged [sign, sign] [])

namespace Runs

variable {α : Type} [DecidableEq α] {sign : α}

/-- A pair more is cancelled. -/
theorem cancel_eq_of_exchanged
    {first second : List α}
    (exchanged : Exchanged [sign, sign] [] first second) :
    cancel sign first = cancel sign second := by
  obtain ⟨front, back⟩ := exchanged
  rw [List.append_nil, List.append_assoc]
  exact cancel_append_congr (cancel_cons_cons sign back) front

/-- Cancelling drops one pair after the other. -/
theorem drops_cancel (items : List α) : Drops sign items (cancel sign items) := by
  induction items with
  | nil =>
      exact .refl
  | cons item items inductionHypothesis =>
      have dropped : Drops sign (item :: items) (item :: cancel sign items) :=
        inductionHypothesis.lift (item :: ·)
          fun _ _ exchanged => exchanged.cons item
      rw [cancel_cons]
      by_cases meets : item = sign ∧ (cancel sign items).head? = some sign
      · obtain ⟨rfl, starts⟩ := meets
        obtain ⟨tail, shape⟩ := List.head?_eq_some_iff.mp starts
        have last : Exchanged [item, item] [] (item :: item :: tail) tail :=
          .within [] tail
        simpa [prepend, shape] using (shape ▸ dropped).tail last
      · simpa [prepend, meets] using dropped

end Runs

namespace Formula

/-- A pair of signs in a listing ends it, or stands before its last token. -/
theorem operandsProgram_of_pair
    {formula : Formula}
    {front back : Program}
    (shape :
      formula.program = front ++ [negationSign, negationSign] ++ back) :
    (formula.operandsProgram = front ++ [negationSign] ∧
        formula.outermost = negationSign ∧ back = []) ∨
      ∃ rest,
        formula.operandsProgram =
            front ++ [negationSign, negationSign] ++ rest ∧
          back = rest ++ [formula.outermost] := by
  have ends :
      formula.operandsProgram ++ [formula.outermost] =
        (front ++ [negationSign]) ++ negationSign :: back := by
    rw [← program_eq_operandsProgram_append, shape]
    simp
  rcases Brackets.append_singleton_cases ends with
      atEnd | ⟨rest, inOperands, isBack⟩
  · exact .inl atEnd
  · exact .inr ⟨rest, by simpa using inOperands, isBack⟩

/-- A listing that ends in a sign is that of a negation. -/
theorem exists_program_of_sign
    {formula : Formula}
    {front : Program}
    (shape : formula.program = front ++ [negationSign]) :
    ∃ operand : Formula, front = operand.program := by
  rw [program_eq_operandsProgram_append] at shape
  obtain ⟨isFront, isSign⟩ := List.append_inj' shape rfl
  cases formula with
  | atom name =>
      cases isSign
  | negation operand =>
      exact ⟨operand, isFront.symm⟩
  | binary operation left right =>
      exact absurd (List.singleton_inj.mp isSign)
        (ofBinary_ne_negationSign operation)

/-- A pair of signs does not reach from one listing into the next. -/
theorem pair_cases_of_append_program
    {formula : Formula}
    {items front back : Program}
    (shape :
      items ++ formula.program =
        front ++ [negationSign, negationSign] ++ back) :
    (∃ middle,
        items = front ++ [negationSign, negationSign] ++ middle ∧
          back = middle ++ formula.program) ∨
      ∃ middle,
        front = items ++ middle ∧
          formula.program =
            middle ++ [negationSign, negationSign] ++ back := by
  obtain ⟨name, rest, starts⟩ := formula.exists_program_eq_cons
  have different := ofName_ne_negationSign name
  rw [List.append_assoc] at shape
  rcases List.append_eq_append_iff.mp shape with
      ⟨middle, isFront, inFormula⟩ | ⟨middle, isItems, atPair⟩
  · exact .inr ⟨middle, isFront, by simpa using inFormula⟩
  · match middle with
    | [] =>
        simp [starts, different.symm] at atPair
    | [sign] =>
        simp [starts, different.symm] at atPair
    | first :: second :: middle =>
        simp only [List.cons_append, List.nil_append, List.cons.injEq]
          at atPair
        obtain ⟨rfl, rfl, isBack⟩ := atPair
        exact .inl ⟨middle, by simpa using isItems, isBack⟩

/-- A listing without one of its pairs of negation signs is a listing again. -/
theorem exists_program_of_pair
    {formula : Formula}
    {front back : Program}
    (shape :
      formula.program = front ++ [negationSign, negationSign] ++ back) :
    ∃ other : Formula, front ++ back = other.program := by
  induction formula generalizing front back with
  | atom name =>
      rcases operandsProgram_of_pair shape with
          ⟨isEmpty, _, _⟩ | ⟨rest, isEmpty, _⟩ <;>
        simp [operandsProgram] at isEmpty
  | negation operand inductionHypothesis =>
      rcases operandsProgram_of_pair shape with
          ⟨inOperand, _, rfl⟩ | ⟨rest, inOperand, rfl⟩
      · obtain ⟨inner, isListing⟩ := exists_program_of_sign inOperand
        exact ⟨inner, by simpa using isListing⟩
      · obtain ⟨other, isListing⟩ := inductionHypothesis inOperand
        refine ⟨.negation other, ?_⟩
        rw [← List.append_assoc, isListing]
        rfl
  | binary operation left right leftHypothesis rightHypothesis =>
      rcases operandsProgram_of_pair shape with
          ⟨_, isSign, _⟩ | ⟨rest, inOperands, rfl⟩
      · exact absurd isSign (ofBinary_ne_negationSign operation)
      · rcases pair_cases_of_append_program inOperands with
            ⟨middle, inLeft, rfl⟩ | ⟨middle, rfl, inRight⟩
        · obtain ⟨other, isListing⟩ := leftHypothesis inLeft
          refine ⟨.binary operation other right, ?_⟩
          rw [← List.append_assoc, ← List.append_assoc, isListing]
          rfl
        · obtain ⟨other, isListing⟩ := rightHypothesis inRight
          refine ⟨.binary operation left other, ?_⟩
          rw [List.append_assoc, ← List.append_assoc middle, isListing,
            ← List.append_assoc]
          rfl

/-- A listing without some of its pairs lists a formula with the same reduced form. -/
theorem exists_program_of_drops
    {formula : Formula}
    {program : Program}
    (drops : Drops negationSign formula.program program) :
    ∃ other : Formula,
      program = other.program ∧ other.reduce = formula.reduce := by
  induction drops with
  | refl =>
      exact ⟨formula, rfl, rfl⟩
  | tail _ exchanged inductionHypothesis =>
      obtain ⟨middle, rfl, sameMiddle⟩ := inductionHypothesis
      have sameCancelled := Runs.cancel_eq_of_exchanged exchanged
      generalize isListing : middle.program = listing at exchanged
      obtain ⟨front, back⟩ := exchanged
      obtain ⟨other, isOther⟩ := exists_program_of_pair isListing
      simp only [List.append_nil] at isOther sameCancelled ⊢
      rw [isOther, cancel_program, cancel_program] at sameCancelled
      exact ⟨other, isOther,
        (program_injective sameCancelled).symm.trans sameMiddle⟩

end Formula

namespace Program

/-- Evaluate a program in a row of its own variables. -/
def row (program : Program) (number : Row) : Except Fault Derivation :=
  program.evaluate (number.assignment (Token.names program))

/--
The second program has the names of the first, and in every row in which the
first one has a value the second has one, too, and their traces end with the
same value.
-/
structure KeepsValues (first second : Program) : Prop where
  names_eq :
    Token.names second = Token.names first
  row :
    ∀ {number : Row} {derivation : Derivation},
      first.row number = .ok derivation →
        ∃ other last otherLast,
          second.row number = .ok other ∧
            derivation.trace.getLast? = some last ∧
            other.trace.getLast? = some otherLast ∧
            otherLast.value = last.value

/-- The trace of a listing in a row of its variables ends with its formula. -/
theorem exists_row_program
    (formula : Formula)
    (number : Row) :
    ∃ derivation,
      row formula.program number = .ok derivation ∧
        derivation.trace.getLast? =
          some
            (formula.toStep
              (number.assignment (Token.names formula.program)).valuation) := by
  have lists :
      Table.Lists
        ⟨[], formula.program, Token.names formula.program⟩ formula :=
    ⟨rfl, rfl⟩
  exact ⟨_, lists.row_eq number, lists.getLast?_trace number⟩

/-- Negation signs are no variables. -/
theorem names_eq_of_drops
    {first second : Program}
    (drops : Drops negationSign first second) :
    Token.names second = Token.names first := by
  induction drops with
  | refl =>
      rfl
  | tail _ exchanged inductionHypothesis =>
      obtain ⟨front, back⟩ := exchanged
      refine Eq.trans (Token.names_congr ?_) inductionHypothesis
      simp [Token.ofConnective]

/-- Dropping pairs of negation signs keeps the values of a program. -/
theorem KeepsValues.of_drops
    {first second : Program}
    (drops : Drops negationSign first second) :
    KeepsValues first second where
  names_eq :=
    names_eq_of_drops drops
  row := by
    intro number derivation evaluated
    have sameNames := names_eq_of_drops drops
    obtain ⟨formula, rfl, _⟩ := exists_formula_of_evaluate evaluated
    obtain ⟨other, rfl, same⟩ := Formula.exists_program_of_drops drops
    obtain ⟨whole, wholeEvaluated, wholeLast⟩ :=
      exists_row_program formula number
    obtain ⟨rest, restEvaluated, restLast⟩ := exists_row_program other number
    obtain rfl : derivation = whole :=
      Except.ok.inj (evaluated.symm.trans wholeEvaluated)
    refine ⟨rest, _, _, restEvaluated, wholeLast, restLast, ?_⟩
    simp only [sameNames, Formula.toStep]
    exact Formula.eval_eq_of_reduce_eq same _

/-- Dropping pairs from a token list that has a program drops pairs from the program. -/
theorem exists_ofTokens_of_drops
    {first second : List Token}
    {program : Program}
    (drops : Drops negationSign first second)
    (arranged : ofTokens first = .ok program) :
    ∃ other,
      ofTokens second = .ok other ∧ Drops negationSign program other := by
  induction drops with
  | refl =>
      exact ⟨program, arranged, .refl⟩
  | tail _ exchanged inductionHypothesis =>
      obtain ⟨middle, middleArranged, dropped⟩ := inductionHypothesis
      have agree := ofTokens_pair exchanged
      rw [middleArranged] at agree
      obtain ⟨other, otherArranged, programs⟩ := agree.exists_ok
      exact ⟨other, otherArranged, dropped.tail programs⟩

/-- A text that can be read with its negation signs keeps its values without pairs. -/
theorem exists_parse_of_scan
    {text : Text}
    {tokens : List Token}
    {program : Program}
    (scanned : Token.scan 0 0 (Text.withoutBlanks text) = .ok tokens)
    (arranged : ofTokens tokens = .ok program) :
    ∃ expression,
      Expression.parse text = .ok expression ∧
        expression.names = Token.names expression.program ∧
        KeepsValues program expression.program := by
  obtain ⟨lexemes, spelled⟩ := Token.flatMap_text_of_scan scanned
  have tokenized := Token.tokenize_of_spells lexemes spelled.symm
  obtain ⟨other, otherArranged, drops⟩ :=
    exists_ofTokens_of_drops (Runs.drops_cancel tokens) arranged
  refine
    ⟨⟨other, Token.names (Runs.cancel negationSign tokens)⟩, ?_, ?_,
      .of_drops drops⟩
  · simp only [Expression.parse, tokenized, Fault.ok_bind, otherArranged]
    rfl
  · exact (names_of_ofTokens otherArranged).symm

/--
A token list with two neighbouring negation signs and the list without them have
the same fault, or programs of which the first has two neighbouring signs more;
the second program then keeps the values of the first.  So cancelling the signs
of a text keeps the truth table of whatever can be read without that.
-/
theorem ofTokens_without_pair (before after : List Token) :
    ((∃ fault,
        ofTokens (before ++ [negationSign, negationSign] ++ after) =
            .error fault ∧
          ofTokens (before ++ after) = .error fault) ∨
      ∃ front back,
        ofTokens (before ++ [negationSign, negationSign] ++ after) =
            .ok (front ++ [negationSign, negationSign] ++ back) ∧
          ofTokens (before ++ after) = .ok (front ++ back) ∧
          KeepsValues
            (front ++ [negationSign, negationSign] ++ back)
            (front ++ back)) ∧
      ∀ text tokens program,
        Token.scan 0 0 (Text.withoutBlanks text) = .ok tokens →
          ofTokens tokens = .ok program →
            ∃ expression,
              Expression.parse text = .ok expression ∧
                expression.names = Token.names expression.program ∧
                KeepsValues program expression.program := by
  constructor
  · have tokens :=
      @Exchanged.within _ [negationSign, negationSign] [] before after
    rw [List.append_nil] at tokens
    rcases (ofTokens_pair tokens).error_or_ok with
        ⟨fault, firstFails, secondFails⟩ |
          ⟨_, _, firstReads, secondReads, exchanged⟩
    · exact .inl ⟨fault, firstFails, secondFails⟩
    · have keeps := KeepsValues.of_drops (ReflTransGen.single exchanged)
      obtain ⟨front, back⟩ := exchanged
      rw [List.append_nil] at secondReads keeps
      exact .inr ⟨front, back, firstReads, secondReads, keeps⟩
  · intro text tokens program
    exact exists_parse_of_scan

/-- A pair of negation signs before a bracket is dropped from an operand. -/
theorem ofTokens_without_pair_of_group :
    ∃ front back expression,
      ofTokens
            ([Token.ofName (Text.ascii "A"),
                Token.ofConnective (.binary .conjunction)] ++
              [negationSign, negationSign] ++
              Token.grouped [Token.ofName (Text.ascii "B")]) =
          .ok (front ++ [negationSign, negationSign] ++ back) ∧
        ofTokens
            ([Token.ofName (Text.ascii "A"),
                Token.ofConnective (.binary .conjunction)] ++
              Token.grouped [Token.ofName (Text.ascii "B")]) =
          .ok (front ++ back) ∧
        KeepsValues
          (front ++ [negationSign, negationSign] ++ back)
          (front ++ back) ∧
        Expression.parse (Text.ascii "A & !!(B)") = .ok expression ∧
        expression.names = Token.names expression.program ∧
        KeepsValues
          (front ++ [negationSign, negationSign] ++ back)
          expression.program := by
  obtain ⟨law, texts⟩ :=
    ofTokens_without_pair
      [Token.ofName (Text.ascii "A"),
        Token.ofConnective (.binary .conjunction)]
      (Token.grouped [Token.ofName (Text.ascii "B")])
  rcases law with ⟨fault, fails, _⟩ | ⟨front, back, reads, rest, keeps⟩
  · cases fails
  · obtain ⟨expression, parsed, names, values⟩ :=
      texts (Text.ascii "A & !!(B)") _ _ rfl reads
    exact
      ⟨front, back, expression, reads, rest, keeps, parsed, names, values⟩

end Program

end Propositional
