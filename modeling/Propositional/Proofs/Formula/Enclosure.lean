import Propositional.Proofs.Brackets
import Propositional.Proofs.Formula.Context
import Propositional.Proofs.Token.Names

namespace Propositional

/-!
# Brackets in printed formulas

The brackets in the text of a formula are balanced, and every matching pair of
them stands around an operand whose precedence its place does not admit.
-/

open Brackets (Balanced)

/-- By how much a byte deepens the nesting of a text. -/
def Byte.turn (byte : Byte) : Int :=
  if byte = Byte.ofChar '(' then
    1
  else if byte = Byte.ofChar ')' then
    -1
  else
    0

/--
In a text stands a matching pair of round brackets around `inner`, with `front`
before it and `back` after it.
-/
abbrev Text.Encloses : (text front inner back : Text) → Prop :=
  Brackets.Encloses Byte.turn (Byte.ofChar '(') (Byte.ofChar ')')

/-- A text without brackets is balanced. -/
theorem Text.balanced_of_notMem
    {text : Text}
    (noOpening : Byte.ofChar '(' ∉ text)
    (noClosing : Byte.ofChar ')' ∉ text) :
    Balanced Byte.turn text := by
  apply Balanced.of_flat
  intro byte member
  have notOpening : byte ≠ Byte.ofChar '(' := by
    rintro rfl
    exact noOpening member
  have notClosing : byte ≠ Byte.ofChar ')' := by
    rintro rfl
    exact noClosing member
  rw [Byte.turn, if_neg notOpening, if_neg notClosing]

namespace Formula

/-- A capital letter is no bracket. -/
theorem notMem_name
    {name : Text}
    (names : Token.namesVariable name = true) :
    Byte.ofChar '(' ∉ name ∧ Byte.ofChar ')' ∉ name := by
  have catalogue :
      ∀ name ∈ Token.capitals,
        Byte.ofChar '(' ∉ name ∧ Byte.ofChar ')' ∉ name := by
    decide
  exact catalogue name (Token.mem_capitals names)

/-- The symbol of a connective between blanks has no brackets. -/
theorem notMem_spaced_symbol (connective : Connective) :
    Byte.ofChar '(' ∉
        Text.ascii " " ++ connective.symbol ++ Text.ascii " " ∧
      Byte.ofChar ')' ∉
        Text.ascii " " ++ connective.symbol ++ Text.ascii " " := by
  have catalogue :
      ∀ connective ∈ Connective.all,
        Byte.ofChar '(' ∉
            Text.ascii " " ++ connective.symbol ++ Text.ascii " " ∧
          Byte.ofChar ')' ∉
            Text.ascii " " ++ connective.symbol ++ Text.ascii " " := by
    decide
  exact catalogue connective connective.mem_all

theorem balanced_sign : Balanced Byte.turn Connective.negation.symbol :=
  Text.balanced_of_notMem (by decide) (by decide)

theorem balanced_delimit
    {text : Text}
    (balanced : Balanced Byte.turn text)
    (least precedence : Int) :
    Balanced Byte.turn (delimit least precedence text) := by
  unfold delimit
  split
  · exact balanced
  · exact balanced.group (by decide) (by decide)

/-- The text of a formula closes every bracket that it opens. -/
theorem balanced_print
    {formula : Formula}
    (named : formula.Named) :
    Balanced Byte.turn formula.print := by
  induction formula with
  | atom name =>
      obtain ⟨noOpening, noClosing⟩ :=
        notMem_name (named name (by simp [names]))
      exact Text.balanced_of_notMem noOpening noClosing
  | negation operand inductionHypothesis =>
      exact balanced_sign.append
        (balanced_delimit (inductionHypothesis named) _ _)
  | binary operation left right leftHypothesis rightHypothesis =>
      have leftBalanced :=
        balanced_delimit (leftHypothesis named.left)
          (leastLeft operation) left.precedence
      have rightBalanced :=
        balanced_delimit (rightHypothesis named.right)
          (leastRight operation) right.precedence
      obtain ⟨noOpening, noClosing⟩ :=
        notMem_spaced_symbol (.binary operation)
      have middle := Text.balanced_of_notMem noOpening noClosing
      have whole := (leftBalanced.append middle).append rightBalanced
      simpa [print] using whole

/--
Between `front` and `back`, and between its own brackets if it has any, the text
of a formula shows `inner` for the operand at a place.
-/
structure Places
    (formula : Formula)
    (around : Context)
    (operand : Formula)
    (front inner back : Text) : Prop where
  formula_eq :
    formula = around.plug operand
  front_eq :
    front = around.textBefore
  inner_eq :
    inner = operand.print
  back_eq :
    back = around.textAfter

/-- The place of an operand does not admit its precedence without brackets. -/
structure Delimits
    (formula : Formula)
    (around : Context)
    (operand : Formula)
    (front inner back : Text) : Prop
    extends Places formula around operand front inner back where
  notAdmitted :
    ¬ around.least ≤ operand.precedence

namespace Delimits

/-- An operand that its place does not admit stands in brackets. -/
theorem encloses
    {formula operand : Formula}
    {around : Context}
    {front inner back : Text}
    (named : formula.Named)
    (delimits : Delimits formula around operand front inner back) :
    Text.Encloses formula.print front inner back := by
  obtain ⟨⟨rfl, rfl, rfl, rfl⟩, notAdmitted⟩ := delimits
  obtain ⟨_, operandNamed⟩ := Context.named_of_plug named
  refine ⟨?_, balanced_print operandNamed⟩
  rw [around.print_plug, delimit, if_neg notAdmitted]
  simp [Text.ascii]

/--
A matching pair in the text of a formula at its place is the pair of the place,
or a pair inside.
-/
theorem of_delimit
    {formula : Formula}
    {context : Context}
    {front inner back : Text}
    (balanced : Balanced Byte.turn formula.print)
    (inside :
      ∀ {start rest : Text},
        Text.Encloses formula.print start inner rest →
          ∃ around operand,
            Delimits (context.plug formula) around operand
              (context.textBefore ++
                (leading context.least formula.precedence ++ start))
              inner
              (rest ++ trailing context.least formula.precedence ++
                context.textAfter))
    (encloses :
      Text.Encloses
        (delimit context.least formula.precedence formula.print)
        front inner back) :
    ∃ around operand,
      Delimits (context.plug formula) around operand
        (context.textBefore ++ front) inner (back ++ context.textAfter) := by
  by_cases admits : context.least ≤ formula.precedence
  · rw [delimit, if_pos admits] at encloses
    simpa [leading, trailing, admits] using inside encloses
  · rw [delimit, if_neg admits] at encloses
    rcases encloses.of_group balanced (by decide) (by decide) with
        ⟨rfl, rfl, rfl⟩ | ⟨start, rest, within, rfl, rfl⟩
    · exact
        ⟨context, formula, ⟨rfl, List.append_nil _, rfl, rfl⟩, admits⟩
    · have found := inside within
      simp only [leading, trailing, if_neg admits] at found
      exact found

/--
Every matching pair in the text of a formula at its place stands around an
operand.
-/
theorem exists_plug_of_encloses
    {formula : Formula}
    {context : Context}
    {start inner rest : Text}
    (named : formula.Named)
    (encloses : Text.Encloses formula.print start inner rest) :
    ∃ around operand,
      Delimits (context.plug formula) around operand
        (context.textBefore ++
          (leading context.least formula.precedence ++ start))
        inner
        (rest ++ trailing context.least formula.precedence ++
          context.textAfter) := by
  induction formula generalizing context start rest with
  | atom name =>
      obtain ⟨noOpening, _⟩ := notMem_name (named name (by simp [names]))
      exact absurd encloses.exists_opens noOpening
  | negation operand inductionHypothesis =>
      rcases encloses.of_append balanced_sign (by decide) with
          ⟨unread, inSign, _⟩ | ⟨later, inOperand, rfl⟩
      · exact absurd inSign.exists_opens (by decide)
      · have operandNamed : operand.Named := named
        have found :=
          @of_delimit operand (.negation :: context) later inner rest
            (balanced_print operandNamed)
            (inductionHypothesis operandNamed) inOperand
        simpa [Context.plug, Frame.plug, Context.textBefore,
          Frame.textBefore, Context.textAfter, Frame.textAfter,
          Frame.precedence, precedence] using found
  | binary operation left right leftHypothesis rightHypothesis =>
      have leftBalanced := balanced_print named.left
      have rightBalanced := balanced_print named.right
      obtain ⟨noOpening, noClosing⟩ :=
        notMem_spaced_symbol (.binary operation)
      have middle := Text.balanced_of_notMem noOpening noClosing
      have shape :
          (binary operation left right).print =
            delimit (leastLeft operation) left.precedence left.print ++
              ((Text.ascii " " ++ (Connective.binary operation).symbol ++
                  Text.ascii " ") ++
                delimit (leastRight operation) right.precedence
                  right.print) := by
        simp [print]
      rw [shape] at encloses
      rcases encloses.of_append
          (balanced_delimit leftBalanced _ _) (by decide) with
          ⟨later, inLeft, rfl⟩ | ⟨later, afterLeft, rfl⟩
      · have found :=
          @of_delimit left (.leftOf operation right :: context)
            start inner later leftBalanced (leftHypothesis named.left) inLeft
        simpa [Context.plug, Frame.plug, Context.textBefore,
          Frame.textBefore, Context.textAfter, Frame.textAfter,
          Frame.precedence, precedence] using found
      · rcases afterLeft.of_append middle (by decide) with
            ⟨unread, inMiddle, _⟩ | ⟨last, inRight, rfl⟩
        · exact absurd inMiddle.exists_opens noOpening
        · have found :=
            @of_delimit right (.rightOf operation left :: context)
              last inner rest rightBalanced (rightHypothesis named.right)
              inRight
          simpa [Context.plug, Frame.plug, Context.textBefore,
            Frame.textBefore, Context.textAfter, Frame.textAfter,
            Frame.precedence, precedence] using found

end Delimits

/--
The matching pairs of brackets in the text of a formula are those around the
operands whose places do not admit them without brackets.
-/
theorem encloses_print_iff
    {formula : Formula}
    {front inner back : Text}
    (named : formula.Named) :
    Text.Encloses formula.print front inner back ↔
      ∃ around operand,
        Delimits formula around operand front inner back := by
  constructor
  · intro encloses
    have found := @Delimits.exists_plug_of_encloses _ [] _ _ _ named encloses
    simpa [Context.plug, Context.textBefore, Context.textAfter, leading,
      trailing, Context.least_nil_le] using found
  · rintro ⟨around, operand, delimits⟩
    exact delimits.encloses named

end Formula

end Propositional
