import Propositional.Proofs.Brackets
import Propositional.Proofs.Formula.Context
import Propositional.Proofs.Formula.Placement

namespace Propositional

/-!
# Taking brackets away

A token list that derives a formula without brackets around one of its operands
derives that operand at the level of its place: the symbols around the operand
leave no other way to divide the list.  So brackets that a place asks for can be
taken away without changing the formula only around an implication that is the
right operand of an implication.
-/

open Brackets (Balanced)
open Token (negationSign withoutBrackets)

namespace Formula

/-- The symbols of a formula in infix order, without brackets. -/
def symbols : Formula → List Token
  | .atom name =>
      [Token.ofName name]
  | .negation operand =>
      negationSign :: operand.symbols
  | .binary operation left right =>
      left.symbols ++ Token.ofConnective (.binary operation) :: right.symbols

/-- The tokens are the symbols of a formula in balanced brackets. -/
structure Spans (tokens : List Token) (formula : Formula) : Prop where
  balanced :
    Balanced Token.turn tokens
  symbols_eq :
    withoutBrackets tokens = formula.symbols

namespace Spans

variable {tokens : List Token} {operand formula : Formula}

theorem atom (name : Text) : Spans [Token.ofName name] (.atom name) where
  balanced :=
    Balanced.nil.cons rfl
  symbols_eq :=
    rfl

theorem negation
    (spans : Spans tokens operand) :
    Spans (negationSign :: tokens) (.negation operand) where
  balanced :=
    spans.balanced.cons rfl
  symbols_eq :=
    congrArg (List.cons negationSign) spans.symbols_eq

theorem group
    (spans : Spans tokens formula) :
    Spans (Token.opening :: tokens ++ [Token.closing]) formula where
  balanced :=
    spans.balanced.group rfl rfl
  symbols_eq := by
    rw [← spans.symbols_eq]
    simp [withoutBrackets, Token.isBracket, Token.opening, Token.closing]

theorem binary
    {operation : Binary}
    {leftTokens rightTokens : List Token}
    {left right : Formula}
    (leftSpans : Spans leftTokens left)
    (rightSpans : Spans rightTokens right) :
    Spans
      (leftTokens ++ Token.ofConnective (.binary operation) :: rightTokens)
      (.binary operation left right) where
  balanced :=
    leftSpans.balanced.append (rightSpans.balanced.cons rfl)
  symbols_eq := by
    rw [symbols, ← leftSpans.symbols_eq, ← rightSpans.symbols_eq]
    simp [withoutBrackets, Token.isBracket, Token.ofConnective]

/-- Whatever brackets a derivable list has, it spans the formula. -/
theorem of_derives
    {level : Level}
    (derives : Derives level tokens formula) :
    Spans tokens formula := by
  induction derives using Derives.induction_levels with
  | @atom name _ =>
      exact atom name
  | negation _ operandSpans =>
      exact operandSpans.negation
  | group _ innerSpans =>
      exact innerSpans.group
  | loosen _ _ tokensSpan =>
      exact tokensSpan
  | binary operation _ _ leftSpans rightSpans =>
      exact leftSpans.binary rightSpans

/-- The brackets of a place change nothing about the symbols. -/
theorem delimit
    (spans : Spans tokens formula)
    (least precedence : Int) :
    Spans
      (leadingTokens least precedence ++ tokens ++
        trailingTokens least precedence)
      formula := by
  unfold leadingTokens trailingTokens
  by_cases admits : least ≤ precedence
  · simpa [admits] using spans
  · simpa [admits] using spans.group

end Spans

/--
Lists that agree where an item stands in both agree on both sides of it, if the
parts before it have as many of the items kept.
-/
theorem eq_of_append_cons_eq
    {α : Type}
    {keep : α → Bool}
    {first second rest other : List α}
    {item : α}
    (kept : keep item = true)
    (whole : first ++ item :: rest = second ++ item :: other)
    (same : (first.filter keep).length = (second.filter keep).length) :
    first = second ∧ rest = other := by
  rcases List.append_eq_append_iff.mp whole with
      ⟨middle, rfl, after⟩ | ⟨middle, rfl, after⟩
  · rcases List.cons_eq_append_iff.mp after with
        ⟨rfl, atItem⟩ | ⟨later, rfl, _⟩
    · exact ⟨(List.append_nil _).symm, (List.cons.inj atItem).2.symm⟩
    · simp [kept] at same
  · rcases List.cons_eq_append_iff.mp after with
        ⟨rfl, atItem⟩ | ⟨later, rfl, _⟩
    · exact ⟨List.append_nil _, (List.cons.inj atItem).2⟩
    · simp [kept] at same

namespace Derives

variable {asked : Level} {tokens : List Token} {operand formula : Formula}

/-- A list in brackets derives what the list derives. -/
theorem of_group
    (derives :
      Derives asked (Token.opening :: tokens ++ [Token.closing]) formula)
    (balanced : Balanced Token.turn tokens) :
    Derives .equivalence tokens formula := by
  generalize whole : Token.opening :: tokens ++ [Token.closing] = list
    at derives
  induction derives using induction_levels with
  | atom _ =>
      simp [Token.opening, Token.ofName] at whole
  | negation _ _ =>
      simp [Token.opening, Token.ofConnective] at whole
  | group innerDerives _ =>
      obtain ⟨_, sameEnd⟩ := List.cons.inj whole
      rw [(List.append_inj' sameEnd rfl).1]
      exact innerDerives
  | loosen _ _ inductionHypothesis =>
      exact inductionHypothesis whole
  | binary operation leftDerives _ _ _ =>
      have leftBalanced := (Spans.of_derives leftDerives).balanced
      exact absurd whole
        (Brackets.group_ne_append_cons balanced leftBalanced rfl rfl rfl)

/-- A list that starts with a sign and derives a negation derives its operand behind it. -/
theorem of_negation
    (derives : Derives asked (negationSign :: tokens) (.negation operand)) :
    Derives .factor tokens operand := by
  generalize whole : negationSign :: tokens = list at derives
  generalize isNegation : Formula.negation operand = formula at derives
  induction derives using induction_levels with
  | atom _ =>
      cases isNegation
  | negation operandDerives _ =>
      obtain ⟨_, rfl⟩ := List.cons.inj whole
      cases isNegation
      exact operandDerives
  | group _ _ =>
      simp [Token.opening, Token.ofConnective] at whole
  | loosen _ _ inductionHypothesis =>
      exact inductionHypothesis whole isNegation
  | binary operation _ _ _ _ =>
      cases isNegation

/--
A list that derives a binary formula is divided by the connective that has the
symbols of the left operand before it, if the tokens before it are balanced.
-/
theorem of_binary
    {operation : Binary}
    {leftTokens rightTokens : List Token}
    {left right : Formula}
    (derives :
      Derives asked
        (leftTokens ++ Token.ofConnective (.binary operation) :: rightTokens)
        (.binary operation left right))
    (leftSpans : Spans leftTokens left) :
    asked.precedence ≤ operation.level.precedence ∧
      Derives operation.leftLevel leftTokens left ∧
      Derives operation.rightLevel rightTokens right := by
  generalize whole :
    leftTokens ++ Token.ofConnective (.binary operation) :: rightTokens = list
    at derives
  generalize isBinary : Formula.binary operation left right = formula
    at derives
  induction derives using induction_levels with
  | atom _ =>
      cases isBinary
  | negation _ _ =>
      cases isBinary
  | group innerDerives _ =>
      have innerBalanced := (Spans.of_derives innerDerives).balanced
      exact absurd whole.symm
        (Brackets.group_ne_append_cons innerBalanced leftSpans.balanced
          rfl rfl rfl)
  | loosen order _ inductionHypothesis =>
      obtain ⟨tight, parts⟩ := inductionHypothesis whole isBinary
      exact ⟨Int.le_trans order tight, parts⟩
  | binary other leftDerives rightDerives _ _ =>
      cases isBinary
      have sameSymbols :=
        leftSpans.symbols_eq.trans
          (Spans.of_derives leftDerives).symbols_eq.symm
      obtain ⟨rfl, rfl⟩ :=
        eq_of_append_cons_eq (by rfl) whole (congrArg List.length sameSymbols)
      exact ⟨Int.le_refl _, leftDerives, rightDerives⟩

end Derives

/-- The tokens of a formula derive it at no level tighter than its own. -/
theorem le_level_of_derives_tokens
    {formula : Formula}
    {asked : Level}
    (named : formula.Named)
    (derives : Derives asked formula.tokens formula) :
    asked.precedence ≤ formula.level.precedence := by
  cases formula with
  | atom name =>
      exact asked.le_factor
  | negation operand =>
      exact asked.le_factor
  | binary operation left right =>
      have leftSpans :=
        Spans.of_derives (derives_leftOperand named.left operation)
      exact (derives.of_binary leftSpans).1

/--
Only an implication on the right of an implication is derived there and still
not admitted without brackets.
-/
theorem eq_implication_of_rightLevel
    {outer inner : Binary}
    (derivable : outer.rightLevel.precedence ≤ inner.level.precedence)
    (notAdmitted : ¬ leastRight outer ≤ inner.level.precedence) :
    outer = .implication ∧ inner = .implication := by
  revert derivable notAdmitted
  cases outer <;> cases inner <;> decide

namespace Frame

variable {frame : Frame} {asked : Level} {tokens : List Token} {operand : Formula}

/-- The tokens of a frame around those of its operand span the formula. -/
theorem spans_plug
    (named : frame.Named)
    (spans : Spans tokens operand) :
    Spans
      (frame.tokensBefore ++ tokens ++ frame.tokensAfter)
      (frame.plug operand) := by
  cases frame with
  | negation =>
      simpa [tokensBefore, tokensAfter, plug] using spans.negation
  | leftOf operation right =>
      exact spans.binary
        (Spans.of_derives (derives_rightOperand named operation))
  | rightOf operation left =>
      have leftSpans :=
        Spans.of_derives (derives_leftOperand named operation)
      simpa [tokensBefore, tokensAfter, plug] using leftSpans.binary spans

/-- What derives a formula derives its operand at the level of the frame. -/
theorem derives_of_plug
    (named : frame.Named)
    (spans : Spans tokens operand)
    (derives :
      Derives asked
        (frame.tokensBefore ++ tokens ++ frame.tokensAfter)
        (frame.plug operand)) :
    Derives frame.level tokens operand := by
  cases frame with
  | negation =>
      simp only [tokensBefore, tokensAfter, List.append_nil] at derives
      exact derives.of_negation
  | leftOf operation right =>
      obtain ⟨_, operandDerives, _⟩ := derives.of_binary spans
      exact operandDerives
  | rightOf operation left =>
      have leftSpans :=
        Spans.of_derives (derives_leftOperand named operation)
      simp only [tokensBefore, tokensAfter, List.append_nil,
        List.append_assoc, List.singleton_append] at derives
      obtain ⟨_, _, operandDerives⟩ := derives.of_binary leftSpans
      exact operandDerives

/-- What derives the operand at the level of the frame derives the formula. -/
theorem derives_plug
    (named : frame.Named)
    (derives : Derives frame.level tokens operand) :
    Derives (frame.plug operand).level
      (frame.tokensBefore ++ tokens ++ frame.tokensAfter)
      (frame.plug operand) := by
  cases frame with
  | negation =>
      simpa [tokensBefore, tokensAfter, plug, Formula.level] using
        derives.negation
  | leftOf operation right =>
      exact derives.binary (derives_rightOperand named operation)
  | rightOf operation left =>
      simpa [tokensBefore, tokensAfter, plug, Formula.level] using
        (derives_leftOperand named operation).binary derives

/-- In place of the operand any derivable list can stand. -/
theorem exists_derives
    (named : frame.Named)
    (derives : Derives .equivalence tokens operand) :
    ∃ whole,
      Derives .equivalence
        (frame.tokensBefore ++ tokens ++ frame.tokensAfter) whole := by
  cases frame with
  | negation =>
      simpa [tokensBefore, tokensAfter] using
        Awaits.nil.negation.exists_derives derives
  | leftOf operation right =>
      simpa [tokensBefore, tokensAfter] using
        (Awaits.binary derives operation).exists_derives
          (derives_rightOperand named operation)
  | rightOf operation left =>
      have leftDerives :=
        (derives_leftOperand named operation).loosen
          operation.leftLevel.equivalence_le
      simpa [tokensBefore, tokensAfter] using
        (Awaits.binary leftDerives operation).exists_derives derives

/--
Only the right operand of an implication is put in brackets at the level at
which it is derived.
-/
theorem eq_rightOf_implication
    {operation : Binary}
    (derivable : frame.level.precedence ≤ operation.level.precedence)
    (notAdmitted :
      ¬ frame.least ≤ (Connective.binary operation).precedence) :
    operation = .implication ∧ ∃ left, frame = .rightOf .implication left := by
  rw [operation.precedence_level] at notAdmitted
  cases frame with
  | negation =>
      exact absurd derivable notAdmitted
  | leftOf outer right =>
      have same : leastLeft outer = outer.leftLevel.precedence := by
        cases outer <;> rfl
      exact absurd (same.trans_le derivable) notAdmitted
  | rightOf outer left =>
      obtain ⟨rfl, rfl⟩ :=
        eq_implication_of_rightLevel derivable notAdmitted
      exact ⟨rfl, left, rfl⟩

end Frame

namespace Context

variable {context : Context} {tokens : List Token} {operand : Formula}

/-- An operand that stands without brackets is derived at the level of its place. -/
theorem level_le_least (context : Context) :
    context.level.precedence ≤ context.least ∧
      context.least ≤ Level.factor.precedence := by
  cases context with
  | nil =>
      exact ⟨Int.le_refl _, Level.factor.equivalence_le⟩
  | cons frame outer =>
      exact frame.level_le_least

/-- What derives a formula derives its operand at the level of its place. -/
theorem derives_of_plug
    (named : context.Named)
    (spans : Spans tokens operand)
    (derives :
      Derives .equivalence
        (context.tokensBefore ++ tokens ++ context.tokensAfter)
        (context.plug operand)) :
    Derives context.level tokens operand := by
  induction context generalizing tokens operand with
  | nil =>
      simpa [tokensBefore, tokensAfter, plug, level] using derives
  | cons frame outer inductionHypothesis =>
      obtain ⟨frameNamed, outerNamed⟩ := List.forall_mem_cons.mp named
      have around := Frame.spans_plug frameNamed spans
      have delimited :=
        inductionHypothesis outerNamed
          (around.delimit (least outer) frame.precedence)
          (by simpa [tokensBefore, tokensAfter, plug] using derives)
      by_cases admits : least outer ≤ frame.precedence
      · simp only [leadingTokens, trailingTokens, if_pos admits,
          List.nil_append, List.append_nil] at delimited
        exact Frame.derives_of_plug frameNamed spans delimited
      · simp only [leadingTokens, trailingTokens, if_neg admits] at delimited
        exact Frame.derives_of_plug frameNamed spans
          (Derives.of_group delimited around.balanced)

/-- What derives the operand at the level of its place derives the formula. -/
theorem derives_plug
    (named : context.Named)
    (derives : Derives context.level tokens operand) :
    Derives .equivalence
      (context.tokensBefore ++ tokens ++ context.tokensAfter)
      (context.plug operand) := by
  induction context generalizing tokens operand with
  | nil =>
      simpa [tokensBefore, tokensAfter, plug, level] using derives
  | cons frame outer inductionHypothesis =>
      obtain ⟨frameNamed, outerNamed⟩ := List.forall_mem_cons.mp named
      obtain ⟨order, place⟩ := level_le_least outer
      have delimited :=
        derives_delimitTokens (Frame.derives_plug frameNamed derives)
          order place
      rw [delimitTokens_eq, frame.precedence_plug] at delimited
      simpa [tokensBefore, tokensAfter, plug] using
        inductionHypothesis outerNamed delimited

/-- In place of the operand any derivable list can stand. -/
theorem exists_derives
    (named : context.Named)
    (derives : Derives .equivalence tokens operand) :
    ∃ whole,
      Derives .equivalence
        (context.tokensBefore ++ tokens ++ context.tokensAfter) whole := by
  induction context generalizing tokens operand with
  | nil =>
      exact ⟨operand, by simpa [tokensBefore, tokensAfter] using derives⟩
  | cons frame outer inductionHypothesis =>
      obtain ⟨frameNamed, outerNamed⟩ := List.forall_mem_cons.mp named
      obtain ⟨middle, around⟩ := Frame.exists_derives frameNamed derives
      have delimited :
          Derives .equivalence
            (delimitTokens (least outer) frame.precedence
              (frame.tokensBefore ++ tokens ++ frame.tokensAfter))
            middle := by
        unfold delimitTokens
        split
        · exact around
        · exact around.group.loosen Level.factor.equivalence_le
      rw [delimitTokens_eq] at delimited
      simpa [tokensBefore, tokensAfter] using
        inductionHypothesis outerNamed delimited

/--
Without brackets that its place asks for, an operand is read in its place only
if it is an implication on the right of an implication.
-/
theorem derives_plug_iff
    (named : (context.plug operand).Named)
    (notAdmitted : ¬ context.least ≤ operand.precedence) :
    Derives .equivalence
        (context.tokensBefore ++ operand.tokens ++ context.tokensAfter)
        (context.plug operand) ↔
      ∃ left outer antecedent consequent,
        context = .rightOf .implication left :: outer ∧
          operand = .binary .implication antecedent consequent := by
  obtain ⟨contextNamed, operandNamed⟩ := named_of_plug named
  have operandDerives := derives_tokens operandNamed
  constructor
  · intro derives
    have tight :=
      le_level_of_derives_tokens operandNamed
        (derives_of_plug contextNamed (Spans.of_derives operandDerives)
          derives)
    cases context with
    | nil =>
        exact absurd (least_nil_le operand) notAdmitted
    | cons frame outer =>
        obtain ⟨_, place⟩ := frame.level_le_least
        cases operand with
        | atom name =>
            have bound : Level.factor.precedence ≤ atomicPrecedence := by
              decide
            exact absurd (Int.le_trans place bound) notAdmitted
        | negation inner =>
            exact absurd place notAdmitted
        | binary operation first second =>
            obtain ⟨rfl, left, rfl⟩ :=
              Frame.eq_rightOf_implication tight notAdmitted
            exact ⟨left, outer, first, second, rfl, rfl⟩
  · rintro ⟨left, outer, antecedent, consequent, rfl, rfl⟩
    exact derives_plug contextNamed operandDerives

end Context

end Formula

end Propositional
