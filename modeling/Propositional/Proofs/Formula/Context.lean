import Propositional.Proofs.Formula.Printing

namespace Propositional.Formula

/-!
# Places in a formula

A context says where an operand stands in a formula: under which connectives, on
which side, and beside which other operands.  The text around the operand, and
the tokens around it, depend on the context alone; only the brackets of the
operand itself depend on the operand.
-/

open Text (withoutBlanks withoutBlanks_append)
open Token (negationSign)

/-- One connective around an operand, with its other operand if there is one. -/
inductive Frame where
  | negation
  | leftOf (operation : Binary) (right : Formula)
  | rightOf (operation : Binary) (left : Formula)
  deriving Repr, DecidableEq

namespace Frame

/-- The formula that a frame makes of an operand. -/
def plug : Frame → Formula → Formula
  | .negation, operand =>
      .negation operand
  | .leftOf operation right, operand =>
      .binary operation operand right
  | .rightOf operation left, operand =>
      .binary operation left operand

/-- The precedence of the connective of a frame. -/
def precedence : Frame → Int
  | .negation =>
      Connective.negation.precedence
  | .leftOf operation _ | .rightOf operation _ =>
      (Connective.binary operation).precedence

/-- The least precedence of an operand that stands without brackets. -/
def least : Frame → Int
  | .negation =>
      Connective.negation.precedence
  | .leftOf operation _ =>
      leastLeft operation
  | .rightOf operation _ =>
      leastRight operation

/-- The level at which an operand is derived. -/
def level : Frame → Level
  | .negation =>
      .factor
  | .leftOf operation _ =>
      operation.leftLevel
  | .rightOf operation _ =>
      operation.rightLevel

/-- The text of a frame before its operand. -/
def textBefore : Frame → Text
  | .negation =>
      Connective.negation.symbol
  | .leftOf _ _ =>
      []
  | .rightOf operation left =>
      delimit (leastLeft operation) left.precedence left.print ++
        Text.ascii " " ++ (Connective.binary operation).symbol ++
          Text.ascii " "

/-- The text of a frame after its operand. -/
def textAfter : Frame → Text
  | .leftOf operation right =>
      Text.ascii " " ++ (Connective.binary operation).symbol ++
        Text.ascii " " ++
          delimit (leastRight operation) right.precedence right.print
  | .negation | .rightOf _ _ =>
      []

/-- The tokens of a frame before its operand. -/
def tokensBefore : Frame → List Token
  | .negation =>
      [negationSign]
  | .leftOf _ _ =>
      []
  | .rightOf operation left =>
      delimitTokens (leastLeft operation) left.precedence left.tokens ++
        [Token.ofConnective (.binary operation)]

/-- The tokens of a frame after its operand. -/
def tokensAfter : Frame → List Token
  | .leftOf operation right =>
      Token.ofConnective (.binary operation) ::
        delimitTokens (leastRight operation) right.precedence right.tokens
  | .negation | .rightOf _ _ =>
      []

/-- The other operand of a frame has capital letters for its atoms. -/
def Named : Frame → Prop
  | .negation =>
      True
  | .leftOf _ other | .rightOf _ other =>
      other.Named

variable (frame : Frame) (operand : Formula)

theorem precedence_plug :
    (frame.plug operand).precedence = frame.precedence := by
  cases frame <;> rfl

theorem print_plug :
    (frame.plug operand).print =
      frame.textBefore ++
        delimit frame.least operand.precedence operand.print ++
          frame.textAfter := by
  cases frame with
  | negation =>
      simp [plug, print, textBefore, least, textAfter]
  | leftOf operation right =>
      simp [plug, print, textBefore, least, textAfter]
  | rightOf operation left =>
      simp [plug, print, textBefore, least, textAfter]

theorem tokens_plug :
    (frame.plug operand).tokens =
      frame.tokensBefore ++
        delimitTokens frame.least operand.precedence operand.tokens ++
          frame.tokensAfter := by
  cases frame with
  | negation =>
      simp [plug, tokens, tokensBefore, least, tokensAfter]
  | leftOf operation right =>
      simp [plug, tokens, tokensBefore, least, tokensAfter]
  | rightOf operation left =>
      simp [plug, tokens, tokensBefore, least, tokensAfter]

variable {frame} {operand}

theorem named_of_plug
    (named : (frame.plug operand).Named) :
    frame.Named ∧ operand.Named := by
  cases frame with
  | negation =>
      exact ⟨trivial, named⟩
  | leftOf operation right =>
      exact ⟨Formula.Named.right named, Formula.Named.left named⟩
  | rightOf operation left =>
      exact ⟨Formula.Named.left named, Formula.Named.right named⟩

/-- An operand that stands without brackets is derived at the level of its frame. -/
theorem level_le_least :
    frame.level.precedence ≤ frame.least ∧
      frame.least ≤ Level.factor.precedence := by
  cases frame with
  | negation =>
      exact ⟨Int.le_refl _, Int.le_refl _⟩
  | leftOf operation right =>
      exact leftLevel_le_leastLeft operation
  | rightOf operation left =>
      exact rightLevel_le_leastRight operation

/-- Without its blanks the text before an operand spells the tokens before it. -/
theorem withoutBlanks_textBefore
    (named : frame.Named) :
    withoutBlanks frame.textBefore =
      frame.tokensBefore.flatMap Token.text := by
  cases frame with
  | negation =>
      exact withoutBlanks_symbol .negation
  | leftOf operation right =>
      rfl
  | rightOf operation left =>
      have blank : withoutBlanks (Text.ascii " ") = [] := by
        decide
      have spelled := withoutBlanks_print named
      simp [textBefore, tokensBefore, withoutBlanks_append, blank,
        withoutBlanks_symbol, withoutBlanks_delimit spelled,
        Token.ofConnective]

/-- Without its blanks the text after an operand spells the tokens after it. -/
theorem withoutBlanks_textAfter
    (named : frame.Named) :
    withoutBlanks frame.textAfter =
      frame.tokensAfter.flatMap Token.text := by
  cases frame with
  | negation =>
      rfl
  | leftOf operation right =>
      have blank : withoutBlanks (Text.ascii " ") = [] := by
        decide
      have spelled := withoutBlanks_print named
      simp [textAfter, tokensAfter, withoutBlanks_append, blank,
        withoutBlanks_symbol, withoutBlanks_delimit spelled,
        Token.ofConnective]
  | rightOf operation left =>
      rfl

end Frame

/-- The frames around an operand, the innermost first. -/
abbrev Context := List Frame

/-- The bracket that opens a text for a place, if it needs one. -/
def leading (least precedence : Int) : Text :=
  if least ≤ precedence then [] else Text.ascii "("

/-- The bracket that closes a text for a place, if it needs one. -/
def trailing (least precedence : Int) : Text :=
  if least ≤ precedence then [] else Text.ascii ")"

/-- The bracket that opens a token list for a place, if it needs one. -/
def leadingTokens (least precedence : Int) : List Token :=
  if least ≤ precedence then [] else [Token.opening]

/-- The bracket that closes a token list for a place, if it needs one. -/
def trailingTokens (least precedence : Int) : List Token :=
  if least ≤ precedence then [] else [Token.closing]

theorem delimit_eq
    (least precedence : Int)
    (text : Text) :
    delimit least precedence text =
      leading least precedence ++ text ++ trailing least precedence := by
  unfold delimit leading trailing
  split <;> simp

theorem delimitTokens_eq
    (least precedence : Int)
    (tokens : List Token) :
    delimitTokens least precedence tokens =
      leadingTokens least precedence ++ tokens ++
        trailingTokens least precedence := by
  unfold delimitTokens leadingTokens trailingTokens
  split <;> simp

theorem withoutBlanks_leading (least precedence : Int) :
    withoutBlanks (leading least precedence) =
      (leadingTokens least precedence).flatMap Token.text := by
  unfold leading leadingTokens
  split <;> rfl

theorem withoutBlanks_trailing (least precedence : Int) :
    withoutBlanks (trailing least precedence) =
      (trailingTokens least precedence).flatMap Token.text := by
  unfold trailing trailingTokens
  split <;> rfl

namespace Context

/-- The formula that a context makes of an operand. -/
def plug : Context → Formula → Formula
  | [], operand =>
      operand
  | frame :: outer, operand =>
      plug outer (frame.plug operand)

/-- The least precedence of an operand that stands without brackets. -/
def least : Context → Int
  | [] =>
      Level.equivalence.precedence
  | frame :: _ =>
      frame.least

/-- The level at which an operand is derived. -/
def level : Context → Level
  | [] =>
      .equivalence
  | frame :: _ =>
      frame.level

/-- The text before an operand and its brackets. -/
def textBefore : Context → Text
  | [] =>
      []
  | frame :: outer =>
      textBefore outer ++ leading (least outer) frame.precedence ++
        frame.textBefore

/-- The text after an operand and its brackets. -/
def textAfter : Context → Text
  | [] =>
      []
  | frame :: outer =>
      frame.textAfter ++ trailing (least outer) frame.precedence ++
        textAfter outer

/-- The tokens before an operand and its brackets. -/
def tokensBefore : Context → List Token
  | [] =>
      []
  | frame :: outer =>
      tokensBefore outer ++ leadingTokens (least outer) frame.precedence ++
        frame.tokensBefore

/-- The tokens after an operand and its brackets. -/
def tokensAfter : Context → List Token
  | [] =>
      []
  | frame :: outer =>
      frame.tokensAfter ++ trailingTokens (least outer) frame.precedence ++
        tokensAfter outer

/-- All other operands in a context have capital letters for their atoms. -/
def Named (context : Context) : Prop :=
  ∀ frame ∈ context, frame.Named

/-- No formula needs brackets where nothing stands around it. -/
theorem least_nil_le (formula : Formula) :
    least [] ≤ formula.precedence := by
  cases formula with
  | atom name =>
      have bound : Level.equivalence.precedence ≤ atomicPrecedence := by
        decide
      exact bound
  | negation operand =>
      exact Level.factor.equivalence_le
  | binary operation left right =>
      rw [Formula.precedence, operation.precedence_level]
      exact operation.level.equivalence_le

/-- The text of a formula around one of its operands. -/
theorem print_plug
    (context : Context)
    (operand : Formula) :
    (context.plug operand).print =
      context.textBefore ++
        delimit context.least operand.precedence operand.print ++
          context.textAfter := by
  induction context generalizing operand with
  | nil =>
      simp [plug, textBefore, textAfter, delimit, least_nil_le]
  | cons frame outer inductionHypothesis =>
      rw [plug, inductionHypothesis, delimit_eq, frame.precedence_plug,
        frame.print_plug]
      simp [textBefore, textAfter, least]

/-- The tokens of a formula around one of its operands. -/
theorem tokens_plug
    (context : Context)
    (operand : Formula) :
    (context.plug operand).tokens =
      context.tokensBefore ++
        delimitTokens context.least operand.precedence operand.tokens ++
          context.tokensAfter := by
  induction context generalizing operand with
  | nil =>
      simp [plug, tokensBefore, tokensAfter, delimitTokens, least_nil_le]
  | cons frame outer inductionHypothesis =>
      rw [plug, inductionHypothesis, delimitTokens_eq, frame.precedence_plug,
        frame.tokens_plug]
      simp [tokensBefore, tokensAfter, least]

variable {context : Context} {operand : Formula}

theorem named_of_plug
    (named : (context.plug operand).Named) :
    context.Named ∧ operand.Named := by
  induction context generalizing operand with
  | nil =>
      exact ⟨by simp [Named], named⟩
  | cons frame outer inductionHypothesis =>
      obtain ⟨outerNamed, plugNamed⟩ := inductionHypothesis named
      obtain ⟨frameNamed, operandNamed⟩ := Frame.named_of_plug plugNamed
      exact ⟨List.forall_mem_cons.mpr ⟨frameNamed, outerNamed⟩, operandNamed⟩

/-- Without its blanks the text before an operand spells the tokens before it. -/
theorem withoutBlanks_textBefore
    (named : context.Named) :
    withoutBlanks context.textBefore =
      context.tokensBefore.flatMap Token.text := by
  induction context with
  | nil =>
      rfl
  | cons frame outer inductionHypothesis =>
      obtain ⟨frameNamed, outerNamed⟩ := List.forall_mem_cons.mp named
      simp [textBefore, tokensBefore, withoutBlanks_append,
        inductionHypothesis outerNamed, withoutBlanks_leading,
        Frame.withoutBlanks_textBefore frameNamed]

/-- Without its blanks the text after an operand spells the tokens after it. -/
theorem withoutBlanks_textAfter
    (named : context.Named) :
    withoutBlanks context.textAfter =
      context.tokensAfter.flatMap Token.text := by
  induction context with
  | nil =>
      rfl
  | cons frame outer inductionHypothesis =>
      obtain ⟨frameNamed, outerNamed⟩ := List.forall_mem_cons.mp named
      simp [textAfter, tokensAfter, withoutBlanks_append,
        inductionHypothesis outerNamed, withoutBlanks_trailing,
        Frame.withoutBlanks_textAfter frameNamed]

end Context

end Propositional.Formula
