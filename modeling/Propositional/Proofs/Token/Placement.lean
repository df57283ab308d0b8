import Mathlib.Algebra.BigOperators.Group.List.Basic
import Mathlib.Algebra.Order.Ring.Int
import Mathlib.Data.List.Chain
import Propositional.Proofs.Arrangement.Conservation
import Propositional.Proofs.Token.Cancellation

namespace Propositional

/-!
# Operands side by side

A token list is separated if no operand ends right before another one begins.
In a separated list every operand but the first needs a binary connective
before it, so the list gains at most one operand, and it gains fewer where a
connective or a bracket stands in the place of an operand.
-/

namespace Token

/-- Whether an operand can end with a token. -/
def endsOperand (token : Token) : Bool :=
  token.kind = .variableName || token.kind = .closeBracket

/-- Whether an operand can begin with a token. -/
def beginsOperand (token : Token) : Bool :=
  token.kind = .variableName || token.kind = .openBracket ||
    token = negationSign

/-- No operand ends right before another one begins. -/
def Separated (tokens : List Token) : Prop :=
  tokens.IsChain fun first second =>
    ¬ (first.endsOperand = true ∧ second.beginsOperand = true)

instance (tokens : List Token) : Decidable (Separated tokens) :=
  inferInstanceAs
    (Decidable
      (tokens.IsChain fun first second =>
        ¬ (first.endsOperand = true ∧ second.beginsOperand = true)))

/-- How many operands a token leaves on a stack beyond those that it takes. -/
def gain (token : Token) : Int :=
  match token.kind with
  | .variableName =>
      1
  | .connectiveSymbol =>
      match Connective.ofSymbol? token.text with
      | some connective =>
          1 - connective.arity
      | none =>
          0
  | .openBracket | .closeBracket =>
      0

/-- How many operands the tokens of a list leave on a stack, all in all. -/
def gains (tokens : List Token) : Int :=
  (tokens.map gain).sum

theorem gain_ofConnective (connective : Connective) :
    (ofConnective connective).gain = 1 - connective.arity := by
  simp [gain, ofConnective, Connective.ofSymbol?_symbol]

theorem gains_cons
    (token : Token)
    (tokens : List Token) :
    gains (token :: tokens) = token.gain + gains tokens := by
  exact List.sum_cons

theorem gains_append
    (first second : List Token) :
    gains (first ++ second) = gains first + gains second := by
  rw [gains, List.map_append, List.sum_append]
  rfl

/-- The order of tokens does not matter for what they gain. -/
theorem gains_perm
    {first second : List Token}
    (permuted : first.Perm second) :
    gains first = gains second :=
  (permuted.map gain).sum_eq

/-- Brackets gain nothing. -/
theorem gains_withoutBrackets (tokens : List Token) :
    gains (withoutBrackets tokens) = gains tokens := by
  induction tokens with
  | nil =>
      rfl
  | cons token tokens inductionHypothesis =>
      rw [gains_cons, ← inductionHypothesis]
      cases bracket : token.isBracket with
      | false =>
          simp [withoutBrackets, bracket, gains]
      | true =>
          have nothing : token.gain = 0 := by
            cases kind : token.kind <;> simp_all [isBracket, gain]
          simp [withoutBrackets, bracket, nothing]

namespace Separated

/-- A token that ends no operand can stand before any separated list. -/
theorem cons
    {token : Token}
    {tokens : List Token}
    (separated : Separated tokens)
    (notEnding : token.endsOperand = false) :
    Separated (token :: tokens) := by
  refine List.isChain_cons.mpr ⟨?_, separated⟩
  rintro next _ ⟨ends, _⟩
  rw [notEnding] at ends
  cases ends

/-- A token that begins no operand can stand after any separated list. -/
theorem append
    {token : Token}
    {before after : List Token}
    (separatedBefore : Separated before)
    (separatedAfter : Separated (token :: after))
    (notBeginning : token.beginsOperand = false) :
    Separated (before ++ token :: after) := by
  refine List.isChain_append.mpr ⟨separatedBefore, separatedAfter, ?_⟩
  rintro last _ next isNext ⟨_, begins⟩
  cases isNext
  rw [notBeginning] at begins
  cases begins

end Separated

/-- How many operands there is room for after a token. -/
def room (previous : Token) : Int :=
  if previous.endsOperand then 0 else 1

theorem room_eq_one
    {previous : Token}
    (notEnding : previous.endsOperand = false) :
    previous.room = 1 := by
  simp [room, notEnding]

theorem room_nonneg (previous : Token) : 0 ≤ previous.room := by
  cases ends : previous.endsOperand <;> simp [room, ends]

/-- What begins an operand comes where there is room for one. -/
theorem room_eq_one_of_apart
    {previous token : Token}
    (apart : ¬ (previous.endsOperand = true ∧ token.beginsOperand = true))
    (begins : token.beginsOperand = true) :
    previous.room = 1 := by
  apply room_eq_one
  cases ends : previous.endsOperand with
  | false =>
      rfl
  | true =>
      exact absurd ⟨ends, begins⟩ apart

/-- A token gains no more than it takes of the room, if operands stay apart. -/
theorem gain_add_room_le
    {previous token : Token}
    (lexeme : Lexeme token)
    (apart : ¬ (previous.endsOperand = true ∧ token.beginsOperand = true)) :
    token.gain + token.room ≤ previous.room := by
  have notNegative := previous.room_nonneg
  cases lexeme with
  | letter capital =>
      exact Int.le_of_eq (room_eq_one_of_apart apart rfl).symm
  | symbol connective =>
      cases connective with
      | negation =>
          exact Int.le_of_eq (room_eq_one_of_apart apart rfl).symm
      | binary operation =>
          rw [gain_ofConnective]
          exact notNegative
  | opening =>
      exact Int.le_of_eq (room_eq_one_of_apart apart rfl).symm
  | closing =>
      exact notNegative

/-- A separated list gains no more operands than there is room for. -/
theorem gains_le_room
    {previous : Token}
    {tokens : List Token}
    (lexemes : ∀ token ∈ tokens, Lexeme token)
    (separated : Separated (previous :: tokens)) :
    gains tokens ≤ previous.room := by
  induction tokens generalizing previous with
  | nil =>
      exact previous.room_nonneg
  | cons token tokens inductionHypothesis =>
      obtain ⟨lexeme, later⟩ := List.forall_mem_cons.mp lexemes
      obtain ⟨apart, rest⟩ := List.isChain_cons_cons.mp separated
      calc
        gains (token :: tokens)
        _ = token.gain + gains tokens := gains_cons token tokens
        _ ≤ token.gain + token.room :=
          Int.add_le_add_left (inductionHypothesis later rest) token.gain
        _ ≤ previous.room := gain_add_room_le lexeme apart

end Token

end Propositional
