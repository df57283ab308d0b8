import Propositional.Proofs.Text.Normal
import Propositional.Proofs.Token.Lexing

namespace Propositional

/-!
# Cancelling negation signs in token lists

Negation signs cancel before a text is read.  Because no other symbol contains
the sign, cancelling in the text is cancelling in the token list that it spells.
-/

namespace Token

/-- The token whose neighbouring pairs cancel. -/
abbrev negationSign : Token :=
  ofConnective .negation

namespace Lexeme

/-- Only the negation sign contains the byte of the negation sign. -/
theorem notMem_text
    {token : Token}
    (lexeme : Lexeme token)
    (different : token ≠ negationSign) :
    Byte.ofChar '!' ∉ token.text := by
  cases lexeme with
  | letter capital =>
      intro member
      rw [← List.mem_singleton.mp member] at capital
      exact absurd capital (by decide)
  | symbol connective =>
      cases connective with
      | negation =>
          exact (different rfl).elim
      | binary operation =>
          cases operation <;> decide
  | opening =>
      decide
  | closing =>
      decide

end Lexeme

/-- Putting a sign before a list puts its byte before the text of the list. -/
theorem prepend_flatMap_text
    {tokens : List Token}
    (lexemes : ∀ token ∈ tokens, Lexeme token) :
    Runs.prepend (Byte.ofChar '!') (Byte.ofChar '!')
        (tokens.flatMap Token.text) =
      (Runs.prepend negationSign negationSign tokens).flatMap Token.text := by
  cases tokens with
  | nil =>
      rfl
  | cons token tokens =>
      by_cases isSign : token = negationSign
      · subst token
        rfl
      · have lexeme := lexemes token (by simp)
        have absent := lexeme.notMem_text isSign
        obtain ⟨byte, rest, shape⟩ :=
          List.exists_cons_of_ne_nil lexeme.text_ne_nil
        have different : byte ≠ Byte.ofChar '!' := by
          rintro rfl
          exact absent (by simp [shape])
        simp [Runs.prepend, isSign, shape, different]
        rfl

/-- Cancelling in the text of lexemes is cancelling among the lexemes. -/
theorem cancel_flatMap_text
    {tokens : List Token}
    (lexemes : ∀ token ∈ tokens, Lexeme token) :
    Runs.cancel (Byte.ofChar '!') (tokens.flatMap Token.text) =
      (Runs.cancel negationSign tokens).flatMap Token.text := by
  induction tokens with
  | nil =>
      rfl
  | cons token tokens inductionHypothesis =>
      obtain ⟨lexeme, later⟩ := List.forall_mem_cons.mp lexemes
      rw [List.flatMap_cons, Runs.cancel_cons]
      by_cases isSign : token = negationSign
      · have kept :
            ∀ token ∈ Runs.cancel negationSign tokens, Lexeme token :=
          fun other member =>
            later other ((Runs.cancel_sublist _ _).subset member)
        have text : token.text = [Byte.ofChar '!'] := by
          rw [isSign]
          rfl
        rw [text, List.singleton_append, Runs.cancel_cons,
          inductionHypothesis later, prepend_flatMap_text kept, isSign]
      · rw [Runs.cancel_append_of_notMem (lexeme.notMem_text isSign),
          inductionHypothesis later]
        simp [Runs.prepend, isSign]

/-- Cancelling does not reach beyond the brackets of a group. -/
theorem cancel_group (tokens : List Token) :
    Runs.cancel negationSign (opening :: tokens ++ [closing]) =
      opening :: Runs.cancel negationSign tokens ++ [closing] := by
  rw [Runs.cancel_append_cons (by decide),
    Runs.cancel_cons_of_ne (by decide), Runs.cancel_nil]

/--
A text that spells lexemes once its blanks are removed is read as these
lexemes, with the negation signs cancelled.
-/
theorem tokenize_of_spells
    {text : Text}
    {tokens : List Token}
    (lexemes : ∀ token ∈ tokens, Lexeme token)
    (spells : Text.withoutBlanks text = tokens.flatMap Token.text) :
    tokenize text = .ok (Runs.cancel negationSign tokens) := by
  rw [tokenize_eq_ok_iff_spells]
  constructor
  · intro token member
    exact lexemes token ((Runs.cancel_sublist _ _).subset member)
  · rw [Text.normalize_eq_cancel, spells, cancel_flatMap_text lexemes]

end Token

end Propositional
