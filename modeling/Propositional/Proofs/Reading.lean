import Propositional.Expression
import Propositional.Proofs.Arrangement.Outcome
import Propositional.Proofs.Token.Unreadable

namespace Propositional

/-!
# Texts that cannot be read

A text has no formula because one of its bytes begins no token or because its
brackets do not match: a token that was read from text is never out of place by
its spelling.  The report of such a fault breaks no line, because blanks are
dropped before anything is read, and newlines with them.
-/

namespace Token

/-- A token that was read from text has a role. -/
theorem Lexeme.hasRole
    {token : Token}
    (lexeme : Lexeme token) :
    token.HasRole := by
  cases lexeme with
  | letter capital =>
      obtain ⟨lower, upper⟩ := Byte.isUpper_iff.mp capital
      exact .variableName lower upper
  | symbol connective =>
      exact .symbol connective
  | opening | closing =>
      exact .bracket rfl

end Token

namespace Program

/-- Lexemes that have no program have brackets that do not match. -/
theorem ofTokens_error_cases
    {tokens : List Token}
    {fault : Fault}
    (lexemes : ∀ token ∈ tokens, Token.Lexeme token)
    (failed : ofTokens tokens = .error fault) :
    fault = .unmatchedClosing ∨ fault = .unclosedOpening := by
  rcases ofTokens_eq_error_iff.mp failed with first | ⟨_, _, isFault⟩
  · obtain ⟨before, token, member, misplaced⟩ := first.exists_mem
    cases misplaced with
    | unexpected noRole =>
        exact absurd (lexemes token member).hasRole noRole
    | unopened =>
        exact .inl rfl
  · exact .inr isFault

end Program

namespace Expression

/-- A text that cannot be read has an unreadable byte, or brackets that do not match. -/
theorem parse_error_cases
    {text : Text}
    {fault : Fault}
    (failed : parse text = .error fault) :
    (∃ byte ∈ Text.normalize text,
        ∃ place, fault = Token.unreadable byte place) ∨
      fault = .unmatchedClosing ∨ fault = .unclosedOpening := by
  rcases Fault.bind_eq_error_iff.mp failed with
      unread | ⟨tokens, tokenized, continued⟩
  · obtain ⟨place, byte, there, _, isFault⟩ :=
      Token.exists_stuckAt_of_scan unread
    exact .inl ⟨byte, List.mem_of_getElem? there, place, isFault⟩
  · obtain ⟨lexemes, _⟩ := Token.tokenize_eq_ok_iff_spells.mp tokenized
    rcases Fault.bind_eq_error_iff.mp continued with
        unarranged | ⟨program, _, collected⟩
    · exact .inr (Program.ofTokens_error_cases lexemes unarranged)
    · cases collected

/-- The message of a text that cannot be read is unbroken. -/
theorem newline_notMem_message_of_parse
    {text : Text}
    {fault : Fault}
    (failed : parse text = .error fault) :
    Byte.newline ∉ fault.message := by
  apply Fault.newline_notMem_message
  rcases parse_error_cases failed with
      ⟨byte, member, place, rfl⟩ | rfl | rfl
  · rw [Token.token_unreadable, List.mem_singleton]
    rintro rfl
    exact Text.newline_notMem_normalize text member
  · decide
  · decide

end Expression

end Propositional
