import Propositional.Arrangement
import Propositional.Token.Lexer

namespace Propositional

/-!
# Expressions

A formula that has been read: its program, and the names of its variables in
ascending order.
-/

/-- A program together with the names of its variables. -/
structure Expression where
  program : Program
  names : List Text
  deriving Repr, DecidableEq

namespace Expression

/-- Read a formula from text. -/
def parse (text : Text) : Except Fault Expression := do
  let tokens ← Token.tokenize text
  let program ← Program.ofTokens tokens
  return ⟨program, Token.names tokens⟩

end Expression

end Propositional
