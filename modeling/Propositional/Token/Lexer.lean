import Propositional.Fault
import Propositional.Text.Normal
import Propositional.Token

namespace Propositional.Token

/-!
# Reading tokens

A normal text is cut into tokens from the left: a capital letter is a variable,
a round bracket is a bracket, and otherwise the longest connective symbol that
begins the rest is taken.  The first byte that begins no token is the fault,
and its position counts bytes of the normal text.
-/

/-- The token that begins a text. -/
def leading? : Text → Option Token
  | [] =>
      none
  | byte :: rest =>
      if Byte.isUpper byte then
        some (ofName [byte])
      else if byte = Byte.ofChar '(' then
        some opening
      else if byte = Byte.ofChar ')' then
        some closing
      else
        (Connective.longest? (byte :: rest)).map ofConnective

/-- The fault of a byte that begins no token. -/
def unreadable (byte : Byte) (position : Nat) : Fault :=
  if Byte.isLower byte then
    .invalidCharacter byte position
  else
    .unknownToken byte position

/--
Cut a text into tokens.  `covered` counts the bytes at its front that belong to
the token read last, and `position` is the position of its first byte.
-/
def scan :
    (covered position : Nat) →
      Text →
      Except Fault (List Token)
  | _, _, [] =>
      .ok []
  | covered + 1, position, _ :: rest =>
      scan covered (position + 1) rest
  | 0, position, byte :: rest =>
      match leading? (byte :: rest) with
      | none =>
          .error (unreadable byte position)
      | some token =>
          (scan (token.text.length - 1) (position + 1) rest).map (token :: ·)

/-- The tokens of a text. -/
def tokenize (text : Text) : Except Fault (List Token) :=
  scan 0 0 (Text.normalize text)

end Propositional.Token
