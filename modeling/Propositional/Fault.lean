import Propositional.Connective

namespace Propositional

/-!
# Faults

Why a text is no formula, or why a program has no value.  A fault is its cause;
the kind, the wording, the offending token and its position are read off the
cause.
-/

/-- The cause of a failed reading or evaluation. -/
inductive Fault where
  /-- A small letter stands where a variable was expected. -/
  | invalidCharacter (byte : Byte) (position : Nat)
  /-- A byte begins no token. -/
  | unknownToken (byte : Byte) (position : Nat)
  /-- A token has no role in an infix formula. -/
  | unexpectedToken (text : Text)
  /-- A token is no instruction of a program. -/
  | unexpectedInstruction (text : Text)
  /-- A bracket closes no group. -/
  | unmatchedClosing
  /-- A group is still open at the end. -/
  | unclosedOpening
  /-- The assignment has no value for a variable. -/
  | unknownVariable (name : Text)
  /-- A connective finds fewer operands than it takes. -/
  | insufficientOperands (connective : Connective)
  /-- A program ends with other than one operand. -/
  | malformedResult (height : Nat)
  deriving Repr, DecidableEq

namespace Fault

/-- The classes of faults that a caller can tell apart. -/
inductive Kind where
  | invalidCharacter
  | unknownToken
  | unexpectedToken
  | mismatchedParentheses
  | unknownVariable
  | insufficientOperands
  | malformedResult
  deriving Repr, DecidableEq

namespace Kind

/-- Every kind, in the order of its code. -/
def all : List Kind :=
  [.invalidCharacter, .unknownToken, .unexpectedToken, .mismatchedParentheses,
    .unknownVariable, .insufficientOperands, .malformedResult]

/-- The published name of a kind. -/
def name : Kind → Text
  | .invalidCharacter =>
      Text.ascii "InvalidCharacter"
  | .unknownToken =>
      Text.ascii "UnknownToken"
  | .unexpectedToken =>
      Text.ascii "UnexpectedToken"
  | .mismatchedParentheses =>
      Text.ascii "MismatchedParentheses"
  | .unknownVariable =>
      Text.ascii "UnknownVariable"
  | .insufficientOperands =>
      Text.ascii "InsufficientOperands"
  | .malformedResult =>
      Text.ascii "MalformedResult"

/-- The kind with a code; codes count from zero. -/
def ofCode? : Int → Option Kind
  | .ofNat code =>
      all[code]?
  | .negSucc _ =>
      none

/-- The published name for a code, which need not be the code of a kind. -/
def nameOfCode (code : Int) : Text :=
  match ofCode? code with
  | some kind =>
      kind.name
  | none =>
      Text.ascii "Unknown"

end Kind

/-- The kind of a fault. -/
def kind : Fault → Kind
  | .invalidCharacter _ _ =>
      .invalidCharacter
  | .unknownToken _ _ =>
      .unknownToken
  | .unexpectedToken _ | .unexpectedInstruction _ =>
      .unexpectedToken
  | .unmatchedClosing | .unclosedOpening =>
      .mismatchedParentheses
  | .unknownVariable _ =>
      .unknownVariable
  | .insufficientOperands _ =>
      .insufficientOperands
  | .malformedResult _ =>
      .malformedResult

/-- The full wording of a fault, which quotes the offending bytes as they are. -/
def wording : Fault → Text
  | .invalidCharacter byte _ =>
      Text.ascii "Invalid character: " ++ [byte] ++
        Text.ascii ". Variables must be uppercase letters."
  | .unknownToken byte position =>
      Text.ascii "Unknown token starting with: " ++ [byte] ++
        Text.ascii " at position " ++ Text.decimal position
  | .unexpectedToken text =>
      Text.ascii "Unexpected token: " ++ text
  | .unexpectedInstruction text =>
      Text.ascii "Unexpected token in postfix evaluation: " ++ text
  | .unmatchedClosing =>
      Text.ascii "Mismatched parentheses: no matching '(' found."
  | .unclosedOpening =>
      Text.ascii "Mismatched parentheses: '(' was not closed."
  | .unknownVariable name =>
      Text.ascii "Unknown variable during evaluation: " ++ name
  | .insufficientOperands connective =>
      Text.ascii "Insufficient operands for operator: " ++ connective.symbol
  | .malformedResult height =>
      Text.ascii "Evaluation error: stack did not end with a single result. Size: " ++
        Text.decimal height

/-- The message of a fault is its wording up to the first NUL byte. -/
def message (fault : Fault) : Text :=
  Text.untilNul fault.wording

/-- The text that a fault is about; a malformed result is about none. -/
def token : Fault → Text
  | .invalidCharacter byte _ | .unknownToken byte _ =>
      [byte]
  | .unexpectedToken text | .unexpectedInstruction text =>
      text
  | .unmatchedClosing =>
      Text.ascii ")"
  | .unclosedOpening =>
      Text.ascii "("
  | .unknownVariable name =>
      name
  | .insufficientOperands connective =>
      connective.symbol
  | .malformedResult _ =>
      []

/-- Where a fault lies; only a fault of spelling has a place. -/
def position? : Fault → Option Nat
  | .invalidCharacter _ position | .unknownToken _ position =>
      some position
  | _ =>
      none

end Fault

end Propositional
