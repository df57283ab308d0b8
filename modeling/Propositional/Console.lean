import Propositional.Table.Layout

namespace Propositional

/-!
# The console

With arguments the program draws the table of one formula, or explains itself.
Without arguments it holds a dialogue: it asks for formulas and answers each,
until a blank line or the end of the input.
-/

/-- What a run leaves behind: its exit status and what it wrote. -/
structure Outcome where
  status : Nat
  output : Text
  errors : Text
  deriving Repr, DecidableEq

namespace Console

/-- A summary of the language. -/
def legend : Text :=
  Text.line (Text.ascii "Variables : single uppercase letters (A, B, C, ...)") ++
    Text.line (Text.ascii "Operators : ! & | / \\ ^ -> <-> ( )") ++
    Text.line (Text.ascii "  !  (NOT)      &  (AND)      |  (OR)       ^   (XOR)") ++
    Text.line (Text.ascii "  /  (NAND)     \\  (NOR)      -> (Implies)  <-> (Equivalent)")

/-- How the program is called. -/
def usage : Text :=
  Text.line (Text.ascii "Usage: truthtable [EXPRESSION...]") ++
    Text.line
      (Text.ascii "Without arguments the program asks for expressions until a blank line.") ++
    Text.line [] ++
    legend

/-- What asks for a formula. -/
def prompt : Text :=
  Text.ascii "Expression : "

/-- Draw the table of a formula, or report why there is none. -/
def answer (text : Text) : Outcome :=
  match Table.ofText text with
  | .ok table =>
      { status := 0
        output := Text.line table.render
        errors := [] }
  | .error fault =>
      { status := 1
        output := []
        errors := Text.line (Text.ascii "Error: " ++ fault.message) }

/-- Whether an argument asks for help. -/
def asksForHelp (argument : Text) : Bool :=
  argument == Text.ascii "-h" || argument == Text.ascii "--help"

/-- Answer the formula that is written across the arguments. -/
def oneShot (first : Text) (others : List Text) : Outcome :=
  if asksForHelp first then
    { status := 0
      output := usage
      errors := [] }
  else
    answer ((Text.ascii " ").intercalate (first :: others))

/-- The answer to one line of a dialogue, unless the line is blank. -/
def reply? (line : Text) : Option Outcome :=
  match Text.trim line with
  | [] =>
      none
  | byte :: rest =>
      some (answer (byte :: rest))

/-- A dialogue over the lines of an input, from a prompt on. -/
def dialogue : List Text → Outcome
  | [] =>
      { status := 0
        output := prompt
        errors := [] }
  | line :: later =>
      match reply? line with
      | none =>
          { status := 0
            output := prompt
            errors := [] }
      | some reply =>
          let rest := dialogue later
          { status := 0
            output := prompt ++ reply.output ++ rest.output
            errors := reply.errors ++ rest.errors }

/-- The whole program. -/
def run (arguments : List Text) (input : Text) : Outcome :=
  match arguments with
  | first :: others =>
      oneShot first others
  | [] =>
      let talk := dialogue (Text.lines input)
      { talk with
        output := legend ++ talk.output }

end Console

end Propositional
