import Propositional.Console

namespace Propositional.Main

/-!
# The program

The outer layer of the console: it carries bytes between the system and the
definitions that decide what to write, one line of input at a time.
-/

/-- Write a text and flush it. -/
def write (stream : IO.FS.Stream) (text : Text) : IO Unit := do
  stream.write ⟨text.toArray⟩
  stream.flush

/-- Write what a run left behind. -/
def emit (outcome : Outcome) : IO Unit := do
  write (← IO.getStdout) outcome.output
  write (← IO.getStderr) outcome.errors

/-- Read the bytes of one line, up to its newline or the end of the input. -/
partial def readLine
    (stream : IO.FS.Stream)
    (reversed : Text) :
    IO (Option Text) := do
  let bytes ← stream.read 1
  match bytes.toList with
  | [] =>
      return if reversed.isEmpty then none else some reversed.reverse
  | byte :: _ =>
      if byte = Byte.newline then
        return some reversed.reverse
      else
        readLine stream (byte :: reversed)

/-- Ask and answer until a blank line or the end of the input. -/
partial def converse (stream : IO.FS.Stream) : IO Unit := do
  write (← IO.getStdout) Console.prompt
  match (← readLine stream []).bind Console.reply? with
  | none =>
      return
  | some reply =>
      emit reply
      converse stream

end Propositional.Main

/-- Answer the arguments, or hold a dialogue if there are none. -/
def main (arguments : List String) : IO UInt32 := do
  match arguments.map fun argument => argument.toUTF8.toList with
  | first :: others =>
      let outcome := Propositional.Console.oneShot first others
      Propositional.Main.emit outcome
      return UInt32.ofNat outcome.status
  | [] =>
      Propositional.Main.write (← IO.getStdout) Propositional.Console.legend
      Propositional.Main.converse (← IO.getStdin)
      return 0
