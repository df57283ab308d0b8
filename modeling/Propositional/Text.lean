namespace Propositional

/-!
# Texts

Everything the program reads or writes is a sequence of bytes.  This module
holds the classes of bytes that matter to it and the few operations on whole
texts that are independent of logic: ASCII literals, decimal numerals, the cut
at the first NUL, trimming, and the division of an input into lines.
-/

/-- One unit of input or output. -/
abbrev Byte := UInt8

/-- A finite sequence of bytes; lengths and positions count bytes. -/
abbrev Text := List Byte

namespace Byte

/-- The byte that stands for an ASCII character. -/
abbrev ofChar (character : Char) : Byte :=
  character.toUInt8

/-- The byte that ends a line. -/
def newline : Byte :=
  ofChar '\n'

/-- The byte that fills a cell. -/
def blank : Byte :=
  ofChar ' '

/-- Blanks are the space and the five control bytes from tab to carriage return. -/
def isSpace (byte : Byte) : Bool :=
  byte == blank || (ofChar '\t' ≤ byte && byte ≤ ofChar '\r')

/-- The capital letters `A` to `Z`. -/
def isUpper (byte : Byte) : Bool :=
  ofChar 'A' ≤ byte && byte ≤ ofChar 'Z'

/-- The small letters `a` to `z`. -/
def isLower (byte : Byte) : Bool :=
  ofChar 'a' ≤ byte && byte ≤ ofChar 'z'

/-- The codes of the blanks. -/
theorem isSpace_iff {byte : Byte} :
    isSpace byte = true ↔
      byte.toNat = 32 ∨ 9 ≤ byte.toNat ∧ byte.toNat ≤ 13 := by
  simp only [isSpace, blank, Bool.or_eq_true, Bool.and_eq_true, beq_iff_eq,
    decide_eq_true_eq, UInt8.le_iff_toNat_le, ← UInt8.toNat_inj]
  rfl

/-- The codes of the capital letters. -/
theorem isUpper_iff {byte : Byte} :
    isUpper byte = true ↔ 65 ≤ byte.toNat ∧ byte.toNat ≤ 90 := by
  simp only [isUpper, Bool.and_eq_true, decide_eq_true_eq,
    UInt8.le_iff_toNat_le]
  rfl

/-- The codes of the small letters. -/
theorem isLower_iff {byte : Byte} :
    isLower byte = true ↔ 97 ≤ byte.toNat ∧ byte.toNat ≤ 122 := by
  simp only [isLower, Bool.and_eq_true, decide_eq_true_eq,
    UInt8.le_iff_toNat_le]
  rfl

end Byte

namespace Text

/-- The bytes of an ASCII literal. -/
def ascii (literal : String) : Text :=
  literal.toList.map Byte.ofChar

/-- The decimal numeral of a natural number, without leading zeros. -/
def decimal (number : Nat) : Text :=
  (Nat.toDigits 10 number).map Byte.ofChar

/-- The part of a text before its first NUL byte. -/
def untilNul (text : Text) : Text :=
  text.takeWhile (· != 0)

/-- Remove the blanks at both ends. -/
def trim (text : Text) : Text :=
  ((text.dropWhile Byte.isSpace).reverse.dropWhile Byte.isSpace).reverse

/-- Fill a text with blanks on the right, up to a width. -/
def pad (width : Nat) (text : Text) : Text :=
  text.rightpad width Byte.blank

/-- Close a line. -/
def line (text : Text) : Text :=
  text ++ [Byte.newline]

/--
The lines of an input, without their newlines.  A last line need not be closed,
and nothing at all after the last newline is no further line.
-/
def lines : Text → List Text
  | [] =>
      []
  | byte :: rest =>
      if byte = Byte.newline then
        [] :: lines rest
      else
        match lines rest with
        | [] =>
            [[byte]]
        | first :: others =>
            (byte :: first) :: others

end Text

end Propositional
