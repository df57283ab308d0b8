import Propositional.Text

namespace Propositional

/-!
# Connectives

The eight connectives of the language with their truth functions, symbols,
precedences and associativities, and the ways to find a connective from text.
A higher precedence binds tighter.  The catalogue is complete, and a text names
at most one connective: `ofSymbol?` finds exactly the symbols.
-/

/-- The side to which a chain of one precedence groups. -/
inductive Associativity where
  | left
  | right
  deriving Repr, DecidableEq

/-- The connectives between two operands. -/
inductive Binary where
  | conjunction
  | nand
  | disjunction
  | xor
  | nor
  | implication
  | equivalence
  deriving Repr, DecidableEq

namespace Binary

/-- The truth function of a connective between two operands. -/
def eval :
    Binary → Bool → Bool → Bool
  | .conjunction, left, right =>
      left && right
  | .nand, left, right =>
      !(left && right)
  | .disjunction, left, right =>
      left || right
  | .xor, left, right =>
      left != right
  | .nor, left, right =>
      !(left || right)
  | .implication, left, right =>
      !left || right
  | .equivalence, left, right =>
      left == right

end Binary

/-- Negation, or a connective between two operands. -/
inductive Connective where
  | negation
  | binary (operation : Binary)
  deriving Repr, DecidableEq

/-- A connective was given a number of arguments other than its arity. -/
structure ArityMismatch where
  connective : Connective
  deriving Repr, DecidableEq

namespace Connective

/-- Every connective, in the order of the catalogue. -/
def all : List Connective :=
  [.negation,
    .binary .conjunction, .binary .nand,
    .binary .disjunction, .binary .xor, .binary .nor,
    .binary .implication,
    .binary .equivalence]

/-- The spelling of a connective. -/
def symbol : Connective → Text
  | .negation =>
      Text.ascii "!"
  | .binary .conjunction =>
      Text.ascii "&"
  | .binary .nand =>
      Text.ascii "/"
  | .binary .disjunction =>
      Text.ascii "|"
  | .binary .xor =>
      Text.ascii "^"
  | .binary .nor =>
      Text.ascii "\\"
  | .binary .implication =>
      Text.ascii "->"
  | .binary .equivalence =>
      Text.ascii "<->"

/-- How tightly a connective binds. -/
def precedence : Connective → Int
  | .negation =>
      5
  | .binary .conjunction | .binary .nand =>
      4
  | .binary .disjunction | .binary .xor | .binary .nor =>
      3
  | .binary .implication =>
      2
  | .binary .equivalence =>
      1

/-- Negation and implication group to the right, all others to the left. -/
def associativity : Connective → Associativity
  | .negation | .binary .implication =>
      .right
  | .binary _ =>
      .left

/-- How many operands a connective takes. -/
def arity : Connective → Nat
  | .negation =>
      1
  | .binary _ =>
      2

/-- The connective with exactly this spelling. -/
def ofSymbol? (text : Text) : Option Connective :=
  all.find? fun connective => connective.symbol == text

/-- The connective with the longest spelling that begins the text. -/
def longest? (text : Text) : Option Connective :=
  [3, 2, 1].findSome? fun length => ofSymbol? (text.take length)

/-- Apply a connective to as many arguments as it takes. -/
def apply :
    Connective → List Bool → Except ArityMismatch Bool
  | .negation, [operand] =>
      .ok (!operand)
  | .binary operation, [left, right] =>
      .ok (operation.eval left right)
  | connective, _ =>
      .error ⟨connective⟩

/-- The catalogue is complete. -/
theorem mem_all (connective : Connective) : connective ∈ all := by
  cases connective with
  | negation =>
      decide
  | binary operation =>
      cases operation <;> decide

/-- A symbol leads back to its connective. -/
theorem ofSymbol?_symbol (connective : Connective) :
    ofSymbol? connective.symbol = some connective := by
  cases connective with
  | negation =>
      rfl
  | binary operation =>
      cases operation <;> rfl

/-- A text is the symbol of a connective exactly if the look-up finds it. -/
theorem ofSymbol?_eq_some_iff
    {text : Text}
    {connective : Connective} :
    ofSymbol? text = some connective ↔ text = connective.symbol := by
  constructor
  · intro found
    have same := List.find?_some found
    exact (eq_of_beq same).symm
  · intro spelled
    subst spelled
    exact ofSymbol?_symbol connective

/-- Different connectives have different symbols. -/
theorem symbol_injective
    {first second : Connective}
    (same : first.symbol = second.symbol) :
    first = second := by
  have found := ofSymbol?_symbol first
  rw [same, ofSymbol?_symbol second] at found
  exact (Option.some.inj found).symm

/-- A connective applies to as many arguments as its arity says, and to no others. -/
theorem apply_eq_error_iff
    {connective : Connective}
    {arguments : List Bool}
    {mismatch : ArityMismatch} :
    connective.apply arguments = .error mismatch ↔
      arguments.length ≠ connective.arity ∧ mismatch = ⟨connective⟩ := by
  cases connective <;> match arguments with
  | [] => simp [apply, arity, eq_comm]
  | [_] => simp [apply, arity, eq_comm]
  | [_, _] => simp [apply, arity, eq_comm]
  | _ :: _ :: _ :: _ => simp [apply, arity, eq_comm]

end Connective

namespace ArityMismatch

/-- The wording of an arity mismatch. -/
def message (mismatch : ArityMismatch) : Text :=
  Text.ascii "Incorrect number of arguments for operator " ++
    mismatch.connective.symbol

end ArityMismatch

end Propositional
