import Propositional.Connective

namespace Propositional

/-!
# Tokens

A token is a text together with its grammatical kind.  The kind alone says
what a bracket is; a variable name or a connective symbol is also judged by its
text.  The names in a token list are kept strictly ascending, so that they
depend on the set of names alone.
-/

namespace Token

/-- The grammatical kind of a token. -/
inductive Kind where
  | variableName
  | connectiveSymbol
  | openBracket
  | closeBracket
  deriving Repr, DecidableEq

end Token

/-- A text that is read as one unit. -/
structure Token where
  kind : Token.Kind
  text : Text
  deriving Repr, DecidableEq

namespace Token

/-- The token that names a variable. -/
def ofName (name : Text) : Token :=
  ⟨.variableName, name⟩

/-- The token of a connective. -/
def ofConnective (connective : Connective) : Token :=
  ⟨.connectiveSymbol, connective.symbol⟩

/-- The bracket that opens a group. -/
def opening : Token :=
  ⟨.openBracket, Text.ascii "("⟩

/-- The bracket that closes a group. -/
def closing : Token :=
  ⟨.closeBracket, Text.ascii ")"⟩

/-- A variable is named by one capital letter. -/
def namesVariable : Text → Bool
  | [byte] =>
      Byte.isUpper byte
  | _ =>
      false

/-- What a token contributes to an infix formula. -/
inductive Role where
  | operand
  | connective (connective : Connective)
  | opens
  | closes
  deriving Repr, DecidableEq

/--
The role of a token.  A variable whose name is no capital letter and a symbol
outside the catalogue have none.
-/
def role? (token : Token) : Option Role :=
  match token.kind with
  | .variableName =>
      if namesVariable token.text then some .operand else none
  | .connectiveSymbol =>
      (Connective.ofSymbol? token.text).map Role.connective
  | .openBracket =>
      some .opens
  | .closeBracket =>
      some .closes

/-- Different connectives have different tokens. -/
theorem ofConnective_injective
    {first second : Connective}
    (same : ofConnective first = ofConnective second) :
    first = second :=
  Connective.symbol_injective (congrArg Token.text same)

/-- The token of a connective has that connective as its role. -/
theorem role?_ofConnective (connective : Connective) :
    (ofConnective connective).role? = some (.connective connective) := by
  simp [role?, ofConnective, Connective.ofSymbol?_symbol]

/-- A token that connects is the token of its connective. -/
theorem role?_eq_connective_iff
    {token : Token}
    {connective : Connective} :
    token.role? = some (.connective connective) ↔
      token = ofConnective connective := by
  rcases token with ⟨kind, text⟩
  cases kind with
  | variableName =>
      simp [role?, ofConnective]
  | connectiveSymbol =>
      simp [role?, ofConnective, Connective.ofSymbol?_eq_some_iff]
  | openBracket =>
      simp [role?, ofConnective]
  | closeBracket =>
      simp [role?, ofConnective]

/-- A token that opens a group is a bracket, whatever its text is. -/
theorem role?_eq_opens_iff {token : Token} :
    token.role? = some .opens ↔ token.kind = .openBracket := by
  cases kind : token.kind <;> simp [role?, kind]

/-- A token that closes a group is a bracket, whatever its text is. -/
theorem role?_eq_closes_iff {token : Token} :
    token.role? = some .closes ↔ token.kind = .closeBracket := by
  cases kind : token.kind <;> simp [role?, kind]

/-- Put a name into an ascending list, unless it is there. -/
def insertName (name : Text) : List Text → List Text
  | [] =>
      [name]
  | first :: rest =>
      if name = first then
        first :: rest
      else if name < first then
        name :: first :: rest
      else
        first :: insertName name rest

/-- The texts of the variable tokens, each once, in ascending byte order. -/
def names (tokens : List Token) : List Text :=
  ((tokens.filter fun token => token.kind = .variableName).map Token.text).foldr
    insertName []

end Token

end Propositional
