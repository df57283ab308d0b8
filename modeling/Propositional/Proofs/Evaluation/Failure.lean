import Propositional.Proofs.Evaluation.Listing

namespace Propositional

/-!
# Failing steps

Which fault stops a machine depends on the token that it obeys, on the names
that have values and on the height of its stack, but on no value and no text.  A
machine that stops nowhere fails only if it leaves other than one operand.
-/

namespace Machine

variable {assignment : Assignment} {machine : Machine}

/-- The fault of a token on a stack of some height, as far as it has one. -/
inductive Refuses
    (assignment : Assignment)
    (height : Nat) :
    Token → Fault → Prop where
  /-- A variable without a value. -/
  | unbound
      {name : Text} :
      assignment.value? name = none →
      Refuses assignment height (Token.ofName name) (.unknownVariable name)
  /-- A symbol outside the catalogue. -/
  | unspelled
      {text : Text} :
      Connective.ofSymbol? text = none →
      Refuses assignment height
        ⟨.connectiveSymbol, text⟩ (.unexpectedInstruction text)
  /-- A bracket. -/
  | bracket
      {token : Token} :
      token.kind = .openBracket ∨ token.kind = .closeBracket →
      Refuses assignment height token (.unexpectedInstruction token.text)
  /-- A connective above too few operands. -/
  | starved
      {connective : Connective} :
      height < connective.arity →
      Refuses assignment height
        (Token.ofConnective connective) (.insufficientOperands connective)

namespace Refuses

variable {height : Nat} {token : Token} {fault : Fault}

/-- The fault of an instruction has no place in a text. -/
theorem position?_eq_none
    (refuses : Refuses assignment height token fault) :
    fault.position? = none := by
  cases refuses <;> rfl

/-- A variable with a value and a connective can only find too few operands. -/
theorem kind_eq
    (refuses : Refuses assignment height token fault)
    (instruction :
      (∃ name, token = Token.ofName name ∧
          (assignment.value? name).isSome) ∨
        ∃ connective, token = Token.ofConnective connective) :
    fault.kind = .insufficientOperands := by
  cases refuses with
  | unbound absent =>
      rcases instruction with ⟨name, isName, bound⟩ | ⟨connective, isSymbol⟩
      · cases isName
        simp [absent] at bound
      · cases isSymbol
  | unspelled absent =>
      rcases instruction with ⟨name, isName, _⟩ | ⟨connective, isSymbol⟩
      · cases isName
      · cases isSymbol
        rw [Connective.ofSymbol?_symbol] at absent
        cases absent
  | bracket isBracket =>
      rcases instruction with ⟨name, rfl, _⟩ | ⟨connective, rfl⟩
      · simp [Token.ofName] at isBracket
      · simp [Token.ofConnective] at isBracket
  | starved below =>
      rfl

end Refuses

/-- A machine fails at a token exactly if the token is refused at its height. -/
theorem step_eq_error_iff
    {token : Token}
    {fault : Fault} :
    machine.step assignment token = .error fault ↔
      Refuses assignment machine.operands.length token fault := by
  constructor
  · intro failed
    rcases token with ⟨kind, text⟩
    cases kind with
    | variableName =>
        simp only [step, push] at failed
        cases found : assignment.value? text with
        | none =>
            simp only [found, Except.error.injEq] at failed
            rw [← failed]
            exact .unbound found
        | some value =>
            simp [found] at failed
    | connectiveSymbol =>
        simp only [step] at failed
        cases spelled : Connective.ofSymbol? text with
        | none =>
            simp only [spelled, Except.error.injEq] at failed
            rw [← failed]
            exact .unspelled spelled
        | some connective =>
            simp only [spelled, apply] at failed
            rw [Connective.ofSymbol?_eq_some_iff] at spelled
            cases builds : connective.build? machine.operands with
            | none =>
                simp only [builds, Except.error.injEq] at failed
                rw [← failed, spelled]
                exact .starved (Connective.build?_eq_none_iff.mp builds)
            | some pair =>
                simp [builds] at failed
    | openBracket =>
        cases failed
        exact .bracket (.inl rfl)
    | closeBracket =>
        cases failed
        exact .bracket (.inr rfl)
  · intro refuses
    cases refuses with
    | unbound absent =>
        simp [step, Token.ofName, push, absent]
    | unspelled absent =>
        simp [step, absent]
    | bracket isBracket =>
        rcases isBracket with isOpening | isClosing
        · simp [step, isOpening]
        · simp [step, isClosing]
    | starved below =>
        rw [step_ofConnective, apply, Connective.build?_eq_none_iff.mpr below]

/-- A run that is finished without a result leaves other than one operand. -/
theorem finish_eq_error_iff
    {fault : Fault} :
    machine.finish assignment = .error fault ↔
      machine.operands.length ≠ 1 ∧
        fault = .malformedResult machine.operands.length := by
  match operands : machine.operands with
  | [] => simp [finish, operands, eq_comm]
  | [result] => simp [finish, operands]
  | _ :: _ :: _ => simp [finish, operands, eq_comm]

end Machine

end Propositional
