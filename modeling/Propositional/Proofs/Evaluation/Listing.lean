import Propositional.Evaluation
import Propositional.Formula
import Propositional.Proofs.Fault

namespace Propositional

/-!
# Evaluating listings of formulas

On any stack the listing of a formula pushes the one step that the formula
denotes and derives the steps of its compound parts.  Conversely every program
that has a result is the listing of a formula: as long as the machine runs, what
it has obeyed is the concatenation of one listing for each operand on its stack.
-/

namespace Assignment

/-- The valuation of an assignment; a name without a value counts as false. -/
def valuation (assignment : Assignment) (name : Text) : Bool :=
  (assignment.value? name).getD false

variable {assignment : Assignment} {name : Text}

/-- The names with a value are the names of the entries. -/
theorem value?_isSome_iff :
    (assignment.value? name).isSome ↔ name ∈ assignment.map Prod.fst := by
  rw [value?, List.lookup_isSome_iff, List.mem_map]
  constructor
  · rintro ⟨entry, member, same⟩
    exact ⟨entry, member, (eq_of_beq same).symm⟩
  · rintro ⟨entry, member, rfl⟩
    exact ⟨entry, member, beq_self_eq_true _⟩

end Assignment

namespace Formula

/-- The truth value of a formula, unless an atom of it has no value. -/
def value? (assignment : Assignment) : Formula → Option Bool
  | .atom name =>
      assignment.value? name
  | .negation operand =>
      (operand.value? assignment).map fun value =>
        truth Connective.negation.symbol [value]
  | .binary operation left right =>
      match left.value? assignment, right.value? assignment with
      | some leftValue, some rightValue =>
          some
            (truth (Connective.binary operation).symbol
              [leftValue, rightValue])
      | _, _ =>
          none

/-- Every atom of a formula has a value. -/
def Covered (assignment : Assignment) (formula : Formula) : Prop :=
  ∀ name ∈ formula.names, (assignment.value? name).isSome

namespace Covered

variable {assignment : Assignment}

theorem value?_eq
    {name : Text}
    (covered : Covered assignment (.atom name)) :
    assignment.value? name = some (assignment.valuation name) := by
  obtain ⟨value, found⟩ :=
    Option.isSome_iff_exists.mp (covered name (by simp [names]))
  rw [Assignment.valuation, found]
  rfl

theorem left
    {operation : Binary}
    {left right : Formula}
    (covered : Covered assignment (.binary operation left right)) :
    Covered assignment left :=
  fun name member => covered name (by simp [names, member])

theorem right
    {operation : Binary}
    {left right : Formula}
    (covered : Covered assignment (.binary operation left right)) :
    Covered assignment right :=
  fun name member => covered name (by simp [names, member])

end Covered

/-- A formula whose atoms all have values has the value of their valuation. -/
theorem value?_eq_eval
    {assignment : Assignment}
    {formula : Formula}
    (covered : formula.Covered assignment) :
    formula.value? assignment =
      some (formula.eval assignment.valuation) := by
  induction formula with
  | atom name =>
      exact covered.value?_eq
  | negation operand inductionHypothesis =>
      rw [value?, inductionHypothesis covered]
      rfl
  | binary operation left right leftHypothesis rightHypothesis =>
      rw [value?, leftHypothesis covered.left, rightHypothesis covered.right]
      rfl

/-- Brackets around a negated operand depend on the admitted precedence. -/
theorem negatedText_toStep
    (valuation : Text → Bool)
    (operand : Formula) :
    (operand.toStep valuation).negatedText =
      delimit Connective.negation.precedence operand.precedence
        operand.print := by
  unfold Step.negatedText delimit
  by_cases looser :
      operand.precedence < Connective.negation.precedence
  · have notAdmitted :
        ¬ Connective.negation.precedence ≤ operand.precedence :=
      Int.not_le.mpr looser
    simp [toStep, looser, notAdmitted, Step.bracketed]
  · have admitted :
        Connective.negation.precedence ≤ operand.precedence :=
      Int.not_lt.mp looser
    simp [toStep, looser, admitted]

/-- The least precedence that a side of a connective admits. -/
def leastOn (operation : Binary) : Side → Int
  | .left =>
      leastLeft operation
  | .right =>
      leastRight operation

/-- An operand stands in brackets exactly if its side does not admit it. -/
theorem isBracketed_toStep
    (valuation : Text → Bool)
    (operand : Formula)
    (operation : Binary)
    (side : Side) :
    (operand.toStep valuation).isBracketed (.binary operation) side = true ↔
      ¬ leastOn operation side ≤ operand.precedence := by
  have precedence :
      (operand.toStep valuation).precedence = operand.precedence := by
    rfl
  rw [Step.isBracketed, precedence]
  cases associates : (Connective.binary operation).associativity <;>
    cases side <;>
    simp only [leastOn, leastLeft, leastRight, associates] <;>
    split <;>
    simp <;>
    omega

/-- Brackets around an operand depend on the precedence that its side admits. -/
theorem operandText_toStep
    (valuation : Text → Bool)
    (operand : Formula)
    (operation : Binary)
    (side : Side) :
    (operand.toStep valuation).operandText (.binary operation) side =
      delimit (leastOn operation side) operand.precedence operand.print := by
  rw [Step.operandText, delimit]
  by_cases admitted : leastOn operation side ≤ operand.precedence
  · have unbracketed :
        ¬ (operand.toStep valuation).isBracketed
          (.binary operation) side = true := by
      rw [isBracketed_toStep]
      exact not_not_intro admitted
    rw [if_neg unbracketed, if_pos admitted]
    rfl
  · have bracketed :=
      (isBracketed_toStep valuation operand operation side).mpr admitted
    rw [if_pos bracketed, if_neg admitted]
    rfl

/-- Negating the step of a formula gives the step of its negation. -/
theorem negation_toStep
    (valuation : Text → Bool)
    (operand : Formula) :
    (operand.toStep valuation).negation =
      (Formula.negation operand).toStep valuation := by
  rw [Step.negation, negatedText_toStep, ← truth_negation]
  rfl

/-- Joining the steps of two formulas gives the step of the joined formula. -/
theorem binary_toStep
    (valuation : Text → Bool)
    (operation : Binary)
    (left right : Formula) :
    Step.binary operation (left.toStep valuation) (right.toStep valuation) =
      (Formula.binary operation left right).toStep valuation := by
  rw [Step.binary, operandText_toStep, operandText_toStep, ← truth_binary]
  rfl

end Formula

namespace Machine

open Formula (Covered)

theorem run_cons
    (assignment : Assignment)
    (machine : Machine)
    (token : Token)
    (program : Program) :
    machine.run assignment (token :: program) =
      machine.step assignment token >>= fun next =>
        next.run assignment program := by
  rfl

theorem step_ofName
    {assignment : Assignment}
    {name : Text}
    {value : Bool}
    (found : assignment.value? name = some value)
    (machine : Machine) :
    machine.step assignment (Token.ofName name) =
      .ok ⟨Step.atomic name value :: machine.operands, machine.derived⟩ := by
  simp [step, Token.ofName, push, found]

theorem step_ofConnective
    (assignment : Assignment)
    (machine : Machine)
    (connective : Connective) :
    machine.step assignment (Token.ofConnective connective) =
      machine.apply connective := by
  simp [step, Token.ofConnective, Connective.ofSymbol?_symbol]

/--
What one step can do: push the value of a name, or push the step that a
connective builds of the operands on the stack.
-/
theorem step_cases
    {assignment : Assignment}
    {machine next : Machine}
    {token : Token}
    (stepped : machine.step assignment token = .ok next) :
    (∃ name value,
        token = Token.ofName name ∧ assignment.value? name = some value ∧
          next =
            ⟨Step.atomic name value :: machine.operands, machine.derived⟩) ∨
      ∃ connective built rest,
        token = Token.ofConnective connective ∧
          connective.build? machine.operands = some (built, rest) ∧
          next = ⟨built :: rest, built :: machine.derived⟩ := by
  rcases token with ⟨kind, text⟩
  cases kind with
  | variableName =>
      simp only [step, push] at stepped
      cases found : assignment.value? text with
      | none =>
          simp [found] at stepped
      | some value =>
          simp only [found, Except.ok.injEq] at stepped
          subst next
          exact .inl ⟨text, value, rfl, found, rfl⟩
  | connectiveSymbol =>
      simp only [step] at stepped
      cases spelled : Connective.ofSymbol? text with
      | none =>
          simp [spelled] at stepped
      | some connective =>
          simp only [spelled, apply] at stepped
          cases builds : connective.build? machine.operands with
          | none =>
              simp [builds] at stepped
          | some pair =>
              obtain ⟨built, rest⟩ := pair
              simp only [builds, Except.ok.injEq] at stepped
              subst next
              rw [Connective.ofSymbol?_eq_some_iff] at spelled
              exact .inr ⟨connective, built, rest,
                by rw [spelled, Token.ofConnective], builds, rfl⟩
  | openBracket =>
      simp [step] at stepped
  | closeBracket =>
      simp [step] at stepped

/-- A machine is finished with the one operand that is left. -/
theorem finish_eq_ok_iff
    {assignment : Assignment}
    {machine : Machine}
    {derivation : Derivation} :
    machine.finish assignment = .ok derivation ↔
      ∃ result,
        machine.operands = [result] ∧
          derivation =
            ⟨assignment.steps, machine.derived.reverse, result⟩ := by
  match operands : machine.operands with
  | [] => simp [finish, operands]
  | [result] => simp [finish, operands, eq_comm]
  | _ :: _ :: _ => simp [finish, operands]

theorem apply_negation
    (valuation : Text → Bool)
    (operand : Formula)
    (operands derived : List Step) :
    (Machine.mk (operand.toStep valuation :: operands) derived).apply
        .negation =
      .ok
        ⟨(Formula.negation operand).toStep valuation :: operands,
          (Formula.negation operand).toStep valuation :: derived⟩ := by
  rw [← Formula.negation_toStep]
  rfl

theorem apply_binary
    (valuation : Text → Bool)
    (operation : Binary)
    (left right : Formula)
    (operands derived : List Step) :
    (Machine.mk
        (right.toStep valuation :: left.toStep valuation :: operands)
        derived).apply (.binary operation) =
      .ok
        ⟨(Formula.binary operation left right).toStep valuation :: operands,
          (Formula.binary operation left right).toStep valuation ::
            derived⟩ := by
  rw [← Formula.binary_toStep]
  rfl

/--
The listing of a formula pushes the step of the formula and derives the steps
of its compound parts, whatever the stack holds and whatever follows.
-/
theorem run_program_append
    {assignment : Assignment}
    {formula : Formula}
    (covered : formula.Covered assignment)
    (machine : Machine)
    (rest : Program) :
    machine.run assignment (formula.program ++ rest) =
      (Machine.mk
        (formula.toStep assignment.valuation :: machine.operands)
        ((formula.steps assignment.valuation).reverse ++
          machine.derived)).run assignment rest := by
  induction formula generalizing machine rest with
  | atom name =>
      rw [Formula.program, List.singleton_append, run_cons,
        step_ofName covered.value?_eq]
      rfl
  | negation operand inductionHypothesis =>
      rw [Formula.program, List.append_assoc,
        inductionHypothesis covered machine, List.singleton_append, run_cons,
        step_ofConnective, apply_negation, Fault.ok_bind]
      simp [Formula.steps]
  | binary operation left right leftHypothesis rightHypothesis =>
      rw [Formula.program, List.append_assoc, List.append_assoc,
        leftHypothesis covered.left machine,
        rightHypothesis covered.right, List.singleton_append, run_cons,
        step_ofConnective, apply_binary, Fault.ok_bind]
      simp [Formula.steps]

end Machine

namespace Formula

/-- The listings of the formulas on a stack, the latest last. -/
def listing (stack : List Formula) : Program :=
  stack.reverse.flatMap program

theorem listing_cons
    (formula : Formula)
    (stack : List Formula) :
    listing (formula :: stack) = listing stack ++ formula.program := by
  simp [listing]

/--
A stack of formulas accounts for the operands of a machine: there is one
covered formula for each of them.
-/
structure Accounts
    (assignment : Assignment)
    (stack : List Formula)
    (operands : List Step) : Prop where
  length_eq :
    stack.length = operands.length
  covered :
    ∀ formula ∈ stack, formula.Covered assignment

namespace Accounts

variable {assignment : Assignment}

/-- A connective that builds a step of the operands joins formulas. -/
theorem build
    {connective : Connective}
    {stack : List Formula}
    {operands rest : List Step}
    {built : Step}
    (accounts : Accounts assignment stack operands)
    (builds : connective.build? operands = some (built, rest)) :
    ∃ later,
      Accounts assignment later (built :: rest) ∧
        listing later =
          listing stack ++ [Token.ofConnective connective] := by
  obtain ⟨length, covered⟩ := accounts
  cases connective with
  | negation =>
      match operands with
      | [] => cases builds
      | _ :: _ =>
          cases builds
          obtain ⟨formula, stack, rfl⟩ :=
            List.exists_cons_of_length_eq_add_one length
          refine ⟨.negation formula :: stack, ⟨length, ?_⟩, ?_⟩
          · obtain ⟨operandCovered, others⟩ := List.forall_mem_cons.mp covered
            exact List.forall_mem_cons.mpr ⟨operandCovered, others⟩
          · simp [listing_cons, program]
  | binary operation =>
      match operands with
      | [] => cases builds
      | [_] => cases builds
      | _ :: _ :: _ =>
          cases builds
          obtain ⟨right, belowRight, rfl⟩ :=
            List.exists_cons_of_length_eq_add_one length
          obtain ⟨left, stack, rfl⟩ :=
            List.exists_cons_of_length_eq_add_one (Nat.succ.inj length)
          refine ⟨.binary operation left right :: stack, ⟨?_, ?_⟩, ?_⟩
          · simpa using length
          · simp only [List.forall_mem_cons] at covered ⊢
            obtain ⟨rightCovered, leftCovered, others⟩ := covered
            refine ⟨?_, others⟩
            intro name member
            rcases List.mem_append.mp member with inLeft | inRight
            · exact leftCovered name inLeft
            · exact rightCovered name inRight
          · simp [listing_cons, program]

/-- One step keeps the account, and the listing grows by the token obeyed. -/
theorem step
    {stack : List Formula}
    {machine next : Machine}
    {token : Token}
    (accounts : Accounts assignment stack machine.operands)
    (stepped : machine.step assignment token = .ok next) :
    ∃ later,
      Accounts assignment later next.operands ∧
        listing later = listing stack ++ [token] := by
  rcases Machine.step_cases stepped with
      ⟨name, value, rfl, found, rfl⟩ |
        ⟨connective, built, rest, rfl, builds, rfl⟩
  · refine ⟨.atom name :: stack, ⟨?_, ?_⟩, ?_⟩
    · simp [accounts.length_eq]
    · refine List.forall_mem_cons.mpr ⟨?_, accounts.covered⟩
      intro other member
      rw [List.mem_singleton.mp member, found]
      rfl
    · rw [listing_cons, program]
  · exact accounts.build builds

/-- A run keeps the account, and the listing grows by the program obeyed. -/
theorem run
    {stack : List Formula}
    {machine final : Machine}
    {program : Program}
    (accounts : Accounts assignment stack machine.operands)
    (ran : machine.run assignment program = .ok final) :
    ∃ later,
      Accounts assignment later final.operands ∧
        listing later = listing stack ++ program := by
  induction program generalizing machine stack with
  | nil =>
      cases ran
      exact ⟨stack, accounts, by simp⟩
  | cons token program inductionHypothesis =>
      obtain ⟨next, stepped, continued⟩ := Fault.bind_eq_ok_iff.mp ran
      obtain ⟨middle, middleAccounts, middleListing⟩ := accounts.step stepped
      obtain ⟨later, laterAccounts, laterListing⟩ :=
        inductionHypothesis middleAccounts continued
      exact ⟨later, laterAccounts, by simp [laterListing, middleListing]⟩

end Accounts

/-- What evaluating the listing of a formula leaves. -/
def derivation (assignment : Assignment) (formula : Formula) : Derivation where
  inputs :=
    assignment.steps
  derived :=
    formula.steps assignment.valuation
  result :=
    formula.toStep assignment.valuation

end Formula

namespace Program

/-- The listing of a formula whose atoms have values evaluates. -/
theorem evaluate_program
    {assignment : Assignment}
    {formula : Formula}
    (covered : formula.Covered assignment) :
    evaluate formula.program assignment =
      .ok (formula.derivation assignment) := by
  have ran :=
    Machine.run_program_append covered Machine.start []
  rw [List.append_nil] at ran
  rw [evaluate, ran]
  simp [Machine.run, Machine.finish, Machine.start, Formula.derivation, bind,
    Except.bind, pure, Except.pure]

/-- A program that has a result is the listing of a formula. -/
theorem exists_formula_of_evaluate
    {assignment : Assignment}
    {program : Program}
    {derivation : Derivation}
    (evaluated : evaluate program assignment = .ok derivation) :
    ∃ formula : Formula,
      program = formula.program ∧
        formula.Covered assignment ∧
        derivation = formula.derivation assignment := by
  obtain ⟨final, ran, finished⟩ := Fault.bind_eq_ok_iff.mp evaluated
  obtain ⟨result, operands, _⟩ := Machine.finish_eq_ok_iff.mp finished
  have empty : Formula.Accounts assignment [] Machine.start.operands :=
    ⟨rfl, by simp⟩
  obtain ⟨stack, accounts, listed⟩ := empty.run ran
  obtain ⟨formula, rfl⟩ : ∃ formula, stack = [formula] := by
    apply List.length_eq_one_iff.mp
    rw [accounts.length_eq, operands]
    rfl
  have covered := accounts.covered formula (by simp)
  have isListing : program = formula.program := by
    simpa [Formula.listing] using listed.symm
  refine ⟨formula, isListing, covered, ?_⟩
  rw [isListing, evaluate_program covered] at evaluated
  exact (Except.ok.inj evaluated).symm

end Program

end Propositional
