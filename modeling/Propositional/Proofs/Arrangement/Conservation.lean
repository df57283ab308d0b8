import Propositional.Arrangement
import Propositional.Proofs.Fault
import Propositional.Proofs.Token.Names

namespace Propositional

/-!
# What arranging keeps

Arranging loses no token and invents none: the program is a permutation of the
tokens that are no brackets, and its variables stand in their old order.  The
invariant counts the waiting connectives, those around open brackets included,
as tokens still to be emitted.
-/

namespace Token

/-- Whether a token is a bracket. -/
def isBracket (token : Token) : Bool :=
  token.kind = .openBracket || token.kind = .closeBracket

/-- By how much a token deepens the nesting of a token list. -/
def turn (token : Token) : Int :=
  match token.kind with
  | .openBracket =>
      1
  | .closeBracket =>
      -1
  | .variableName | .connectiveSymbol =>
      0

/-- The variable tokens of a list, in their order. -/
def variableTokens (tokens : List Token) : List Token :=
  tokens.filter fun token => token.kind = .variableName

/-- The tokens of a list that are no brackets, in their order. -/
def withoutBrackets (tokens : List Token) : List Token :=
  tokens.filter fun token => !token.isBracket

theorem variableTokens_append
    (first second : List Token) :
    variableTokens (first ++ second) = variableTokens first ++ variableTokens second := by
  exact List.filter_append first second

theorem variableTokens_map_ofConnective (connectives : List Connective) :
    variableTokens (connectives.map ofConnective) = [] := by
  simp [variableTokens, ofConnective]

end Token

namespace Arrangement

open Token (variableTokens withoutBrackets)

/--
What one step can do: emit an operand, let a connective wait, open a group, or
close the innermost one.
-/
theorem step_cases
    {arrangement next : Arrangement}
    {token : Token}
    (stepped : arrangement.step token = .ok next) :
    (token.kind = .variableName ∧ Token.namesVariable token.text = true ∧
        next = arrangement.addOperand token) ∨
      (∃ incoming,
        token = Token.ofConnective incoming ∧
          next = arrangement.addConnective incoming) ∨
      (token.kind = .openBracket ∧ next = arrangement.openGroup) ∨
      ∃ around outer,
        token.kind = .closeBracket ∧
          arrangement.enclosing = around :: outer ∧
          next =
            ⟨emit arrangement.waiting arrangement.emitted, around, outer⟩ := by
  cases role : token.role? with
  | none =>
      simp [step, role] at stepped
  | some part =>
      simp only [step, role] at stepped
      cases part with
      | operand =>
          cases stepped
          cases kind : token.kind <;> simp_all [Token.role?]
      | connective incoming =>
          cases stepped
          exact .inr (.inl ⟨incoming, Token.role?_eq_connective_iff.mp role, rfl⟩)
      | opens =>
          cases stepped
          have opening := Token.role?_eq_opens_iff.mp role
          exact .inr (.inr (.inl ⟨opening, rfl⟩))
      | closes =>
          have closing := Token.role?_eq_closes_iff.mp role
          cases groups : arrangement.enclosing with
          | nil =>
              simp [closeGroup, groups] at stepped
          | cons around outer =>
              simp only [closeGroup, groups, Except.ok.injEq] at stepped
              exact .inr (.inr (.inr ⟨around, outer, closing, rfl, stepped.symm⟩))

/-- The tokens emitted and still to be emitted. -/
def contents (arrangement : Arrangement) : List Token :=
  arrangement.emitted ++
    (arrangement.waiting ++ arrangement.enclosing.flatten).map
      Token.ofConnective

theorem emit_perm
    (connectives : List Connective)
    (emitted : List Token) :
    (emit connectives emitted).Perm
      (emitted ++ connectives.map Token.ofConnective) := by
  unfold emit
  exact (List.perm_append_comm).trans
    ((List.reverse_perm _).append_left emitted)

theorem variableTokens_emit
    (connectives : List Connective)
    (emitted : List Token) :
    variableTokens (emit connectives emitted) = variableTokens emitted := by
  rw [emit, ← List.map_reverse, Token.variableTokens_append,
    Token.variableTokens_map_ofConnective, List.nil_append]

theorem contents_addConnective_perm
    (arrangement : Arrangement)
    (incoming : Connective) :
    (arrangement.addConnective incoming).contents.Perm
      (Token.ofConnective incoming :: arrangement.contents) := by
  rw [List.perm_iff_count]
  intro token
  have divided :
      (arrangement.waiting.map Token.ofConnective).count token =
        ((arrangement.waiting.takeWhile
            (Connective.actsBefore · incoming)).map
          Token.ofConnective).count token +
        ((arrangement.waiting.dropWhile
            (Connective.actsBefore · incoming)).map
          Token.ofConnective).count token := by
    rw [← List.count_append, ← List.map_append,
      List.takeWhile_append_dropWhile]
  simp only [contents, addConnective, emit, List.map_append, List.map_cons,
    List.cons_append, List.count_append, List.count_cons, List.count_reverse,
    divided]
  omega

/-- A step adds the token it reads to the contents, unless it is a bracket. -/
theorem step_contents_perm
    {arrangement next : Arrangement}
    {token : Token}
    (stepped : arrangement.step token = .ok next) :
    next.contents.Perm (withoutBrackets [token] ++ arrangement.contents) := by
  rcases step_cases stepped with
      ⟨variableName, _, rfl⟩ | ⟨incoming, rfl, rfl⟩ | ⟨opening, rfl⟩ |
        ⟨around, outer, closing, groups, rfl⟩
  · simp [contents, addOperand, withoutBrackets, Token.isBracket, variableName]
  · simpa [withoutBrackets, Token.isBracket, Token.ofConnective] using
      arrangement.contents_addConnective_perm incoming
  · simp [contents, openGroup, withoutBrackets, Token.isBracket, opening]
  · have emitted :=
      (emit_perm arrangement.waiting arrangement.emitted).append_right
        ((around ++ outer.flatten).map Token.ofConnective)
    simpa [contents, withoutBrackets, Token.isBracket, closing, groups] using
      emitted

/-- A run adds the tokens it reads to the contents, except the brackets. -/
theorem run_contents_perm
    {arrangement final : Arrangement}
    {tokens : List Token}
    (ran : arrangement.run tokens = .ok final) :
    final.contents.Perm (withoutBrackets tokens ++ arrangement.contents) := by
  induction tokens generalizing arrangement with
  | nil =>
      cases ran
      exact List.Perm.refl _
  | cons token tokens inductionHypothesis =>
      obtain ⟨next, stepped, later⟩ := Fault.bind_eq_ok_iff.mp ran
      have kept := inductionHypothesis later
      have added := step_contents_perm stepped
      have whole :
          withoutBrackets (token :: tokens) =
            withoutBrackets [token] ++ withoutBrackets tokens := by
        exact List.filter_append [token] tokens
      calc
        final.contents.Perm
            (withoutBrackets tokens ++ next.contents) := kept
        _ |>.Perm
            (withoutBrackets tokens ++
              (withoutBrackets [token] ++ arrangement.contents)) :=
          added.append_left _
        _ |>.Perm
            (withoutBrackets (token :: tokens) ++ arrangement.contents) := by
          rw [whole, ← List.append_assoc]
          exact List.perm_append_comm.append_right _

/-- A step emits the variable it reads, and no other one. -/
theorem step_variableTokens
    {arrangement next : Arrangement}
    {token : Token}
    (stepped : arrangement.step token = .ok next) :
    variableTokens next.emitted =
      variableTokens [token] ++ variableTokens arrangement.emitted := by
  rcases step_cases stepped with
      ⟨variableName, _, rfl⟩ | ⟨incoming, rfl, rfl⟩ | ⟨opening, rfl⟩ |
        ⟨around, outer, closing, groups, rfl⟩
  · simp [addOperand, variableTokens, variableName]
  · rw [addConnective]
    simpa [variableTokens, Token.ofConnective] using
      variableTokens_emit _ arrangement.emitted
  · simp [openGroup, variableTokens, opening]
  · rw [variableTokens_emit]
    simp [variableTokens, closing]

/-- A run emits the variables it reads in their order. -/
theorem run_variableTokens
    {arrangement final : Arrangement}
    {tokens : List Token}
    (ran : arrangement.run tokens = .ok final) :
    variableTokens final.emitted =
      (variableTokens tokens).reverse ++
        variableTokens arrangement.emitted := by
  induction tokens generalizing arrangement with
  | nil =>
      cases ran
      rfl
  | cons token tokens inductionHypothesis =>
      obtain ⟨next, stepped, later⟩ := Fault.bind_eq_ok_iff.mp ran
      have whole :
          variableTokens (token :: tokens) =
            variableTokens [token] ++ variableTokens tokens := by
        exact Token.variableTokens_append [token] tokens
      have single :
          (variableTokens [token]).reverse = variableTokens [token] := by
        cases kind : token.kind <;> simp [variableTokens, kind]
      rw [inductionHypothesis later, step_variableTokens stepped, whole,
        List.reverse_append, single, List.append_assoc]

/-- An arrangement without open groups is finished by emitting what waits. -/
theorem finish_eq_ok_iff
    {arrangement : Arrangement}
    {program : Program} :
    arrangement.finish = .ok program ↔
      arrangement.enclosing = [] ∧
        program = (emit arrangement.waiting arrangement.emitted).reverse := by
  cases groups : arrangement.enclosing with
  | nil =>
      simp [finish, groups, eq_comm]
  | cons around outer =>
      simp [finish, groups]

end Arrangement

namespace Program

open Token (variableTokens withoutBrackets)

/-- The program of a token list is a permutation of its tokens without brackets. -/
theorem perm_of_ofTokens
    {tokens : List Token}
    {program : Program}
    (arranged : ofTokens tokens = .ok program) :
    program.Perm (withoutBrackets tokens) := by
  obtain ⟨final, ran, finished⟩ := Fault.bind_eq_ok_iff.mp arranged
  obtain ⟨closed, rfl⟩ := Arrangement.finish_eq_ok_iff.mp finished
  have kept := Arrangement.run_contents_perm ran
  have emitted := Arrangement.emit_perm final.waiting final.emitted
  refine (List.reverse_perm _).trans (emitted.trans ?_)
  simpa [Arrangement.contents, Arrangement.start, closed] using kept

/-- The program of a token list has as many tokens of every connective. -/
theorem count_ofConnective_of_ofTokens
    {tokens : List Token}
    {program : Program}
    (arranged : ofTokens tokens = .ok program)
    (connective : Connective) :
    program.count (Token.ofConnective connective) =
      tokens.count (Token.ofConnective connective) := by
  rw [(perm_of_ofTokens arranged).count_eq]
  exact List.count_filter rfl

/-- The program of a token list has its variables in the same order. -/
theorem variableTokens_of_ofTokens
    {tokens : List Token}
    {program : Program}
    (arranged : ofTokens tokens = .ok program) :
    variableTokens program = variableTokens tokens := by
  obtain ⟨final, ran, finished⟩ := Fault.bind_eq_ok_iff.mp arranged
  obtain ⟨closed, rfl⟩ := Arrangement.finish_eq_ok_iff.mp finished
  have emitted :=
    Arrangement.variableTokens_emit final.waiting final.emitted
  have kept := Arrangement.run_variableTokens ran
  rw [variableTokens, List.filter_reverse]
  unfold variableTokens at emitted kept
  rw [emitted, kept]
  simp [Arrangement.start, variableTokens]

/-- A token list and its program have the same names. -/
theorem names_of_ofTokens
    {tokens : List Token}
    {program : Program}
    (arranged : ofTokens tokens = .ok program) :
    Token.names program = Token.names tokens :=
  Token.names_congr (variableTokens_of_ofTokens arranged)

end Program

end Propositional
