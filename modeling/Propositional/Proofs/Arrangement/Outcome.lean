import Propositional.Proofs.Arrangement.Conservation
import Propositional.Proofs.Brackets
import Propositional.Proofs.Refusal

namespace Propositional

/-!
# How arranging ends

A token list is read as far as every token has a role in an infix list and every
closing bracket has an open one before it.  The groups around an arrangement are
exactly the brackets that are open, so the depth of the brackets read decides,
together with the token itself, whether a token is refused, and at the end
whether there is a program.
-/

namespace Token

/--
A token with a role in an infix list: a variable named by a capital letter, whose
code is from 65 to 90, a symbol of the catalogue, or a bracket, whatever the text
of the bracket is.
-/
inductive HasRole : Token → Prop where
  | variableName
      {byte : Byte} :
      65 ≤ byte.toNat →
      byte.toNat ≤ 90 →
      HasRole (ofName [byte])
  | symbol
      (connective : Connective) :
      HasRole (ofConnective connective)
  | bracket
      {token : Token} :
      token.isBracket = true →
      HasRole token

/-- A token has no role exactly if the look-up of its role finds none. -/
theorem role?_eq_none_iff {token : Token} :
    token.role? = none ↔ ¬ token.HasRole := by
  constructor
  · intro absent hasRole
    cases hasRole with
    | variableName lower upper =>
        have capital := Byte.isUpper_iff.mpr ⟨lower, upper⟩
        simp [role?, ofName, namesVariable, capital] at absent
    | symbol connective =>
        simp [role?_ofConnective] at absent
    | bracket bracket =>
        cases kind : token.kind <;> simp_all [isBracket, role?]
  · intro noRole
    rcases token with ⟨kind, text⟩
    cases kind with
    | variableName =>
        cases named : namesVariable text with
        | false =>
            simp [role?, named]
        | true =>
            obtain ⟨byte, rfl, capital⟩ := namesVariable_iff.mp named
            obtain ⟨lower, upper⟩ := Byte.isUpper_iff.mp capital
            exact absurd (.variableName lower upper) noRole
    | connectiveSymbol =>
        cases spelled : Connective.ofSymbol? text with
        | none =>
            simp [role?, spelled]
        | some connective =>
            rw [Connective.ofSymbol?_eq_some_iff] at spelled
            subst spelled
            exact absurd (.symbol connective) noRole
    | openBracket | closeBracket =>
        exact absurd (.bracket rfl) noRole

/-- How many more brackets a list opens than it closes. -/
def depth (tokens : List Token) : Int :=
  Brackets.depth turn tokens

/-- A token that cannot be read after the tokens before it. -/
inductive Misplaced (before : List Token) : Token → Fault → Prop where
  /-- A token without a role. -/
  | unexpected
      {token : Token} :
      ¬ token.HasRole →
      Misplaced before token (.unexpectedToken token.text)
  /-- A closing bracket where no bracket is open. -/
  | unopened
      {token : Token} :
      token.kind = .closeBracket →
      depth before = 0 →
      Misplaced before token .unmatchedClosing

end Token

namespace Arrangement

variable {arrangement : Arrangement}

/-- The groups around an arrangement follow the depth of the brackets. -/
theorem step_depth
    {next : Arrangement}
    {token : Token}
    (stepped : arrangement.step token = .ok next) :
    (next.enclosing.length : Int) =
      arrangement.enclosing.length + token.turn := by
  rcases step_cases stepped with
      ⟨variableName, _, rfl⟩ | ⟨incoming, rfl, rfl⟩ | ⟨opening, rfl⟩ |
        ⟨around, outer, closing, groups, rfl⟩
  · simp [addOperand, Token.turn, variableName]
  · simp [addConnective, Token.turn, Token.ofConnective]
  · simp [openGroup, Token.turn, opening]
  · simp [Token.turn, closing, groups]

theorem run_depth
    {final : Arrangement}
    {tokens : List Token}
    (ran : arrangement.run tokens = .ok final) :
    (final.enclosing.length : Int) =
      arrangement.enclosing.length + Token.depth tokens := by
  induction tokens generalizing arrangement with
  | nil =>
      cases ran
      exact (Int.add_zero _).symm
  | cons token tokens inductionHypothesis =>
      obtain ⟨next, stepped, continued⟩ := Fault.bind_eq_ok_iff.mp ran
      have first := step_depth stepped
      have later := inductionHypothesis continued
      rw [Token.depth, Brackets.depth_cons]
      rw [Token.depth] at later
      omega

/-- From the start, the groups around an arrangement are the open brackets. -/
theorem depth_of_run_start
    {tokens : List Token}
    (ran : start.run tokens = .ok arrangement) :
    Token.depth tokens = arrangement.enclosing.length := by
  have grown := run_depth ran
  rw [start, List.length_nil] at grown
  omega

/-- A step fails at a token without a role, or at a bracket closing no group. -/
theorem step_eq_error_iff
    {token : Token}
    {fault : Fault} :
    arrangement.step token = .error fault ↔
      (¬ token.HasRole ∧ fault = .unexpectedToken token.text) ∨
        token.kind = .closeBracket ∧ arrangement.enclosing = [] ∧
          fault = .unmatchedClosing := by
  constructor
  · intro failed
    unfold step at failed
    match role : token.role? with
    | none =>
        simp only [role, Except.error.injEq] at failed
        exact .inl ⟨Token.role?_eq_none_iff.mp role, failed.symm⟩
    | some .operand | some (.connective _) | some .opens =>
        simp only [role, reduceCtorEq] at failed
    | some .closes =>
        have closing := Token.role?_eq_closes_iff.mp role
        cases groups : arrangement.enclosing with
        | nil =>
            simp only [role, closeGroup, groups, Except.error.injEq] at failed
            exact .inr ⟨closing, rfl, failed.symm⟩
        | cons around outer =>
            simp only [role, closeGroup, groups, reduceCtorEq] at failed
  · rintro (⟨noRole, rfl⟩ | ⟨closing, outside, rfl⟩)
    · rw [step, Token.role?_eq_none_iff.mpr noRole]
    · have role := Token.role?_eq_closes_iff.mpr closing
      simp only [step, role, closeGroup, outside]

/-- A run from the start refuses exactly the misplaced tokens. -/
theorem describes_misplaced :
    Fault.Describes Token.Misplaced step start where
  step_iff := by
    intro before arrangement ran token fault
    have nested := depth_of_run_start ran
    rw [step_eq_error_iff]
    constructor
    · rintro (⟨noRole, rfl⟩ | ⟨closing, outside, rfl⟩)
      · exact .unexpected noRole
      · rw [outside] at nested
        exact .unopened closing nested
    · intro misplaced
      cases misplaced with
      | unexpected noRole =>
          exact .inl ⟨noRole, rfl⟩
      | unopened closing atEdge =>
          have outside : arrangement.enclosing = [] := by
            apply List.eq_nil_of_length_eq_zero
            omega
          exact .inr ⟨closing, outside, rfl⟩

/-- An arrangement has a program exactly if no bracket is open. -/
theorem exists_finish_iff :
    (∃ program, arrangement.finish = .ok program) ↔
      arrangement.enclosing = [] := by
  constructor
  · rintro ⟨program, finished⟩
    exact (finish_eq_ok_iff.mp finished).1
  · intro closed
    exact ⟨_, finish_eq_ok_iff.mpr ⟨closed, rfl⟩⟩

/-- An arrangement is finished unless a bracket is open. -/
theorem finish_eq_error_iff
    {fault : Fault} :
    arrangement.finish = .error fault ↔
      arrangement.enclosing ≠ [] ∧ fault = .unclosedOpening := by
  cases groups : arrangement.enclosing with
  | nil =>
      simp [finish, groups]
  | cons around outer =>
      simp [finish, groups, eq_comm]

end Arrangement

namespace Program

open Fault (Admits FailsWith FirstRefused)
open Token (Misplaced)

/--
A token list has a program exactly if every token is in place and every bracket
is closed.
-/
theorem exists_ofTokens_iff {tokens : List Token} :
    (∃ program, ofTokens tokens = .ok program) ↔
      Admits Misplaced tokens ∧ Token.depth tokens = 0 := by
  refine Arrangement.describes_misplaced.exists_finished_iff ?_
  intro final ran
  rw [Arrangement.exists_finish_iff, Arrangement.depth_of_run_start ran,
    Int.natCast_eq_zero, List.length_eq_zero_iff]

/--
A token list has the fault of its first misplaced token, and if there is none,
that of a bracket which is still open at the end.
-/
theorem ofTokens_eq_error_iff
    {tokens : List Token}
    {fault : Fault} :
    ofTokens tokens = .error fault ↔
      FirstRefused Misplaced tokens fault ∨
        Admits Misplaced tokens ∧ 0 < Token.depth tokens ∧
          fault = .unclosedOpening := by
  refine Arrangement.describes_misplaced.finished_eq_error_iff ?_
  intro final ran
  rw [Arrangement.finish_eq_error_iff, Arrangement.depth_of_run_start ran,
    Int.natCast_pos, List.length_pos_iff]

/-- The first token that is misplaced is the fault of the list. -/
theorem ofTokens_of_misplaced
    {before after : List Token}
    {token : Token}
    {fault : Fault}
    (admitted : Admits Misplaced before)
    (misplaced : Misplaced before token fault) :
    ofTokens (before ++ token :: after) = .error fault :=
  ofTokens_eq_error_iff.mpr (.inl (.refused admitted misplaced))

/-- A token without a role is unexpected. -/
theorem failsWith_of_noRole
    {before after : List Token}
    {token : Token}
    (admitted : Admits Misplaced before)
    (noRole : ¬ token.HasRole) :
    FailsWith (ofTokens (before ++ token :: after))
      .unexpectedToken token.text :=
  ⟨_, ofTokens_of_misplaced admitted (.unexpected noRole), rfl, rfl⟩

/-- A closing bracket where no bracket is open is mismatched. -/
theorem failsWith_of_unopened
    {before after : List Token}
    {token : Token}
    (admitted : Admits Misplaced before)
    (closing : token.kind = .closeBracket)
    (outside : Token.depth before = 0) :
    FailsWith (ofTokens (before ++ token :: after))
      .mismatchedParentheses (Text.ascii ")") :=
  ⟨_, ofTokens_of_misplaced admitted (.unopened closing outside), rfl, rfl⟩

/-- An opening bracket that is not closed is mismatched. -/
theorem failsWith_of_unclosed
    {tokens : List Token}
    (admitted : Admits Misplaced tokens)
    (inside : 0 < Token.depth tokens) :
    FailsWith (ofTokens tokens)
      .mismatchedParentheses (Text.ascii "(") :=
  ⟨_, ofTokens_eq_error_iff.mpr (.inr ⟨admitted, inside, rfl⟩), rfl, rfl⟩

/--
A token list ends in exactly one way.  Read from the left, the first token that
has no role or closes a bracket where none is open is its fault: an unexpected
token of that text, or a closing bracket without an opening one.  If every token
is in place, an opening bracket that is not closed is its fault, and otherwise it
has a program.
-/
theorem ofTokens_outcome (tokens : List Token) :
    ((∃ program, ofTokens tokens = .ok program) ↔
        Admits Misplaced tokens ∧ Token.depth tokens = 0) ∧
      (∀ fault,
        ofTokens tokens = .error fault ↔
          FirstRefused Misplaced tokens fault ∨
            Admits Misplaced tokens ∧ 0 < Token.depth tokens ∧
              fault = .unclosedOpening) ∧
      (∀ before token after,
        tokens = before ++ token :: after →
          Admits Misplaced before →
            (¬ token.HasRole →
                FailsWith (ofTokens tokens) .unexpectedToken token.text) ∧
              (token.kind = .closeBracket →
                Token.depth before = 0 →
                  FailsWith (ofTokens tokens)
                    .mismatchedParentheses (Text.ascii ")"))) ∧
      (Admits Misplaced tokens →
        0 < Token.depth tokens →
          FailsWith (ofTokens tokens)
            .mismatchedParentheses (Text.ascii "(")) := by
  refine
    ⟨exists_ofTokens_iff, fun _ => ofTokens_eq_error_iff, ?_,
      failsWith_of_unclosed⟩
  rintro before token after rfl admitted
  constructor
  · exact failsWith_of_noRole admitted
  · exact failsWith_of_unopened admitted

end Program

end Propositional
