import Propositional.Proofs.Arrangement.Substitution
import Propositional.Proofs.Token.Cancellation

namespace Propositional

/-!
# Dropping a pair of negation signs from a token list

Nothing acts before a negation, and whatever makes one negation act makes its
neighbour act as well.  So two neighbouring negations wait together, in whatever
bracket they were read, and are emitted together.  Without them everything else
is read as before, in well-formed lists and in others.
-/

namespace Exchanged

variable {α : Type} {item : α} {first second : List α}

/--
A test that a repeated item passes ends in both lists at the same place: before
the pair, or after it.
-/
theorem takeWhile_dropWhile_cases
    (exchanged : Exchanged [item, item] [] first second)
    (test : α → Bool)
    (passes : test item = true) :
    (first.takeWhile test = second.takeWhile test ∧
        Exchanged [item, item] []
          (first.dropWhile test) (second.dropWhile test)) ∨
      Exchanged [item, item] []
          (first.takeWhile test) (second.takeWhile test) ∧
        first.dropWhile test = second.dropWhile test := by
  obtain ⟨front, back⟩ := exchanged
  induction front with
  | nil =>
      right
      simpa [passes] using
        @within _ [item, item] [] [] (back.takeWhile test)
  | cons other front inductionHypothesis =>
      cases otherPasses : test other with
      | false =>
          left
          simpa [otherPasses] using
            @within _ [item, item] [] (other :: front) back
      | true =>
          rcases inductionHypothesis with ⟨taken, dropped⟩ | ⟨taken, dropped⟩
          · left
            simpa [otherPasses] using And.intro taken dropped
          · right
            simpa [otherPasses] using And.intro (taken.cons other) dropped

end Exchanged

namespace Arrangement

open Token (negationSign)

/-- A negation waits on top of everything that waits. -/
theorem addConnective_negation (arrangement : Arrangement) :
    arrangement.addConnective .negation =
      { arrangement with
        waiting := .negation :: arrangement.waiting } := by
  have staying :
      (Connective.actsBefore · .negation) = fun _ => false :=
    funext Connective.not_actsBefore_negation
  simp only [addConnective, staying]
  cases waiting : arrangement.waiting <;> rfl

/--
Two arrangements of which the first has a pair of negations more: emitted,
waiting in the innermost bracket, or waiting around another bracket.
-/
inductive Paired : Arrangement → Arrangement → Prop where
  | emitted
      {first second : Arrangement} :
      Exchanges [negationSign, negationSign] [] first second →
      Paired first second
  | waiting
      {emitted : List Token}
      {first second : List Connective}
      {enclosing : List (List Connective)} :
      Exchanged [.negation, .negation] [] first second →
      Paired ⟨emitted, first, enclosing⟩ ⟨emitted, second, enclosing⟩
  | enclosing
      {emitted : List Token}
      {waiting first second : List Connective}
      {inner outer : List (List Connective)} :
      Exchanged [.negation, .negation] [] first second →
      Paired
        ⟨emitted, waiting, inner ++ first :: outer⟩
        ⟨emitted, waiting, inner ++ second :: outer⟩

namespace Paired

/-- A pair that acts is emitted side by side. -/
theorem emit
    {acting others : List Connective}
    (exchanged : Exchanged [.negation, .negation] [] acting others)
    (emitted : List Token)
    (waiting : List Connective)
    (enclosing : List (List Connective)) :
    Exchanges [negationSign, negationSign] []
      ⟨Arrangement.emit acting emitted, waiting, enclosing⟩
      ⟨Arrangement.emit others emitted, waiting, enclosing⟩ := by
  have signs := (exchanged.map Token.ofConnective).reverse.append [] emitted
  exact .emitted signs

/-- A connective makes both negations of a waiting pair act, or neither. -/
theorem addConnective
    {first second : List Connective}
    (exchanged : Exchanged [.negation, .negation] [] first second)
    (emitted : List Token)
    (enclosing : List (List Connective))
    (incoming : Connective) :
    Paired
      (Arrangement.addConnective ⟨emitted, first, enclosing⟩ incoming)
      (Arrangement.addConnective ⟨emitted, second, enclosing⟩ incoming) := by
  cases incoming with
  | negation =>
      simp only [addConnective_negation]
      exact .waiting (exchanged.cons .negation)
  | binary operation =>
      have acts :
          Connective.negation.actsBefore (.binary operation) = true := by
        cases operation <;> rfl
      unfold Arrangement.addConnective
      rcases exchanged.takeWhile_dropWhile_cases
          (Connective.actsBefore · (.binary operation)) acts with
          ⟨taken, dropped⟩ | ⟨taken, dropped⟩
      · simp only [taken]
        exact .waiting (dropped.cons (.binary operation))
      · simp only [dropped]
        exact .emitted (emit taken emitted _ enclosing)

/-- Every token keeps the pair together. -/
theorem step
    {first second : Arrangement}
    (paired : Paired first second)
    (token : Token) :
    Fault.Agree Paired (first.step token) (second.step token) := by
  cases paired with
  | emitted exchanges =>
      exact (exchanges.step token).mono .emitted
  | @waiting emitted first second enclosing exchanged =>
      unfold Arrangement.step
      match token.role? with
      | none =>
          exact .error _
      | some .operand =>
          exact .ok (.waiting exchanged)
      | some (.connective incoming) =>
          exact .ok (addConnective exchanged emitted enclosing incoming)
      | some .opens =>
          have around :=
            @Paired.enclosing emitted [] first second [] enclosing exchanged
          exact .ok around
      | some .closes =>
          cases enclosing with
          | nil =>
              exact .error _
          | cons around outer =>
              exact .ok (.emitted (emit exchanged emitted around outer))
  | @enclosing emitted waiting first second inner outer exchanged =>
      unfold Arrangement.step
      match token.role? with
      | none =>
          exact .error _
      | some .operand =>
          exact .ok (.enclosing exchanged)
      | some (.connective incoming) =>
          exact .ok (.enclosing exchanged)
      | some .opens =>
          have around :=
            @Paired.enclosing emitted [] first second (waiting :: inner) outer
              exchanged
          exact .ok around
      | some .closes =>
          cases inner with
          | nil =>
              exact .ok (.waiting exchanged)
          | cons around inner =>
              exact .ok (.enclosing exchanged)

/-- What still waits at the end is emitted with the pair side by side. -/
theorem finish
    {first second : Arrangement}
    (paired : Paired first second) :
    Fault.Agree (Exchanged [negationSign, negationSign] [])
      first.finish second.finish := by
  cases paired with
  | emitted exchanges =>
      exact exchanges.finish
  | @waiting emitted first second enclosing exchanged =>
      cases enclosing with
      | nil =>
          exact (emit exchanged emitted [] []).finish
      | cons around outer =>
          exact .error _
  | @enclosing emitted waiting first second inner outer exchanged =>
      cases inner with
      | nil =>
          exact .error _
      | cons around inner =>
          exact .error _

theorem simulation :
    Simulation Paired (Exchanged [negationSign, negationSign] []) where
  step :=
    step
  finish :=
    finish

/-- Reading a pair of negation signs makes it wait. -/
theorem run_pair (arrangement : Arrangement) :
    Fault.Agree Paired
      (arrangement.run [negationSign, negationSign]) (arrangement.run []) := by
  have read :
      arrangement.run [negationSign, negationSign] =
        .ok
          { arrangement with
            waiting := .negation :: .negation :: arrangement.waiting } := by
    simp only [run_cons, step_ofConnective, addConnective_negation,
      Fault.ok_bind]
    rfl
  rw [read]
  exact .ok (.waiting (.within [] arrangement.waiting))

end Paired

end Arrangement

namespace Program

open Token (negationSign)

/--
A token list with a pair of neighbouring negation signs and the list without it
have the same fault, or programs of which the first has such a pair more.
-/
theorem ofTokens_pair
    {first second : List Token}
    (exchanged : Exchanged [negationSign, negationSign] [] first second) :
    Fault.Agree (Exchanged [negationSign, negationSign] [])
      (ofTokens first) (ofTokens second) := by
  obtain ⟨before, after⟩ := exchanged
  exact
    Arrangement.Paired.simulation.ofTokens Arrangement.Paired.run_pair
      before after

end Program

end Propositional
