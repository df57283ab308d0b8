import Propositional.Proofs.Evaluation.Trace

namespace Propositional

/-!
# Restricting assignments

A formula depends on the values of its atoms alone.  So it keeps its value if an
assignment is restricted, in order, to any names that include them.
-/

namespace Assignment

variable {assignment : Assignment} {names : List Text} {name : Text}

/-- The entries of an assignment for some names, in their order. -/
def restrict (names : List Text) (assignment : Assignment) : Assignment :=
  assignment.filter fun entry => entry.1 ∈ names

theorem map_fst_restrict
    (names : List Text)
    (assignment : Assignment) :
    (assignment.restrict names).map Prod.fst =
      (assignment.map Prod.fst).filter fun name => name ∈ names := by
  rw [List.filter_map]
  rfl

/-- The last entry of an assignment to one name alone is an entry for that name. -/
theorem getLast?_of_forall_eq
    (only : ∀ other ∈ assignment.map Prod.fst, other = name)
    (member : name ∈ assignment.map Prod.fst) :
    (assignment.map Prod.fst).getLast? = some name := by
  have notEmpty := List.ne_nil_of_mem member
  rw [List.getLast?_eq_some_getLast notEmpty,
    only _ (List.getLast_mem notEmpty)]

/-- A restriction keeps the first value of each of its names. -/
theorem value?_restrict
    (assignment : Assignment)
    (member : name ∈ names) :
    (assignment.restrict names).value? name = assignment.value? name := by
  induction assignment with
  | nil =>
      rfl
  | cons entry assignment inductionHypothesis =>
      rcases entry with ⟨other, value⟩
      simp only [restrict, value?] at inductionHypothesis ⊢
      by_cases isName : name = other
      · subst other
        simp [member]
      · have different : (name == other) = false := by
          simpa using isName
        by_cases kept : other ∈ names
        · simp [kept, List.lookup_cons, different, inductionHypothesis]
        · simp [kept, List.lookup_cons, different, inductionHypothesis]

/-- A restriction agrees with the whole assignment on its names. -/
theorem valuation_restrict
    (assignment : Assignment)
    (member : name ∈ names) :
    (assignment.restrict names).valuation name =
      assignment.valuation name := by
  rw [valuation, value?_restrict assignment member, valuation]

end Assignment

namespace Formula

/-- Valuations that agree on the atoms of a formula give it one value. -/
theorem eval_congr
    {first second : Text → Bool}
    {formula : Formula}
    (agree : ∀ name ∈ formula.names, first name = second name) :
    formula.eval first = formula.eval second := by
  induction formula with
  | atom name =>
      exact agree name (by simp [names])
  | negation operand inductionHypothesis =>
      rw [eval, inductionHypothesis agree, eval]
  | binary operation left right leftHypothesis rightHypothesis =>
      have leftSame :=
        leftHypothesis fun name member => agree name (by simp [names, member])
      have rightSame :=
        rightHypothesis fun name member => agree name (by simp [names, member])
      rw [eval, leftSame, rightSame, eval]

/-- A restriction to names that include the atoms keeps the value of a formula. -/
theorem eval_restrict
    {assignment : Assignment}
    {names : List Text}
    {formula : Formula}
    (included : formula.names ⊆ names) :
    formula.eval (assignment.restrict names).valuation =
      formula.eval assignment.valuation :=
  eval_congr fun _ member =>
    Assignment.valuation_restrict assignment (included member)

/-- A restriction to names that include the atoms covers what was covered. -/
theorem Covered.restrict
    {assignment : Assignment}
    {names : List Text}
    {formula : Formula}
    (covered : formula.Covered assignment)
    (included : formula.names ⊆ names) :
    formula.Covered (assignment.restrict names) := by
  intro name member
  rw [Assignment.value?_restrict assignment (included member)]
  exact covered name member

/-- Every step of a derivation shows a part, whose atoms are atoms of the whole. -/
theorem exists_part_of_mem_steps
    {valuation : Text → Bool}
    {formula : Formula}
    {step : Step}
    (member : step ∈ formula.steps valuation) :
    ∃ part : Formula,
      part.names ⊆ formula.names ∧ step = part.toStep valuation := by
  induction formula with
  | atom name =>
      cases member
  | negation operand inductionHypothesis =>
      rcases List.mem_append.mp member with inOperand | isWhole
      · exact inductionHypothesis inOperand
      · exact ⟨_, fun _ inside => inside, List.mem_singleton.mp isWhole⟩
  | binary operation left right leftHypothesis rightHypothesis =>
      rcases List.mem_append.mp member with inOperands | isWhole
      · rcases List.mem_append.mp inOperands with inLeft | inRight
        · obtain ⟨part, included, shows⟩ := leftHypothesis inLeft
          exact ⟨part,
            fun _ inside => List.mem_append_left _ (included inside), shows⟩
        · obtain ⟨part, included, shows⟩ := rightHypothesis inRight
          exact ⟨part,
            fun _ inside => List.mem_append_right _ (included inside), shows⟩
      · exact ⟨_, fun _ inside => inside, List.mem_singleton.mp isWhole⟩

end Formula

end Propositional
