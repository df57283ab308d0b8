import Mathlib.Data.List.Chain
import Propositional.Proofs.Arrangement.Conservation

namespace Propositional

/-!
# The order of what waits

A connective that would act before a new one is gone when the new one comes to
wait.  So the connectives that wait in one bracket bind ever tighter, or equally
tight where they group to the right, and of those that group to the left no two
of one precedence wait together.  Opening a bracket starts anew, and closing it
uncovers the connectives around it as they were.
-/

namespace Connective

/--
What a connective may wait on: one that binds looser, or equally tight and
groups to the right.
-/
def RestsOn (upper lower : Connective) : Prop :=
  lower.precedence < upper.precedence ∨
    lower.precedence = upper.precedence ∧ lower.associativity = .right

/-- A connective rests on exactly those that do not act before it. -/
theorem restsOn_iff {upper lower : Connective} :
    upper.RestsOn lower ↔ lower.actsBefore upper = false := by
  simp only [RestsOn, actsBefore, Bool.or_eq_false_iff, Bool.and_eq_false_iff,
    decide_eq_false_iff_not, beq_eq_false_iff_ne]
  cases lower.associativity with
  | left =>
      simp only [reduceCtorEq, and_false, or_false, ne_eq, not_true_eq_false]
      omega
  | right =>
      simp only [and_true, ne_eq, reduceCtorEq, not_false_eq_true, or_true]
      omega

theorem RestsOn.trans
    {upper middle lower : Connective}
    (above : upper.RestsOn middle)
    (below : middle.RestsOn lower) :
    upper.RestsOn lower := by
  rcases below with looser | ⟨levelBelow, toRight⟩
  · rcases above with tighter | ⟨levelAbove, _⟩
    · exact .inl (Int.lt_trans looser tighter)
    · exact .inl (levelAbove ▸ looser)
  · rcases above with tighter | ⟨levelAbove, _⟩
    · exact .inl (levelBelow ▸ tighter)
    · exact .inr ⟨levelBelow.trans levelAbove, toRight⟩

instance : Trans RestsOn RestsOn RestsOn :=
  ⟨RestsOn.trans⟩

/-- Whether a connective has the precedence and groups to the left. -/
def groupsLeftAt (precedence : Int) (connective : Connective) : Bool :=
  connective.precedence == precedence && connective.associativity == .left

/-- No connective rests on one that groups to the left at its own precedence. -/
theorem RestsOn.not_groupsLeftAt
    {upper lower : Connective}
    {precedence : Int}
    (rests : upper.RestsOn lower)
    (upperLeft : upper.groupsLeftAt precedence = true) :
    lower.groupsLeftAt precedence = false := by
  simp only [groupsLeftAt, Bool.and_eq_true, beq_iff_eq] at upperLeft
  simp only [groupsLeftAt, Bool.and_eq_false_iff, beq_eq_false_iff_ne]
  rcases rests with looser | ⟨_, toRight⟩
  · exact .inl (Int.ne_of_lt (upperLeft.1 ▸ looser))
  · exact .inr (by simp [toRight])

/-- Of connectives that rest on each other at most one groups to the left at a precedence. -/
theorem countP_groupsLeftAt_le_one
    {connectives : List Connective}
    (resting : connectives.IsChain RestsOn)
    (precedence : Int) :
    connectives.countP (groupsLeftAt precedence) ≤ 1 := by
  -- A chain speaks of neighbours only; the count needs all that lie below.
  have pairs : connectives.Pairwise RestsOn :=
    List.isChain_iff_pairwise.mp resting
  clear resting
  induction pairs with
  | nil =>
      simp
  | @cons upper lowers rests _ inductionHypothesis =>
      by_cases upperLeft : upper.groupsLeftAt precedence = true
      · have nothingBelow : lowers.countP (groupsLeftAt precedence) = 0 := by
          refine List.countP_eq_zero.mpr ?_
          intro lower member
          simp [(rests lower member).not_groupsLeftAt upperLeft]
        rw [List.countP_cons_of_pos upperLeft, nothingBelow]
      · rw [List.countP_cons_of_neg upperLeft]
        exact inductionHypothesis

end Connective

namespace Arrangement

variable {arrangement : Arrangement}

/-- In every group the waiting connectives rest on each other, the latest on top. -/
structure Ordered (arrangement : Arrangement) : Prop where
  waiting :
    arrangement.waiting.IsChain Connective.RestsOn
  enclosing :
    ∀ around ∈ arrangement.enclosing, around.IsChain Connective.RestsOn

namespace Ordered

theorem start : Arrangement.start.Ordered where
  waiting :=
    .nil
  enclosing := by
    simp [Arrangement.start]

/-- An incoming connective rests on what remains after others have acted. -/
theorem addConnective
    (ordered : arrangement.Ordered)
    (incoming : Connective) :
    (arrangement.addConnective incoming).Ordered where
  waiting := by
    refine
      List.isChain_cons.mpr
        ⟨?_, ordered.waiting.suffix (List.dropWhile_suffix _)⟩
    intro held isHead
    have stays :=
      List.head?_dropWhile_not (Connective.actsBefore · incoming)
        arrangement.waiting
    rw [Option.mem_def.mp isHead] at stays
    exact Connective.restsOn_iff.mpr (by simpa using stays)
  enclosing :=
    ordered.enclosing

/-- Reading a token keeps the order in every group. -/
theorem step
    {next : Arrangement}
    {token : Token}
    (ordered : arrangement.Ordered)
    (stepped : arrangement.step token = .ok next) :
    next.Ordered := by
  rcases step_cases stepped with
      ⟨_, _, rfl⟩ | ⟨incoming, _, rfl⟩ | ⟨_, rfl⟩ |
        ⟨around, outer, _, groups, rfl⟩
  · exact ⟨ordered.waiting, ordered.enclosing⟩
  · exact ordered.addConnective incoming
  · refine ⟨.nil, ?_⟩
    exact List.forall_mem_cons.mpr ⟨ordered.waiting, ordered.enclosing⟩
  · have groupsOrdered := ordered.enclosing
    rw [groups] at groupsOrdered
    obtain ⟨aroundOrdered, outerOrdered⟩ :=
      List.forall_mem_cons.mp groupsOrdered
    exact ⟨aroundOrdered, outerOrdered⟩

/-- Reading a list keeps the order in every group. -/
theorem run
    {final : Arrangement}
    {tokens : List Token}
    (ordered : arrangement.Ordered)
    (ran : arrangement.run tokens = .ok final) :
    final.Ordered := by
  induction tokens generalizing arrangement with
  | nil =>
      cases ran
      exact ordered
  | cons token tokens inductionHypothesis =>
      obtain ⟨next, stepped, continued⟩ := Fault.bind_eq_ok_iff.mp ran
      exact inductionHypothesis (ordered.step stepped) continued

end Ordered

end Arrangement

end Propositional
