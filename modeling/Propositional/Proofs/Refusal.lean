import Propositional.Proofs.Fault

namespace Propositional.Fault

/-!
# The first refusal

A run over a list ends early at the first item that it refuses, with the fault
of that item.  Whether an item is refused may depend on everything read before
it.  Where this is known for each single item, it decides how the whole run
ends, and in favour of the earlier of two refusals.
-/

variable {State Item : Type}

/-- No item of a list is refused after the items before it. -/
def Admits
    (refuses : List Item → Item → Fault → Prop)
    (items : List Item) :
    Prop :=
  ∀ {before after : List Item} {item : Item},
    items = before ++ item :: after →
      ∀ fault, ¬ refuses before item fault

/-- Of the items that are refused the first one is refused with a fault. -/
inductive FirstRefused
    (refuses : List Item → Item → Fault → Prop) :
    List Item → Fault → Prop where
  | refused
      {before after : List Item}
      {item : Item}
      {fault : Fault} :
      Admits refuses before →
      refuses before item fault →
      FirstRefused refuses (before ++ item :: after) fault

/-- What is refused first is one of the items. -/
theorem FirstRefused.exists_mem
    {refuses : List Item → Item → Fault → Prop}
    {items : List Item}
    {fault : Fault}
    (first : FirstRefused refuses items fault) :
    ∃ before, ∃ item ∈ items, refuses before item fault := by
  obtain ⟨_, refused⟩ := first
  exact ⟨_, _, by simp, refused⟩

variable {step : State → Item → Except Fault State} {start : State}

/-- A run that fails fails at one item, after all items before it have been read. -/
theorem foldlM_eq_error_iff
    {items : List Item}
    {fault : Fault} :
    items.foldlM step start = .error fault ↔
      ∃ before item after state,
        items = before ++ item :: after ∧
          before.foldlM step start = .ok state ∧
          step state item = .error fault := by
  constructor
  · intro failed
    induction items generalizing start with
    | nil =>
        cases failed
    | cons first items inductionHypothesis =>
        rw [List.foldlM_cons] at failed
        rcases bind_eq_error_iff.mp failed with
            stepFailed | ⟨next, stepped, continued⟩
        · exact ⟨[], first, items, start, rfl, rfl, stepFailed⟩
        · obtain ⟨before, item, after, state, rfl, ran, stopped⟩ :=
            inductionHypothesis continued
          refine ⟨first :: before, item, after, state, rfl, ?_, stopped⟩
          rw [List.foldlM_cons, stepped, ok_bind, ran]
  · rintro ⟨before, item, after, state, rfl, ran, stopped⟩
    rw [List.foldlM_append, ran, ok_bind, List.foldlM_cons, stopped]
    rfl

/--
A relation describes the refusals of a run if, after any items that the run has
read, it relates the next item to exactly the fault that the step has.
-/
structure Describes
    (refuses : List Item → Item → Fault → Prop)
    (step : State → Item → Except Fault State)
    (start : State) :
    Prop where
  step_iff :
    ∀ {before : List Item} {state : State},
      before.foldlM step start = .ok state →
        ∀ {item : Item} {fault : Fault},
          step state item = .error fault ↔ refuses before item fault

namespace Describes

variable
  {refuses : List Item → Item → Fault → Prop}
  {items : List Item}
  {fault : Fault}

/-- A run that has read a list refuses none of its items. -/
theorem admits
    (describes : Describes refuses step start)
    {final : State}
    (ran : items.foldlM step start = .ok final) :
    Admits refuses items := by
  rintro before after item rfl fault refused
  rw [List.foldlM_append] at ran
  obtain ⟨state, ranBefore, continued⟩ := bind_eq_ok_iff.mp ran
  obtain ⟨next, stepped, _⟩ := bind_eq_ok_iff.mp continued
  rw [(describes.step_iff ranBefore).mpr refused] at stepped
  cases stepped

/-- A run reads a list to its end exactly if it refuses none of its items. -/
theorem exists_ok_iff
    (describes : Describes refuses step start) :
    (∃ final, items.foldlM step start = .ok final) ↔
      Admits refuses items := by
  constructor
  · rintro ⟨final, ran⟩
    exact describes.admits ran
  · intro admitted
    cases ran : items.foldlM step start with
    | ok final =>
        exact ⟨final, rfl⟩
    | error fault =>
        obtain ⟨before, item, after, state, shape, ranBefore, stopped⟩ :=
          foldlM_eq_error_iff.mp ran
        exact
          absurd ((describes.step_iff ranBefore).mp stopped)
            (admitted shape fault)

/-- A run fails with exactly the fault of the first item that it refuses. -/
theorem eq_error_iff
    (describes : Describes refuses step start) :
    items.foldlM step start = .error fault ↔
      FirstRefused refuses items fault := by
  constructor
  · intro failed
    obtain ⟨before, item, after, state, rfl, ranBefore, stopped⟩ :=
      foldlM_eq_error_iff.mp failed
    exact
      .refused (describes.admits ranBefore)
        ((describes.step_iff ranBefore).mp stopped)
  · rintro ⟨admitted, refused⟩
    obtain ⟨state, ranBefore⟩ := describes.exists_ok_iff.mpr admitted
    exact foldlM_eq_error_iff.mpr
      ⟨_, _, _, state, rfl, ranBefore,
        (describes.step_iff ranBefore).mpr refused⟩

section Finished

variable {Result : Type} {finish : State → Except Fault Result}

/--
A run has a result in the end exactly if it refuses none of its items and leaves
a state that can be finished.
-/
theorem exists_finished_iff
    (describes : Describes refuses step start)
    {complete : Prop}
    (finishes :
      ∀ {final}, items.foldlM step start = .ok final →
        ((∃ result, finish final = .ok result) ↔ complete)) :
    (∃ result, (items.foldlM step start >>= finish) = .ok result) ↔
      Admits refuses items ∧ complete := by
  constructor
  · rintro ⟨result, computed⟩
    obtain ⟨final, ran, finished⟩ := bind_eq_ok_iff.mp computed
    exact ⟨describes.admits ran, (finishes ran).mp ⟨result, finished⟩⟩
  · rintro ⟨admitted, isComplete⟩
    obtain ⟨final, ran⟩ := describes.exists_ok_iff.mpr admitted
    obtain ⟨result, finished⟩ := (finishes ran).mpr isComplete
    exact ⟨result, bind_eq_ok_iff.mpr ⟨final, ran, finished⟩⟩

/--
A run fails in the end with the fault of the first item that it refuses, and if
there is none, with that of the state that it leaves.
-/
theorem finished_eq_error_iff
    (describes : Describes refuses step start)
    {incomplete : Prop}
    (fails :
      ∀ {final}, items.foldlM step start = .ok final →
        (finish final = .error fault ↔ incomplete)) :
    (items.foldlM step start >>= finish) = .error fault ↔
      FirstRefused refuses items fault ∨
        Admits refuses items ∧ incomplete := by
  rw [bind_eq_error_iff]
  refine or_congr describes.eq_error_iff ?_
  constructor
  · rintro ⟨final, ran, failed⟩
    exact ⟨describes.admits ran, (fails ran).mp failed⟩
  · rintro ⟨admitted, isIncomplete⟩
    obtain ⟨final, ran⟩ := describes.exists_ok_iff.mpr admitted
    exact ⟨final, ran, (fails ran).mpr isIncomplete⟩

end Finished

end Describes

end Propositional.Fault
