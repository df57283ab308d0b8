import Propositional.Proofs.Evaluation.Restriction
import Propositional.Proofs.Token.Names

namespace Propositional

/-!
# Evaluation and lookup

A machine reads an assignment only where it looks up the name of a variable
token.  So two assignments of any shape that give these names the same values
stop a program alike, or let it derive the same steps after their inputs.
-/

namespace Assignment

variable {first second assignment : Assignment} {name : Text}

/-- With distinct names the value of a name is the value of its entry. -/
theorem value?_eq_some_iff
    {value : Bool}
    (distinct : (assignment.map Prod.fst).Nodup) :
    assignment.value? name = some value ↔ (name, value) ∈ assignment := by
  constructor
  · intro found
    obtain ⟨before, after, rfl, _⟩ := List.lookup_eq_some_iff.mp found
    simp
  · exact value?_eq_of_mem distinct

/-- Entries with distinct names may stand in any order. -/
theorem value?_eq_of_perm
    (permuted : first.Perm second)
    (distinct : (first.map Prod.fst).Nodup)
    (name : Text) :
    first.value? name = second.value? name := by
  have otherDistinct : (second.map Prod.fst).Nodup :=
    (permuted.map Prod.fst).nodup_iff.mp distinct
  ext value
  rw [value?_eq_some_iff distinct, value?_eq_some_iff otherDistinct,
    permuted.mem_iff]

/-- Entries for names that have values already add nothing at the end. -/
theorem value?_append_of_subset
    {later : Assignment}
    (repeated : later.map Prod.fst ⊆ assignment.map Prod.fst)
    (name : Text) :
    (assignment ++ later).value? name = assignment.value? name := by
  rw [value?, List.lookup_append]
  cases bound : (assignment.value? name).isSome with
  | true =>
      exact Option.or_of_isSome bound
  | false =>
      have absent : name ∉ assignment.map Prod.fst := by
        rw [← value?_isSome_iff, bound]
        exact Bool.false_ne_true
      have laterAbsent : ¬ (later.value? name).isSome := by
        rw [value?_isSome_iff]
        exact fun member => absent (repeated member)
      rw [← value?, ← value?, Option.not_isSome_iff_eq_none.mp laterAbsent,
        Option.or_none]

/-- Assignments with the same entries for some names agree on these names. -/
theorem value?_eq_of_restrict_eq
    {names : List Text}
    (same : first.restrict names = second.restrict names)
    (member : name ∈ names) :
    first.value? name = second.value? name := by
  rw [← value?_restrict first member, same, value?_restrict second member]

end Assignment

/-- Two derivations agree in the result, and in the trace after their inputs. -/
structure Derivation.AlikeAfter
    (firstInputs secondInputs : Nat)
    (first second : Derivation) : Prop where
  trace_eq :
    first.trace.drop firstInputs = second.trace.drop secondInputs
  result_eq :
    first.result = second.result

namespace Machine

variable {first second : Assignment}

/-- A step reads an assignment only at the name of a variable token. -/
theorem step_congr
    {token : Token}
    (sameValue :
      ∀ name, token = Token.ofName name →
        first.value? name = second.value? name)
    (machine : Machine) :
    machine.step first token = machine.step second token := by
  rcases token with ⟨kind, text⟩
  cases kind with
  | variableName =>
      simp only [step, push, sameValue text rfl]
  | connectiveSymbol | openBracket | closeBracket =>
      rfl

/-- A run reads an assignment only at the names of variable tokens. -/
theorem run_congr
    {program : Program}
    (sameValues :
      ∀ name, Token.ofName name ∈ program →
        first.value? name = second.value? name)
    (machine : Machine) :
    machine.run first program = machine.run second program := by
  induction program generalizing machine with
  | nil =>
      rfl
  | cons token program inductionHypothesis =>
      have sameStep :
          machine.step first token = machine.step second token := by
        refine step_congr ?_ machine
        rintro name rfl
        exact sameValues name List.mem_cons_self
      have sameRest :
          ∀ next : Machine,
            next.run first program = next.run second program :=
        inductionHypothesis fun name member =>
          sameValues name (List.mem_cons_of_mem token member)
      simp only [run_cons, sameStep, sameRest]

/--
One machine is finished under two assignments with the same fault, or with the
same steps after the inputs.
-/
theorem finish_agree
    (machine : Machine)
    (first second : Assignment) :
    Fault.Agree
      (Derivation.AlikeAfter first.length second.length)
      (machine.finish first) (machine.finish second) := by
  match operands : machine.operands with
  | [] =>
      simp only [finish, operands]
      exact .error _
  | [result] =>
      simp only [finish, operands]
      refine .ok ⟨?_, rfl⟩
      simp [Derivation.trace, Assignment.steps]
  | _ :: _ :: _ =>
      simp only [finish, operands]
      exact .error _

end Machine

namespace Program

/--
Under both assignments a program has the same fault, or it has the same result
and derives the same steps after the inputs.
-/
def DerivesAlike
    (program : Program)
    (first second : Assignment) : Prop :=
  Fault.Agree
    (Derivation.AlikeAfter first.length second.length)
    (program.evaluate first) (program.evaluate second)

/-- A program evaluates alike if its variables are looked up alike. -/
theorem derivesAlike_of_value?_eq
    {program : Program}
    {first second : Assignment}
    (sameValues :
      ∀ name, Token.ofName name ∈ program →
        first.value? name = second.value? name) :
    program.DerivesAlike first second := by
  unfold DerivesAlike evaluate
  rw [Machine.run_congr sameValues]
  refine (Fault.Agree.refl _).bind ?_
  rintro machine _ rfl
  exact machine.finish_agree first second

/--
Only the values that are looked up matter: if two assignments give every
variable of a program the same first value, or none, it has the same fault under
both or derives the same steps.  So neither the order of distinct names, nor
entries for names that the program does not use, nor a later entry for a name
that has one already changes a derived step.
-/
theorem derivesAlike_of_same_lookups (program : Program) :
    (∀ first second : Assignment,
        (∀ name, Token.ofName name ∈ program →
          first.value? name = second.value? name) →
        program.DerivesAlike first second) ∧
      (∀ first second : Assignment,
        first.Perm second →
          (first.map Prod.fst).Nodup →
          program.DerivesAlike first second) ∧
      (∀ first second : Assignment,
        first.restrict (Token.names program) =
            second.restrict (Token.names program) →
          program.DerivesAlike first second) ∧
      ∀ assignment later : Assignment,
        later.map Prod.fst ⊆ assignment.map Prod.fst →
          program.DerivesAlike assignment (assignment ++ later) := by
  refine ⟨fun _ _ => derivesAlike_of_value?_eq, ?_, ?_, ?_⟩
  · intro first second permuted distinct
    exact derivesAlike_of_value?_eq fun name _ =>
      Assignment.value?_eq_of_perm permuted distinct name
  · intro first second same
    exact derivesAlike_of_value?_eq fun name member =>
      Assignment.value?_eq_of_restrict_eq same (Token.mem_names.mpr member)
  · intro assignment later repeated
    exact derivesAlike_of_value?_eq fun name _ =>
      (Assignment.value?_append_of_subset repeated name).symm

/--
One derivation serves for inputs in another order, with a name that is not used
and with a second value for a name.
-/
theorem derivesAlike_of_same_lookups_of_reordered_inputs :
    (∀ name,
        Token.ofName name ∈
            [Token.ofName (Text.ascii "A"), Token.ofName (Text.ascii "B"),
              Token.ofConnective (.binary .conjunction)] →
          Assignment.value?
              [(Text.ascii "A", true), (Text.ascii "B", false)] name =
            Assignment.value?
              [(Text.ascii "B", false), (Text.ascii "C", true),
                (Text.ascii "A", true), (Text.ascii "B", true)] name) ∧
      DerivesAlike
        [Token.ofName (Text.ascii "A"), Token.ofName (Text.ascii "B"),
          Token.ofConnective (.binary .conjunction)]
        [(Text.ascii "A", true), (Text.ascii "B", false)]
        [(Text.ascii "B", false), (Text.ascii "C", true),
          (Text.ascii "A", true), (Text.ascii "B", true)] := by
  have sameValues :
      ∀ name,
        Token.ofName name ∈
            [Token.ofName (Text.ascii "A"), Token.ofName (Text.ascii "B"),
              Token.ofConnective (.binary .conjunction)] →
          Assignment.value?
              [(Text.ascii "A", true), (Text.ascii "B", false)] name =
            Assignment.value?
              [(Text.ascii "B", false), (Text.ascii "C", true),
                (Text.ascii "A", true), (Text.ascii "B", true)] name := by
    intro name member
    rw [← Token.mem_names] at member
    revert name
    decide
  exact ⟨sameValues, (derivesAlike_of_same_lookups _).1 _ _ sameValues⟩

end Program

end Propositional
