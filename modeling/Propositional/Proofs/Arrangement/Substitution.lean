import Propositional.Proofs.Arrangement.Conservation
import Propositional.Proofs.Arrangement.Grammar

namespace Propositional

/-!
# Substituting a group for an operand

An arrangement passes on what it has emitted without looking at it again, and
what waits around a bracket rests until the bracket is closed.  So a list in
brackets emits its own program, just as an operand emits itself, and one can be
put in the place of the other in any context, well formed or not: either both
lists have the same fault, or their programs differ in this one part.
-/

/-- The second list is the first one with a part of it exchanged for another. -/
inductive Exchanged
    {α : Type}
    (old new : List α) :
    List α → List α → Prop where
  | within
      (front back : List α) :
      Exchanged old new (front ++ old ++ back) (front ++ new ++ back)

namespace Exchanged

variable {α β : Type} {old new first second : List α}

/-- More items around both lists leave the part exchanged. -/
theorem append
    (exchanged : Exchanged old new first second)
    (before after : List α) :
    Exchanged old new
      (before ++ first ++ after) (before ++ second ++ after) := by
  obtain ⟨front, back⟩ := exchanged
  simpa only [List.append_assoc] using
    @within _ old new (before ++ front) (back ++ after)

theorem cons
    (exchanged : Exchanged old new first second)
    (item : α) :
    Exchanged old new (item :: first) (item :: second) := by
  simpa only [List.singleton_append, List.append_nil] using
    exchanged.append [item] []

theorem map
    (exchanged : Exchanged old new first second)
    (convert : α → β) :
    Exchanged (old.map convert) (new.map convert)
      (first.map convert) (second.map convert) := by
  obtain ⟨front, back⟩ := exchanged
  simpa only [List.map_append] using
    within (front.map convert) (back.map convert)

theorem reverse
    (exchanged : Exchanged old new first second) :
    Exchanged old.reverse new.reverse first.reverse second.reverse := by
  obtain ⟨front, back⟩ := exchanged
  simpa only [List.reverse_append, List.append_assoc] using
    @within _ old.reverse new.reverse back.reverse front.reverse

/-- Exchanging a part for itself changes nothing. -/
theorem eq_of_same (exchanged : Exchanged old old first second) :
    first = second := by
  cases exchanged
  rfl

end Exchanged

namespace Token

/-- A token list in brackets. -/
def grouped (tokens : List Token) : List Token :=
  opening :: tokens ++ [closing]

end Token

namespace Arrangement

/--
Related arrangements stay related as both read the same tokens, or fail alike,
and finish with related programs.
-/
structure Simulation
    (related : Arrangement → Arrangement → Prop)
    (relatedPrograms : Program → Program → Prop) : Prop where
  step :
    ∀ {first second : Arrangement},
      related first second →
        ∀ token : Token,
          Fault.Agree related (first.step token) (second.step token)
  finish :
    ∀ {first second : Arrangement},
      related first second →
        Fault.Agree relatedPrograms first.finish second.finish

namespace Simulation

variable
  {related : Arrangement → Arrangement → Prop}
  {relatedPrograms : Program → Program → Prop}

/-- Related arrangements stay related over a whole list. -/
theorem run
    (simulation : Simulation related relatedPrograms)
    {first second : Arrangement}
    (start : related first second)
    (tokens : List Token) :
    Fault.Agree related (first.run tokens) (second.run tokens) :=
  Fault.Agree.foldlM simulation.step start tokens

/-- Parts that lead to related arrangements can stand in the place of each other. -/
theorem ofTokens
    (simulation : Simulation related relatedPrograms)
    {firstPart secondPart : List Token}
    (parts :
      ∀ arrangement : Arrangement,
        Fault.Agree related
          (arrangement.run firstPart) (arrangement.run secondPart))
    (before after : List Token) :
    Fault.Agree relatedPrograms
      (Program.ofTokens (before ++ firstPart ++ after))
      (Program.ofTokens (before ++ secondPart ++ after)) := by
  unfold Program.ofTokens
  simp only [run_append]
  cases Arrangement.start.run before with
  | error fault =>
      exact .error fault
  | ok arrangement =>
      have afterParts := (parts arrangement).bind fun partsRelated =>
        simulation.run partsRelated after
      exact afterParts.bind simulation.finish

end Simulation

/-- Two arrangements that differ in one part of what they have emitted. -/
inductive Exchanges
    (old new : Program) :
    Arrangement → Arrangement → Prop where
  | emitted
      {first second : List Token}
      {waiting : List Connective}
      {enclosing : List (List Connective)} :
      Exchanged old.reverse new.reverse first second →
      Exchanges old new
        ⟨first, waiting, enclosing⟩ ⟨second, waiting, enclosing⟩

namespace Exchanges

variable {old new : Program} {first second : Arrangement}

/-- What is emitted later leaves the part exchanged. -/
theorem emit
    {firstEmitted secondEmitted : List Token}
    (exchanged :
      Exchanged old.reverse new.reverse firstEmitted secondEmitted)
    (connectives : List Connective) :
    Exchanged old.reverse new.reverse
      (Arrangement.emit connectives firstEmitted)
      (Arrangement.emit connectives secondEmitted) := by
  simpa only [Arrangement.emit, List.append_nil] using
    exchanged.append (connectives.map Token.ofConnective).reverse []

theorem step
    (exchanges : Exchanges old new first second)
    (token : Token) :
    Fault.Agree (Exchanges old new)
      (first.step token) (second.step token) := by
  obtain @⟨firstEmitted, secondEmitted, waiting, enclosing, exchanged⟩ :=
    exchanges
  unfold Arrangement.step
  match token.role? with
  | none =>
      exact .error _
  | some .operand =>
      exact .ok (.emitted (exchanged.cons token))
  | some (.connective incoming) =>
      exact .ok (.emitted (emit exchanged _))
  | some .opens =>
      exact .ok (.emitted exchanged)
  | some .closes =>
      cases enclosing with
      | nil =>
          exact .error _
      | cons around outer =>
          exact .ok (.emitted (emit exchanged waiting))

theorem finish
    (exchanges : Exchanges old new first second) :
    Fault.Agree (Exchanged old new) first.finish second.finish := by
  obtain @⟨firstEmitted, secondEmitted, waiting, enclosing, exchanged⟩ :=
    exchanges
  cases enclosing with
  | nil =>
      have programs := (emit exchanged waiting).reverse
      simp only [List.reverse_reverse] at programs
      exact .ok programs
  | cons around outer =>
      exact .error _

theorem simulation (old new : Program) :
    Simulation (Exchanges old new) (Exchanged old new) where
  step :=
    step
  finish :=
    finish

end Exchanges

/-- Emit a whole program. -/
def addProgram (arrangement : Arrangement) (program : Program) : Arrangement :=
  { arrangement with
    emitted := program.reverse ++ arrangement.emitted }

/-- Reading the tokens anywhere emits the program and changes nothing else. -/
def Emits (tokens : List Token) (program : Program) : Prop :=
  ∀ arrangement : Arrangement,
    arrangement.run tokens = .ok (arrangement.addProgram program)

/-- An arrangement in a bracket, with another one around it. -/
def within (inner outer : Arrangement) : Arrangement where
  emitted :=
    inner.emitted ++ outer.emitted
  waiting :=
    inner.waiting
  enclosing :=
    inner.enclosing ++ outer.waiting :: outer.enclosing

theorem start_within (outer : Arrangement) :
    start.within outer = outer.openGroup := by
  rfl

theorem emit_append_emitted
    (connectives : List Connective)
    (emitted earlier : List Token) :
    emit connectives (emitted ++ earlier) =
      emit connectives emitted ++ earlier := by
  exact (List.append_assoc _ _ _).symm

/-- A token that can be read by itself is read in a bracket as well. -/
theorem step_within
    {inner next : Arrangement}
    {token : Token}
    (stepped : inner.step token = .ok next)
    (outer : Arrangement) :
    (inner.within outer).step token = .ok (next.within outer) := by
  unfold step at stepped ⊢
  match role : token.role? with
  | none =>
      simp only [role, reduceCtorEq] at stepped
  | some .operand =>
      simp only [role, Except.ok.injEq] at stepped
      subst next
      rfl
  | some (.connective incoming) =>
      simp only [role, Except.ok.injEq] at stepped
      subst next
      simp only [addConnective, within, emit_append_emitted]
  | some .opens =>
      simp only [role, Except.ok.injEq] at stepped
      subst next
      rfl
  | some .closes =>
      rcases inner with ⟨emitted, waiting, enclosing⟩
      cases enclosing with
      | nil =>
          simp only [role, closeGroup, reduceCtorEq] at stepped
      | cons around rest =>
          simp only [role, closeGroup, Except.ok.injEq] at stepped
          subst next
          simp only [within, List.cons_append, closeGroup,
            emit_append_emitted]

/-- A list that can be read by itself is read in a bracket as well. -/
theorem run_within
    {inner final : Arrangement}
    {tokens : List Token}
    (ran : inner.run tokens = .ok final)
    (outer : Arrangement) :
    (inner.within outer).run tokens = .ok (final.within outer) := by
  induction tokens generalizing inner with
  | nil =>
      cases ran
      rfl
  | cons token tokens inductionHypothesis =>
      obtain ⟨next, stepped, continued⟩ := Fault.bind_eq_ok_iff.mp ran
      refine Fault.bind_eq_ok_iff.mpr ⟨next.within outer, ?_, ?_⟩
      · exact step_within stepped outer
      · exact inductionHypothesis continued

namespace Emits

/-- A variable emits itself. -/
theorem operand
    {name : Text}
    (names : Token.namesVariable name = true) :
    Emits [Token.ofName name] [Token.ofName name] := by
  intro arrangement
  simp only [run_cons, step_ofName arrangement names]
  rfl

/-- A list in brackets emits the program of the list. -/
theorem grouped
    {tokens : List Token}
    {program : Program}
    (arranged : Program.ofTokens tokens = .ok program) :
    Emits (Token.grouped tokens) program := by
  intro outer
  obtain ⟨final, ran, finished⟩ := Fault.bind_eq_ok_iff.mp arranged
  obtain ⟨closed, rfl⟩ := finish_eq_ok_iff.mp finished
  have inBracket : outer.openGroup.run tokens = .ok (final.within outer) := by
    simpa only [start_within] using run_within ran outer
  have closing :
      (final.within outer).run [Token.closing] =
        .ok
          (outer.addProgram (emit final.waiting final.emitted).reverse) := by
    simp only [within, closed, addProgram, List.reverse_reverse,
      ← emit_append_emitted]
    rfl
  calc
    outer.run (Token.grouped tokens)
    _ = outer.openGroup.run (tokens ++ [Token.closing]) := rfl
    _ = .ok (outer.addProgram (emit final.waiting final.emitted).reverse) := by
      simp only [run_append, inBracket, Except.bind, closing]

/-- What emits a program in any context has this program by itself. -/
theorem ofTokens_eq_ok
    {tokens : List Token}
    {program : Program}
    (emits : Emits tokens program) :
    Program.ofTokens tokens = .ok program := by
  have finished : (start.addProgram program).finish = .ok program := by
    simp [addProgram, start, finish, emit]
  exact Fault.bind_eq_ok_iff.mpr ⟨_, emits start, finished⟩

/-- Lists that emit programs can be exchanged in any context. -/
theorem exchanged
    {firstPart secondPart : List Token}
    {old new : Program}
    (emitsOld : Emits firstPart old)
    (emitsNew : Emits secondPart new)
    (before after : List Token) :
    Fault.Agree (Exchanged old new)
      (Program.ofTokens (before ++ firstPart ++ after))
      (Program.ofTokens (before ++ secondPart ++ after)) := by
  apply (Exchanges.simulation old new).ofTokens
  intro arrangement
  rw [emitsOld arrangement, emitsNew arrangement]
  exact .ok (.emitted (.within [] arrangement.emitted))

/-- Lists that emit the same program have the same outcome in any context. -/
theorem ofTokens_eq
    {firstPart secondPart : List Token}
    {program : Program}
    (emitsFirst : Emits firstPart program)
    (emitsSecond : Emits secondPart program)
    (before after : List Token) :
    Program.ofTokens (before ++ firstPart ++ after) =
      Program.ofTokens (before ++ secondPart ++ after) := by
  rcases (emitsFirst.exchanged emitsSecond before after).error_or_ok with
      ⟨fault, firstFails, secondFails⟩ |
        ⟨firstProgram, secondProgram, firstReads, secondReads, exchanged⟩
  · exact firstFails.trans secondFails.symm
  · rw [firstReads, secondReads, exchanged.eq_of_same]

end Emits

end Arrangement

namespace Program

open Arrangement (Emits)
open Token (ofName ofConnective grouped)

/-- Arranging makes no token more frequent. -/
theorem count_le_of_ofTokens
    {tokens : List Token}
    {program : Program}
    (arranged : ofTokens tokens = .ok program)
    (token : Token) :
    program.count token ≤ tokens.count token := by
  have kept := (perm_of_ofTokens arranged).count_eq token
  exact kept ▸ List.filter_sublist.count_le token

/-- A variable that is read once is emitted once. -/
theorem notMem_of_ofTokens
    {before after : List Token}
    {front back : Program}
    {token : Token}
    (arranged :
      ofTokens (before ++ [token] ++ after) = .ok (front ++ [token] ++ back))
    (absentBefore : token ∉ before)
    (absentAfter : token ∉ after) :
    token ∉ front ∧ token ∉ back := by
  have counted := count_le_of_ofTokens arranged token
  simp only [List.count_append, List.count_cons_self, List.count_nil,
    List.count_eq_zero_of_not_mem absentBefore,
    List.count_eq_zero_of_not_mem absentAfter] at counted
  constructor <;>
    refine List.count_eq_zero.mp ?_ <;>
    omega

/--
In any context a list in brackets is read like a variable that does not occur
there, with the program of the list in the place of the variable: both have the
same fault, or both have programs, which differ in that one place.  So brackets
around the whole list, around brackets or around a variable change nothing, and
the context sees no more of the list than its program.
-/
theorem ofTokens_substitute
    {before tokens after : List Token}
    {program : Program}
    {name : Text}
    (arranged : ofTokens tokens = .ok program)
    (names : Token.namesVariable name = true)
    (absentBefore : ofName name ∉ before)
    (absentAfter : ofName name ∉ after) :
    ((∃ fault,
        ofTokens (before ++ [ofName name] ++ after) = .error fault ∧
          ofTokens (before ++ grouped tokens ++ after) = .error fault) ∨
      ∃ front back,
        ofTokens (before ++ [ofName name] ++ after) =
            .ok (front ++ [ofName name] ++ back) ∧
          ofName name ∉ front ∧
          ofName name ∉ back ∧
          ofTokens (before ++ grouped tokens ++ after) =
            .ok (front ++ program ++ back)) ∧
      ofTokens (grouped tokens) = .ok program ∧
      ∀ first second : List Token,
        ofTokens (first ++ grouped [ofName name] ++ second) =
            ofTokens (first ++ [ofName name] ++ second) ∧
          ofTokens (first ++ grouped (grouped tokens) ++ second) =
            ofTokens (first ++ grouped tokens ++ second) ∧
          ∀ others : List Token,
            ofTokens others = .ok program →
              ofTokens (first ++ grouped others ++ second) =
                ofTokens (first ++ grouped tokens ++ second) := by
  have emitsGroup := Emits.grouped arranged
  have emitsVariable := Emits.operand names
  have wholeGroup := emitsGroup.ofTokens_eq_ok
  have single := emitsVariable.ofTokens_eq_ok
  refine ⟨?_, wholeGroup, ?_⟩
  · rcases (emitsVariable.exchanged emitsGroup before after).error_or_ok with
        ⟨fault, variableFails, groupFails⟩ |
          ⟨_, _, variableReads, groupReads, ⟨front, back⟩⟩
    · exact .inl ⟨fault, variableFails, groupFails⟩
    · obtain ⟨absentFront, absentBack⟩ :=
        notMem_of_ofTokens variableReads absentBefore absentAfter
      exact .inr
        ⟨front, back, variableReads, absentFront, absentBack, groupReads⟩
  · intro first second
    refine ⟨?_, ?_, ?_⟩
    · exact (Emits.grouped single).ofTokens_eq emitsVariable first second
    · exact (Emits.grouped wholeGroup).ofTokens_eq emitsGroup first second
    · intro others othersArranged
      exact (Emits.grouped othersArranged).ofTokens_eq emitsGroup first second

/-- The context of a group need not be well formed. -/
theorem ofTokens_substitute_of_implication :
    ofTokens
          [ofName (Text.ascii "B"), ofConnective (.binary .implication),
            ofName (Text.ascii "C")] =
        .ok
          [ofName (Text.ascii "B"), ofName (Text.ascii "C"),
            ofConnective (.binary .implication)] ∧
      Token.namesVariable (Text.ascii "D") = true ∧
      ofName (Text.ascii "D") ∉
        [ofName (Text.ascii "A"), ofConnective (.binary .conjunction),
          ofConnective .negation] ∧
      ofName (Text.ascii "D") ∉ [ofName (Text.ascii "B")] ∧
      ∃ front back,
        ofTokens
              ([ofName (Text.ascii "A"), ofConnective (.binary .conjunction),
                  ofConnective .negation] ++
                [ofName (Text.ascii "D")] ++ [ofName (Text.ascii "B")]) =
            .ok (front ++ [ofName (Text.ascii "D")] ++ back) ∧
          ofName (Text.ascii "D") ∉ front ∧
          ofName (Text.ascii "D") ∉ back ∧
          ofTokens
              ([ofName (Text.ascii "A"), ofConnective (.binary .conjunction),
                  ofConnective .negation] ++
                grouped
                  [ofName (Text.ascii "B"), ofConnective (.binary .implication),
                    ofName (Text.ascii "C")] ++
                [ofName (Text.ascii "B")]) =
            .ok
              (front ++
                [ofName (Text.ascii "B"), ofName (Text.ascii "C"),
                  ofConnective (.binary .implication)] ++
                back) := by
  have absentBefore :
      ofName (Text.ascii "D") ∉
        [ofName (Text.ascii "A"), ofConnective (.binary .conjunction),
          ofConnective .negation] := by
    decide
  have absentAfter :
      ofName (Text.ascii "D") ∉ [ofName (Text.ascii "B")] := by
    decide
  have arranged :
      ofTokens
          [ofName (Text.ascii "B"), ofConnective (.binary .implication),
            ofName (Text.ascii "C")] =
        .ok
          [ofName (Text.ascii "B"), ofName (Text.ascii "C"),
            ofConnective (.binary .implication)] := by
    rfl
  obtain ⟨law, _⟩ :=
    ofTokens_substitute arranged rfl absentBefore absentAfter
  rcases law with ⟨fault, fails, _⟩ | read
  · cases fails
  · exact ⟨arranged, rfl, absentBefore, absentAfter, read⟩

end Program

end Propositional
