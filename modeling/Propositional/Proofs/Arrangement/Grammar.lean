import Propositional.Proofs.Fault
import Propositional.Proofs.Formula.Levels

namespace Propositional

/-!
# Arranging derivable token lists

A derivable token list is rearranged into the listing of its formula.  The
invariant of the one pass speaks about any connectives that already wait: as
long as none of them acts before a connective of the level that is read, they
keep waiting, and what has been emitted together with the connectives still
pending is the listing of the formula that was read.
-/

namespace Connective

/-- Nothing acts before a negation. -/
theorem not_actsBefore_negation (waiting : Connective) :
    waiting.actsBefore .negation = false := by
  cases waiting with
  | negation =>
      rfl
  | binary operation =>
      cases operation <;> rfl

end Connective

namespace Binary

open Formula (Level)

/-- What the left operand of a connective chains acts before the connective. -/
theorem actsBefore_of_leftLevel
    {operation : Binary}
    {pending : Connective}
    (tight : operation.leftLevel.precedence ≤ pending.precedence) :
    pending.actsBefore (.binary operation) = true := by
  have catalogue :
      ∀ pending ∈ Connective.all,
        operation.leftLevel.precedence ≤ pending.precedence →
          pending.actsBefore (.binary operation) = true := by
    cases operation <;> decide
  exact catalogue pending pending.mem_all tight

/-- A connective acts before nothing that its right operand chains. -/
theorem not_actsBefore_of_rightLevel
    {operation : Binary}
    {incoming : Connective}
    (tight : operation.rightLevel.precedence ≤ incoming.precedence) :
    (Connective.binary operation).actsBefore incoming = false := by
  have catalogue :
      ∀ incoming ∈ Connective.all,
        operation.rightLevel.precedence ≤ incoming.precedence →
          (Connective.binary operation).actsBefore incoming = false := by
    cases operation <;> decide
  exact catalogue incoming incoming.mem_all tight

end Binary

namespace Arrangement

open Formula (Level Derives)

theorem run_cons
    (arrangement : Arrangement)
    (token : Token)
    (tokens : List Token) :
    arrangement.run (token :: tokens) =
      arrangement.step token >>= fun next => next.run tokens := by
  rfl

theorem step_ofName
    (arrangement : Arrangement)
    {name : Text}
    (names : Token.namesVariable name = true) :
    arrangement.step (Token.ofName name) =
      .ok (arrangement.addOperand (Token.ofName name)) := by
  have role : (Token.ofName name).role? = some .operand := by
    simp [Token.role?, Token.ofName, names]
  rw [step, role]

theorem step_ofConnective
    (arrangement : Arrangement)
    (incoming : Connective) :
    arrangement.step (Token.ofConnective incoming) =
      .ok (arrangement.addConnective incoming) := by
  rw [step, Token.role?_ofConnective]

theorem emit_append
    (first second : List Connective)
    (emitted : List Token) :
    emit (first ++ second) emitted = emit second (emit first emitted) := by
  simp [emit]

/-- No waiting connective acts before a connective of the level. -/
def Yields (level : Level) (waiting : List Connective) : Prop :=
  ∀ held ∈ waiting.head?, ∀ incoming : Connective,
    level.precedence ≤ incoming.precedence →
      held.actsBefore incoming = false

/-- What yields to a level yields to every tighter one. -/
theorem Yields.tighten
    {looser tighter : Level}
    {waiting : List Connective}
    (yields : Yields looser waiting)
    (order : looser.precedence ≤ tighter.precedence) :
    Yields tighter waiting := by
  intro held isHead incoming tight
  exact yields held isHead incoming (Int.le_trans order tight)

/--
A connective that comes after pending connectives which act before it, over
waiting ones which do not, makes exactly the pending ones act.
-/
theorem addConnective_pending
    {incoming : Connective}
    {pending waiting : List Connective}
    (acting : ∀ held ∈ pending, held.actsBefore incoming = true)
    (staying : ∀ held ∈ waiting.head?, held.actsBefore incoming = false)
    (emitted : List Token)
    (enclosing : List (List Connective)) :
    addConnective ⟨emitted, pending ++ waiting, enclosing⟩ incoming =
      ⟨emit pending emitted, incoming :: waiting, enclosing⟩ := by
  have taken :
      waiting.takeWhile (Connective.actsBefore · incoming) = [] := by
    cases waiting with
    | nil =>
        rfl
    | cons held rest =>
        exact List.takeWhile_cons_of_neg (by simp [staying held rfl])
  have dropped :
      waiting.dropWhile (Connective.actsBefore · incoming) = waiting := by
    cases waiting with
    | nil =>
        rfl
    | cons held rest =>
        exact List.dropWhile_cons_of_neg (by simp [staying held rfl])
  simp only [addConnective]
  rw [List.takeWhile_append_of_pos acting, List.dropWhile_append_of_pos acting,
    taken, dropped, List.append_nil]

/--
Reading the tokens over connectives that yield to the level reads the formula:
the connectives keep waiting under some pending ones, and once these are
emitted the listing of the formula has been emitted.
-/
def Reads (level : Level) (tokens : List Token) (formula : Formula) : Prop :=
  ∀ arrangement : Arrangement,
    Yields level arrangement.waiting →
      ∃ pending emitted,
        arrangement.run tokens =
            .ok ⟨emitted, pending ++ arrangement.waiting,
              arrangement.enclosing⟩ ∧
          emit pending emitted =
            formula.program.reverse ++ arrangement.emitted ∧
          ∀ held ∈ pending, level.precedence ≤ held.precedence

namespace Reads

/-- A letter is emitted at once. -/
theorem atom
    {name : Text}
    (names : Token.namesVariable name = true) :
    Reads .factor [Token.ofName name] (.atom name) := by
  intro arrangement _
  refine ⟨[], Token.ofName name :: arrangement.emitted, ?_, rfl, by simp⟩
  rw [run_cons, step_ofName arrangement names]
  rfl

/-- A negation waits for its operand and is pending after it. -/
theorem negation
    {tokens : List Token}
    {operand : Formula}
    (reads : Reads .factor tokens operand) :
    Reads .factor
      (Token.ofConnective .negation :: tokens) (.negation operand) := by
  intro arrangement _
  have waits :
      arrangement.addConnective .negation =
        ⟨arrangement.emitted, .negation :: arrangement.waiting,
          arrangement.enclosing⟩ := by
    have shape :=
      @addConnective_pending .negation [] arrangement.waiting
        (by simp)
        (fun held _ => held.not_actsBefore_negation)
        arrangement.emitted arrangement.enclosing
    exact shape
  have yields : Yields .factor (.negation :: arrangement.waiting) := by
    intro held isHead incoming tight
    cases isHead
    have loose : ¬ incoming.precedence < Connective.negation.precedence :=
      Int.not_lt.mpr tight
    simp [Connective.actsBefore, loose, Connective.associativity]
  obtain ⟨pending, emitted, ran, listed, tight⟩ :=
    reads
      ⟨arrangement.emitted, .negation :: arrangement.waiting,
        arrangement.enclosing⟩
      yields
  refine ⟨pending ++ [.negation], emitted, ?_, ?_, ?_⟩
  · rw [run_cons, step_ofConnective, waits, Fault.ok_bind, ran]
    simp
  · rw [emit_append, listed]
    simp [emit, Formula.program]
  · intro held member
    rcases List.mem_append.mp member with inPending | isNegation
    · exact tight held inPending
    · rw [List.mem_singleton.mp isNegation]
      decide

/-- A group is read apart from what waits around it. -/
theorem group
    {tokens : List Token}
    {formula : Formula}
    (reads : Reads .equivalence tokens formula) :
    Reads .factor (Token.opening :: tokens ++ [Token.closing]) formula := by
  intro arrangement _
  obtain ⟨pending, emitted, ran, listed, _⟩ :=
    reads arrangement.openGroup (by simp [Yields, openGroup])
  refine ⟨[], emit pending emitted, ?_, listed, by simp⟩
  have opened :
      arrangement.step Token.opening = .ok arrangement.openGroup := by
    rfl
  rw [List.cons_append, run_cons, opened, Fault.ok_bind, run_append, ran]
  simp [openGroup, run, step, closeGroup, Token.role?, Token.closing,
    Except.bind]

/-- What is read at a level is read at every looser one. -/
theorem loosen
    {tighter looser : Level}
    {tokens : List Token}
    {formula : Formula}
    (order : looser.precedence ≤ tighter.precedence)
    (reads : Reads tighter tokens formula) :
    Reads looser tokens formula := by
  intro arrangement yields
  obtain ⟨pending, emitted, ran, listed, tight⟩ :=
    reads arrangement (yields.tighten order)
  exact ⟨pending, emitted, ran, listed, fun held member =>
    Int.le_trans order (tight held member)⟩

/--
A binary connective makes all of its left operand act, and waits for its right
operand, after which it is pending.
-/
theorem binary
    {operation : Binary}
    {leftTokens rightTokens : List Token}
    {left right : Formula}
    (leftReads : Reads operation.leftLevel leftTokens left)
    (rightReads : Reads operation.rightLevel rightTokens right) :
    Reads operation.level
      (leftTokens ++ Token.ofConnective (.binary operation) :: rightTokens)
      (.binary operation left right) := by
  intro arrangement yields
  obtain ⟨leftPending, leftEmitted, leftRan, leftListed, leftTight⟩ :=
    leftReads arrangement (yields.tighten operation.level_le_leftLevel)
  have ownPrecedence :
      operation.level.precedence ≤ (Connective.binary operation).precedence :=
    Int.le_of_eq operation.precedence_level.symm
  have waits :=
    addConnective_pending
      (fun held member =>
        Binary.actsBefore_of_leftLevel (leftTight held member))
      (fun held isHead =>
        yields held isHead (.binary operation) ownPrecedence)
      leftEmitted arrangement.enclosing
  have rightYields :
      Yields operation.rightLevel
        (.binary operation :: arrangement.waiting) := by
    intro held isHead incoming tight
    cases isHead
    exact Binary.not_actsBefore_of_rightLevel tight
  obtain ⟨rightPending, rightEmitted, rightRan, rightListed, rightTight⟩ :=
    rightReads
      ⟨emit leftPending leftEmitted, .binary operation :: arrangement.waiting,
        arrangement.enclosing⟩
      rightYields
  refine ⟨rightPending ++ [.binary operation], rightEmitted, ?_, ?_, ?_⟩
  · rw [run_append, leftRan]
    simp only [Except.bind]
    rw [run_cons, step_ofConnective, waits, Fault.ok_bind, rightRan]
    simp
  · rw [emit_append, rightListed, leftListed]
    simp [emit, Formula.program]
  · intro held member
    rcases List.mem_append.mp member with inPending | isOperation
    · exact Int.le_trans operation.level_le_rightLevel
        (rightTight held inPending)
    · rw [List.mem_singleton.mp isOperation]
      exact ownPrecedence

end Reads

/-- A derivable list reads its formula over everything that yields. -/
theorem reads_of_derives
    {level : Level}
    {tokens : List Token}
    {formula : Formula}
    (derives : Derives level tokens formula) :
    Reads level tokens formula := by
  induction derives using Derives.induction_levels with
  | atom names =>
      exact Reads.atom names
  | negation _ operandReads =>
      exact operandReads.negation
  | group _ innerReads =>
      exact innerReads.group
  | loosen order _ tighterReads =>
      exact tighterReads.loosen order
  | binary operation _ _ leftReads rightReads =>
      exact leftReads.binary rightReads

end Arrangement

namespace Program

open Formula (Derives)

/-- The program of a list that reads a formula is the listing of the formula. -/
theorem ofTokens_of_reads
    {level : Formula.Level}
    {tokens : List Token}
    {formula : Formula}
    (reads : Arrangement.Reads level tokens formula) :
    ofTokens tokens = .ok formula.program := by
  obtain ⟨pending, emitted, ran, listed, _⟩ :=
    reads Arrangement.start (by simp [Arrangement.Yields, Arrangement.start])
  rw [ofTokens, ran, Fault.ok_bind]
  simp only [Arrangement.start, List.append_nil] at listed
  simp [Arrangement.finish, Arrangement.start, listed]

/--
A derivable token list is arranged into the listing of the formula that its
derivation carries.
-/
theorem ofTokens_eq_program
    {tokens : List Token}
    {formula : Formula}
    (derives : Derives .equivalence tokens formula) :
    ofTokens tokens = .ok formula.program :=
  ofTokens_of_reads (Arrangement.reads_of_derives derives)

/-- Needless brackets and neighbouring negation signs are arranged as well. -/
theorem ofTokens_eq_program_of_brackets :
    Derives .equivalence
        [Token.ofConnective .negation, Token.ofConnective .negation,
          Token.opening, Token.ofName (Text.ascii "A"), Token.closing,
          Token.ofConnective (.binary .implication),
          Token.ofName (Text.ascii "B")]
        (.binary .implication
          (.negation (.negation (.atom (Text.ascii "A"))))
          (.atom (Text.ascii "B"))) ∧
      ofTokens
          [Token.ofConnective .negation, Token.ofConnective .negation,
            Token.opening, Token.ofName (Text.ascii "A"), Token.closing,
            Token.ofConnective (.binary .implication),
            Token.ofName (Text.ascii "B")] =
        .ok
          (Formula.binary .implication
            (.negation (.negation (.atom (Text.ascii "A"))))
            (.atom (Text.ascii "B"))).program := by
  have first : Derives .factor [Token.ofName (Text.ascii "A")] _ :=
    .atom rfl
  have second : Derives .factor [Token.ofName (Text.ascii "B")] _ :=
    .atom rfl
  have grouped :=
    first.ofFactor.ofConjunction.ofDisjunction.ofImplication.group
  have left := grouped.negation.negation.ofFactor.ofConjunction
  have right := second.ofFactor.ofConjunction.ofDisjunction
  have derives := (left.implication right).ofImplication
  exact ⟨derives, ofTokens_eq_program derives⟩

end Program

end Propositional
