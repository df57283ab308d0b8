import Propositional.Proofs.Arrangement.Grammar
import Propositional.Proofs.Formula.Placement

namespace Propositional

/-!
# Which token lists are well formed

The arrangement checks brackets and nothing else, and a program has a result
only if its tokens gain exactly one operand.  A separated token list that passes
both checks is derivable.  The invariant keeps, for every open bracket, the list
read before it, which awaits a factor, and that the tokens still to come gain
exactly what there is room for.
-/

open Token (Lexeme Separated gains)

namespace Formula

open Token (negationSign)

/-- A list read so far is derivable after an operand and awaits a factor otherwise. -/
def Stands (previous : Token) (tokens : List Token) : Prop :=
  if previous.endsOperand then
    ∃ formula, Derives .equivalence tokens formula
  else
    Awaits tokens

namespace Stands

variable {previous : Token} {tokens : List Token}

theorem derives
    (stands : Stands previous tokens)
    (full : previous.room = 0) :
    ∃ formula, Derives .equivalence tokens formula := by
  cases ends : previous.endsOperand with
  | false =>
      rw [Token.room_eq_one ends] at full
      cases full
  | true =>
      rw [Stands, if_pos ends] at stands
      exact stands

theorem awaits
    (stands : Stands previous tokens)
    (vacant : previous.room = 1) :
    Awaits tokens := by
  cases ends : previous.endsOperand with
  | false =>
      rw [Stands, if_neg (by simp [ends])] at stands
      exact stands
  | true =>
      rw [Token.room, if_pos ends] at vacant
      cases vacant

end Stands

end Formula

namespace Arrangement

open Formula (Awaits Derives Stands)

/-- The tokens read: the lists before the open brackets, and the innermost list. -/
def readTokens : List (List Token) → List Token → List Token
  | [], current =>
      current
  | before :: outer, current =>
      readTokens outer (before ++ Token.opening :: current)

theorem readTokens_append
    (around : List (List Token))
    (current rest : List Token) :
    readTokens around (current ++ rest) = readTokens around current ++ rest := by
  induction around generalizing current with
  | nil =>
      rfl
  | cons before outer inductionHypothesis =>
      rw [readTokens, readTokens, ← inductionHypothesis, List.append_assoc,
        List.cons_append]

/--
The lists before the open brackets await a factor, and the innermost list stands
after the token read last.
-/
structure Places
    (arrangement : Arrangement)
    (previous : Token)
    (around : List (List Token))
    (current : List Token) : Prop where
  depth :
    around.length = arrangement.enclosing.length
  awaiting :
    ∀ before ∈ around, Awaits before
  standing :
    Stands previous current

/-- A group that closes after an operand completes the list before it. -/
theorem Places.close
    {arrangement : Arrangement}
    {previous : Token}
    {around : List (List Token)}
    {current : List Token}
    {waiting : List Connective}
    {outer : List (List Connective)}
    (places : Places arrangement previous around current)
    (full : previous.room = 0)
    (groups : arrangement.enclosing = waiting :: outer)
    (emitted : List Token) :
    ∃ laterAround laterCurrent,
      Places ⟨emitted, waiting, outer⟩ Token.closing
          laterAround laterCurrent ∧
        readTokens laterAround laterCurrent =
          readTokens around current ++ [Token.closing] := by
  obtain ⟨depth, awaiting, standing⟩ := places
  rw [groups] at depth
  obtain ⟨before, around, rfl⟩ :=
    List.exists_cons_of_length_eq_add_one depth
  obtain ⟨beforeAwaits, others⟩ := List.forall_mem_cons.mp awaiting
  obtain ⟨formula, derives⟩ := standing.derives full
  have completed := beforeAwaits _ _ derives.group
  refine
    ⟨around, before ++ (Token.opening :: current ++ [Token.closing]),
      ⟨Nat.succ.inj depth, others, completed⟩, ?_⟩
  rw [readTokens, ← readTokens_append, List.append_assoc]

/--
A token that takes exactly the room it leaves open keeps every operand in its
place.
-/
theorem Places.step
    {arrangement next : Arrangement}
    {previous token : Token}
    {around : List (List Token)}
    {current : List Token}
    (places : Places arrangement previous around current)
    (lexeme : Lexeme token)
    (balanced : token.gain + token.room = previous.room)
    (stepped : arrangement.step token = .ok next) :
    ∃ laterAround laterCurrent,
      Places next token laterAround laterCurrent ∧
        readTokens laterAround laterCurrent =
          readTokens around current ++ [token] := by
  have ⟨depth, awaiting, standing⟩ := places
  cases lexeme with
  | letter capital =>
      have names := Token.namesVariable_iff.mpr ⟨_, rfl, capital⟩
      rw [step_ofName arrangement names] at stepped
      cases stepped
      have completed := standing.awaits balanced.symm _ _ (Derives.atom names)
      exact ⟨around, current ++ [_], ⟨depth, awaiting, completed⟩,
        readTokens_append around current _⟩
  | symbol connective =>
      rw [step_ofConnective] at stepped
      cases stepped
      refine ⟨around, current ++ [_], ⟨depth, awaiting, ?_⟩,
        readTokens_append around current _⟩
      cases connective with
      | negation =>
          exact (standing.awaits balanced.symm).negation
      | binary operation =>
          rw [Token.gain_ofConnective] at balanced
          obtain ⟨formula, derives⟩ := standing.derives balanced.symm
          exact Awaits.binary derives operation
  | opening =>
      cases stepped
      have outer := standing.awaits balanced.symm
      refine ⟨current :: around, [], ⟨?_, ?_, Awaits.nil⟩, ?_⟩
      · exact congrArg Nat.succ depth
      · exact List.forall_mem_cons.mpr ⟨outer, awaiting⟩
      · exact readTokens_append around current [Token.opening]
  | closing =>
      rcases step_cases stepped with
          ⟨variableName, _⟩ | ⟨incoming, isConnective, _⟩ | ⟨opens, _⟩ |
            ⟨waiting, outer, _, groups, rfl⟩
      · cases variableName
      · cases isConnective
      · cases opens
      · exact places.close balanced.symm groups _

/--
What is left of a separated list, if it gains exactly what there is room for,
completes the tokens read before it.
-/
theorem Places.derives_of_run
    {arrangement final : Arrangement}
    {previous : Token}
    {around : List (List Token)}
    {current tokens : List Token}
    (places : Places arrangement previous around current)
    (lexemes : ∀ token ∈ tokens, Lexeme token)
    (separated : Separated (previous :: tokens))
    (balanced : gains tokens = previous.room)
    (ran : arrangement.run tokens = .ok final)
    (closed : final.enclosing = []) :
    ∃ formula,
      Derives .equivalence (readTokens around current ++ tokens) formula := by
  induction tokens generalizing arrangement previous around current with
  | nil =>
      cases ran
      obtain ⟨depth, _, standing⟩ := places
      rw [closed] at depth
      rw [List.eq_nil_of_length_eq_zero depth, List.append_nil]
      exact standing.derives balanced.symm
  | cons token tokens inductionHypothesis =>
      obtain ⟨lexeme, later⟩ := List.forall_mem_cons.mp lexemes
      obtain ⟨apart, rest⟩ := List.isChain_cons_cons.mp separated
      obtain ⟨next, stepped, continued⟩ := Fault.bind_eq_ok_iff.mp ran
      have taken := Token.gain_add_room_le lexeme apart
      have left := Token.gains_le_room later rest
      rw [Token.gains_cons] at balanced
      have balancedHere : token.gain + token.room = previous.room := by
        omega
      have balancedLater : gains tokens = token.room := by
        omega
      obtain ⟨laterAround, laterCurrent, laterPlaces, read⟩ :=
        places.step lexeme balancedHere stepped
      obtain ⟨formula, derives⟩ :=
        inductionHypothesis laterPlaces later rest balancedLater continued
      rw [read, List.append_assoc] at derives
      exact ⟨formula, derives⟩

end Arrangement

namespace Program

open Formula (Awaits Derives)

/-- The listing of a formula gains one operand. -/
theorem gains_program (formula : Formula) : gains formula.program = 1 := by
  induction formula with
  | atom name =>
      rfl
  | negation operand inductionHypothesis =>
      rw [Formula.program, Token.gains_append, inductionHypothesis]
      rfl
  | binary operation left right leftHypothesis rightHypothesis =>
      rw [Formula.program, Token.gains_append, Token.gains_append,
        leftHypothesis, rightHypothesis, Token.gains_cons,
        Token.gain_ofConnective]
      rfl

/--
A list of lexemes that is arranged into the listing of a formula is derivable
exactly if no operand ends right before another one begins.
-/
theorem exists_derives_iff_separated
    {tokens : List Token}
    {formula : Formula}
    (lexemes : ∀ token ∈ tokens, Lexeme token)
    (arranged : ofTokens tokens = .ok formula.program) :
    (∃ derived, Derives .equivalence tokens derived) ↔ Separated tokens := by
  constructor
  · rintro ⟨derived, derives⟩
    exact derives.separated
  · intro separated
    obtain ⟨final, ran, finished⟩ := Fault.bind_eq_ok_iff.mp arranged
    obtain ⟨closed, _⟩ := Arrangement.finish_eq_ok_iff.mp finished
    have single : gains tokens = 1 := by
      rw [← Token.gains_withoutBrackets,
        ← Token.gains_perm (perm_of_ofTokens arranged), gains_program]
    have places :
        Arrangement.start.Places Token.opening [] [] :=
      ⟨rfl, by simp, Awaits.nil⟩
    exact
      places.derives_of_run lexemes (separated.cons rfl) single ran closed

end Program

end Propositional
