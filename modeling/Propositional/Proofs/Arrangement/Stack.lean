import Propositional.Proofs.Arrangement.Waiting

namespace Propositional

/-!
# One stack for all that waits

All that waits and all that is open fits on one stack of tokens.  A reading that
keeps this stack does with every token what an arrangement does, so it gives a
token list the same program or the same fault.  What is known about the groups
of an arrangement holds on the stack between any two brackets.
-/

namespace Token

/-- Whether a token is a connective that acts before an incoming one. -/
def actsBefore (token : Token) (incoming : Connective) : Bool :=
  match token.role? with
  | some (.connective waiting) =>
      waiting.actsBefore incoming
  | _ =>
      false

theorem actsBefore_ofConnective
    (incoming waiting : Connective) :
    (ofConnective waiting).actsBefore incoming =
      waiting.actsBefore incoming := by
  rw [actsBefore, role?_ofConnective]

/-- A bracket acts before nothing. -/
theorem not_actsBefore_of_bracket
    (incoming : Connective)
    (token : Token)
    (opening : token.kind = .openBracket) :
    token.actsBefore incoming = false := by
  rw [actsBefore, role?_eq_opens_iff.mpr opening]

/-- Tokens rest on each other as their connectives do, and a bracket parts them. -/
def RestsOn (upper lower : Token) : Prop :=
  ∀ {above below : Connective},
    upper = ofConnective above →
      lower = ofConnective below →
        above.RestsOn below

/-- Where neighbouring tokens rest on each other, connectives without a bracket between do. -/
theorem isChain_restsOn_of_infix
    {stack : List Token}
    {connectives : List Connective}
    (resting : stack.IsChain RestsOn)
    (within : connectives.map ofConnective <:+: stack) :
    connectives.IsChain Connective.RestsOn := by
  have part := List.IsChain.infix resting within
  have mapped := (List.isChain_map ofConnective).mp part
  exact mapped.imp fun _ _ rests => rests rfl rfl

end Token

namespace Arrangement

open Token (ofConnective)

variable {arrangement : Arrangement}

/-- The state of a reading that keeps all that waits and is open on one stack. -/
structure Pending where
  /-- The tokens emitted so far, the latest first. -/
  emitted : List Token
  /-- The connectives that wait and the brackets that are open, the latest first. -/
  stack : List Token
  deriving Repr, DecidableEq

namespace Pending

/-- Nothing is read yet. -/
def start : Pending :=
  ⟨[], []⟩

/-- Emit tokens off the stack, as long as they are to leave it. -/
def release
    (leaves : Token → Bool) :
    (emitted stack : List Token) → Pending
  | emitted, [] =>
      ⟨emitted, []⟩
  | emitted, top :: below =>
      if leaves top then
        release leaves (top :: emitted) below
      else
        ⟨emitted, top :: below⟩

/-- Emit everything above the latest open bracket. -/
def releaseGroup (pending : Pending) : Pending :=
  release (fun token => token.kind != .openBracket) pending.emitted pending.stack

/-- Read one token. -/
def step
    (pending : Pending)
    (token : Token) :
    Except Fault Pending :=
  match token.role? with
  | some .operand =>
      .ok { pending with emitted := token :: pending.emitted }
  | some (.connective incoming) =>
      let released :=
        release (Token.actsBefore · incoming) pending.emitted pending.stack
      .ok { released with stack := token :: released.stack }
  | some .opens =>
      .ok { pending with stack := token :: pending.stack }
  | some .closes =>
      match pending.releaseGroup with
      | ⟨_, []⟩ =>
          .error .unmatchedClosing
      | ⟨emitted, _ :: below⟩ =>
          .ok ⟨emitted, below⟩
  | none =>
      .error (.unexpectedToken token.text)

/-- The program of a complete token list, in which no bracket is left open. -/
def finish (pending : Pending) : Except Fault Program :=
  match pending.releaseGroup with
  | ⟨emitted, []⟩ =>
      .ok emitted.reverse
  | ⟨_, _ :: _⟩ =>
      .error .unclosedOpening

/-- Read a token list from the left. -/
def run
    (pending : Pending)
    (tokens : List Token) :
    Except Fault Pending :=
  tokens.foldlM step pending

/--
A stack holds what waits in the innermost open bracket, the bracket below it,
then what waits around the bracket, and so on.
-/
inductive Stacks :
    List Token → List Connective → List (List Connective) → Prop where
  | empty :
      Stacks [] [] []
  | connective
      {stack : List Token}
      {waiting : List Connective}
      {enclosing : List (List Connective)}
      (latest : Connective) :
      Stacks stack waiting enclosing →
      Stacks (ofConnective latest :: stack) (latest :: waiting) enclosing
  | bracket
      {stack : List Token}
      {around : List Connective}
      {outer : List (List Connective)}
      {token : Token} :
      token.kind = .openBracket →
      Stacks stack around outer →
      Stacks (token :: stack) [] (around :: outer)

namespace Stacks

variable
  {stack : List Token}
  {waiting : List Connective}
  {enclosing : List (List Connective)}

/-- Tokens leave the stack as their connectives leave what waits, up to a bracket. -/
theorem release
    (stacked : Stacks stack waiting enclosing)
    {leaves : Token → Bool}
    {acts : Connective → Bool}
    (connectives :
      ∀ held, leaves (ofConnective held) = acts held)
    (brackets :
      ∀ token : Token, token.kind = .openBracket → leaves token = false)
    (emitted : List Token) :
    (Pending.release leaves emitted stack).emitted =
        emit (waiting.takeWhile acts) emitted ∧
      Stacks (Pending.release leaves emitted stack).stack
        (waiting.dropWhile acts) enclosing := by
  induction stacked generalizing emitted with
  | empty =>
      exact ⟨rfl, .empty⟩
  | connective latest stacked inductionHypothesis =>
      by_cases acting : acts latest = true
      · obtain ⟨later, remaining⟩ :=
          inductionHypothesis (ofConnective latest :: emitted)
        rw [List.takeWhile_cons_of_pos acting, List.dropWhile_cons_of_pos acting]
        simp only [Pending.release, connectives, acting, ↓reduceIte]
        refine ⟨?_, remaining⟩
        rw [later]
        simp [emit]
      · rw [List.takeWhile_cons_of_neg acting, List.dropWhile_cons_of_neg acting]
        simp only [Pending.release, connectives, acting]
        exact ⟨rfl, .connective latest stacked⟩
  | bracket opening stacked =>
      simp only [Pending.release, brackets _ opening]
      exact ⟨rfl, .bracket opening stacked⟩

/--
Everything above the latest bracket is what waits in it, and below the bracket is
what the stack held around it.
-/
theorem releaseGroup_cases
    (stacked : Stacks stack waiting enclosing)
    (emitted : List Token) :
    (enclosing = [] ∧
        Pending.releaseGroup ⟨emitted, stack⟩ = ⟨emit waiting emitted, []⟩) ∨
      ∃ bracket below around outer,
        enclosing = around :: outer ∧
          Pending.releaseGroup ⟨emitted, stack⟩ =
              ⟨emit waiting emitted, bracket :: below⟩ ∧
            Stacks below around outer := by
  have all : waiting.takeWhile (fun _ => true) = waiting :=
    List.takeWhile_eq_self_iff.mpr fun _ _ => rfl
  have none : waiting.dropWhile (fun _ => true) = [] :=
    List.dropWhile_eq_nil_iff.mpr fun _ _ => rfl
  obtain ⟨acted, remaining⟩ :=
    @release stack waiting enclosing stacked
      (fun token => token.kind != .openBracket) (fun _ => true)
      (fun _ => rfl) (fun _ opening => by simp [opening]) emitted
  -- Everything that waits acts, so what remains is empty or starts with a bracket.
  rw [all] at acted
  rw [none] at remaining
  unfold Pending.releaseGroup
  generalize Pending.release _ emitted stack = released at acted remaining ⊢
  rcases released with ⟨_, releasedStack⟩
  cases acted
  cases remaining with
  | empty =>
      exact .inl ⟨rfl, rfl⟩
  | bracket _ below =>
      exact .inr ⟨_, _, _, _, rfl, rfl, below⟩

/-- Only connectives and open brackets are on a stack. -/
theorem connective_or_bracket
    (stacked : Stacks stack waiting enclosing)
    {token : Token}
    (member : token ∈ stack) :
    (∃ connective, token = ofConnective connective) ∨
      token.kind = .openBracket := by
  induction stacked with
  | empty =>
      cases member
  | connective latest _ inductionHypothesis =>
      rcases List.mem_cons.mp member with isLatest | below
      · exact .inl ⟨latest, isLatest⟩
      · exact inductionHypothesis below
  | bracket opening _ inductionHypothesis =>
      rcases List.mem_cons.mp member with isBracket | below
      · exact .inr (isBracket ▸ opening)
      · exact inductionHypothesis below

/-- A connective on top of a stack is the one that waits latest. -/
theorem head?
    (stacked : Stacks stack waiting enclosing)
    {latest : Connective}
    (isHead : stack.head? = some (ofConnective latest)) :
    waiting.head? = some latest := by
  cases stacked with
  | empty =>
      cases isHead
  | connective top _ =>
      rw [Token.ofConnective_injective (Option.some.inj isHead)]
      rfl
  | bracket opening _ =>
      rw [Option.some.inj isHead] at opening
      cases opening

/-- Where the connectives of every group rest on each other, the tokens of the stack do. -/
theorem isChain_restsOn
    (stacked : Stacks stack waiting enclosing)
    (waitingOrdered : waiting.IsChain Connective.RestsOn)
    (enclosingOrdered :
      ∀ around ∈ enclosing, around.IsChain Connective.RestsOn) :
    stack.IsChain Token.RestsOn := by
  induction stacked with
  | empty =>
      exact .nil
  | connective latest stacked inductionHypothesis =>
      obtain ⟨onTop, restOrdered⟩ := List.isChain_cons.mp waitingOrdered
      refine List.isChain_cons.mpr
        ⟨?_, inductionHypothesis restOrdered enclosingOrdered⟩
      intro lower isHead above below isAbove isBelow
      obtain rfl := Token.ofConnective_injective isAbove
      subst isBelow
      exact onTop below (stacked.head? isHead)
  | bracket opening _ inductionHypothesis =>
      obtain ⟨aroundOrdered, outerOrdered⟩ :=
        List.forall_mem_cons.mp enclosingOrdered
      refine List.isChain_cons.mpr
        ⟨?_, inductionHypothesis aroundOrdered outerOrdered⟩
      rintro lower _ above below rfl _
      cases opening

end Stacks

/--
The order of a stack, on which a token stands above another one if it came to
wait later.
-/
structure Tiered (stack : List Token) : Prop where
  /-- Everything on the stack is a connective or an open bracket. -/
  connective_or_bracket :
    ∀ token ∈ stack,
      (∃ connective, token = ofConnective connective) ∨
        token.kind = .openBracket
  /-- Of two neighbours the upper one binds tighter, or the lower one groups to the right. -/
  neighbours :
    ∀ {upper lower : Connective},
      [ofConnective upper, ofConnective lower] <:+: stack →
        lower.precedence < upper.precedence ∨
          lower.precedence = upper.precedence ∧
            lower.associativity = .right
  /-- No two neighbours of one precedence both group to the left. -/
  not_both_left :
    ∀ {upper lower : Connective},
      [ofConnective upper, ofConnective lower] <:+: stack →
        upper.precedence = lower.precedence →
          ¬ (upper.associativity = .left ∧ lower.associativity = .left)
  /--
  Of connectives without a bracket between them at most one groups to the left
  at a precedence.
  -/
  countP_le_one :
    ∀ {connectives : List Connective},
      connectives.map ofConnective <:+: stack →
        ∀ precedence,
          connectives.countP (Connective.groupsLeftAt precedence) ≤ 1

/-- A stack whose neighbours rest on each other is in order. -/
theorem tiered_of_isChain
    {stack : List Token}
    (tokens :
      ∀ token ∈ stack,
        (∃ connective, token = ofConnective connective) ∨
          token.kind = .openBracket)
    (resting : stack.IsChain Token.RestsOn) :
    Tiered stack := by
  have neighbours :
      ∀ {upper lower : Connective},
        [ofConnective upper, ofConnective lower] <:+: stack →
          upper.RestsOn lower := by
    intro upper lower within
    exact List.isChain_pair.mp
      (@Token.isChain_restsOn_of_infix stack [upper, lower] resting within)
  refine ⟨tokens, neighbours, ?_, ?_⟩
  · intro upper lower within level bothLeft
    rcases neighbours within with looser | ⟨_, toRight⟩
    · exact absurd level.symm (Int.ne_of_lt looser)
    · simp [bothLeft.2] at toRight
  · intro connectives within precedence
    exact Connective.countP_groupsLeftAt_le_one
      (Token.isChain_restsOn_of_infix resting within) precedence

end Pending

/-- A reading with one stack has emitted and keeps on it what an arrangement does. -/
structure HeldBy (arrangement : Arrangement) (pending : Pending) : Prop where
  emitted :
    pending.emitted = arrangement.emitted
  stack :
    Pending.Stacks pending.stack arrangement.waiting arrangement.enclosing

namespace HeldBy

variable {pending : Pending}

theorem start : HeldBy start Pending.start where
  emitted :=
    rfl
  stack :=
    .empty

/-- Both readings fail alike at a token, or hold the same after it. -/
theorem step
    (held : arrangement.HeldBy pending)
    (token : Token) :
    Fault.Agree HeldBy (arrangement.step token) (pending.step token) := by
  rcases pending with ⟨emitted, stack⟩
  rcases arrangement with ⟨alike, waiting, enclosing⟩
  obtain ⟨rfl, stacked⟩ := held
  unfold Arrangement.step Pending.step
  match role : token.role? with
  | none =>
      exact .error _
  | some .operand =>
      exact .ok ⟨rfl, stacked⟩
  | some (.connective incoming) =>
      obtain rfl := Token.role?_eq_connective_iff.mp role
      obtain ⟨acted, remaining⟩ :=
        stacked.release
          (Token.actsBefore_ofConnective incoming)
          (Token.not_actsBefore_of_bracket incoming) emitted
      exact .ok ⟨acted, .connective incoming remaining⟩
  | some .opens =>
      exact .ok ⟨rfl, .bracket (Token.role?_eq_opens_iff.mp role) stacked⟩
  | some .closes =>
      rcases stacked.releaseGroup_cases emitted with
          ⟨rfl, released⟩ | ⟨_, _, _, _, rfl, released, below⟩
      · simp only [released, closeGroup]
        exact .error _
      · simp only [released, closeGroup]
        exact .ok ⟨rfl, below⟩

/-- Both readings fail alike in a list, or hold the same after it. -/
theorem run
    (held : arrangement.HeldBy pending)
    (tokens : List Token) :
    Fault.Agree HeldBy (arrangement.run tokens) (pending.run tokens) :=
  Fault.Agree.foldlM step held tokens

/-- Both readings have the same program, or leave a bracket open. -/
theorem finish (held : arrangement.HeldBy pending) :
    Fault.Agree Eq arrangement.finish pending.finish := by
  rcases pending with ⟨emitted, stack⟩
  rcases arrangement with ⟨alike, waiting, enclosing⟩
  obtain ⟨rfl, stacked⟩ := held
  unfold Arrangement.finish Pending.finish
  rcases stacked.releaseGroup_cases emitted with
      ⟨rfl, released⟩ | ⟨_, _, _, _, rfl, released, _⟩
  · simp only [released]
    exact .ok rfl
  · simp only [released]
    exact .error _

/-- A stack holds the groups of an arrangement in their order. -/
theorem tiered
    (held : arrangement.HeldBy pending)
    (ordered : arrangement.Ordered) :
    Pending.Tiered pending.stack :=
  Pending.tiered_of_isChain
    (fun _ member => held.stack.connective_or_bracket member)
    (held.stack.isChain_restsOn ordered.waiting ordered.enclosing)

end HeldBy

/--
Whatever tokens have been read without a fault, a reading with one stack has
read them as well, has emitted the same tokens, and holds on its stack just what
waits and is open.  Connectives and open brackets are all that is on the stack,
and of two neighbouring connectives the lower one binds looser, or equally tight
and groups to the right.  So between two brackets at most one connective of each
precedence that groups to the left is waiting.
-/
theorem exists_tiered_stack_of_run
    {tokens : List Token}
    (ran : start.run tokens = .ok arrangement) :
    ∃ pending : Pending,
      Pending.start.run tokens = .ok pending ∧
        arrangement.HeldBy pending ∧
        Pending.Tiered pending.stack := by
  have agree := HeldBy.start.run tokens
  rw [ran] at agree
  obtain ⟨pending, pendingRan, held⟩ := agree.exists_ok
  exact ⟨pending, pendingRan, held, held.tiered (Ordered.start.run ran)⟩

/-- What groups to the right piles up, also without operands and in an open bracket. -/
theorem exists_tiered_stack_of_open_bracket :
    start.run
          [ofConnective .negation, Token.ofName (Text.ascii "A"),
            ofConnective (.binary .disjunction), Token.opening,
            ofConnective (.binary .implication),
            ofConnective (.binary .implication), ofConnective .negation] =
        .ok
          ⟨[ofConnective .negation, Token.ofName (Text.ascii "A")],
            [.negation, .binary .implication, .binary .implication],
            [[.binary .disjunction]]⟩ ∧
      ∃ pending : Pending,
        Pending.start.run
              [ofConnective .negation, Token.ofName (Text.ascii "A"),
                ofConnective (.binary .disjunction), Token.opening,
                ofConnective (.binary .implication),
                ofConnective (.binary .implication),
                ofConnective .negation] =
            .ok pending ∧
          HeldBy
            ⟨[ofConnective .negation, Token.ofName (Text.ascii "A")],
              [.negation, .binary .implication, .binary .implication],
              [[.binary .disjunction]]⟩
            pending ∧
          Pending.Tiered pending.stack :=
  ⟨rfl, exists_tiered_stack_of_run rfl⟩

end Arrangement

namespace Program

/-- Reading with one stack gives every token list its program, or its fault. -/
theorem ofTokens_eq_pending (tokens : List Token) :
    ofTokens tokens =
      Arrangement.Pending.start.run tokens >>= Arrangement.Pending.finish := by
  have agree :=
    (Arrangement.HeldBy.start.run tokens).bind Arrangement.HeldBy.finish
  rcases agree.error_or_ok with
      ⟨_, failed, pendingFailed⟩ | ⟨_, _, finished, pendingFinished, rfl⟩
  · exact failed.trans pendingFailed.symm
  · exact finished.trans pendingFinished.symm

end Program

end Propositional
