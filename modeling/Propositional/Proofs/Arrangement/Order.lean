import Mathlib.Data.List.Pairwise
import Propositional.Proofs.Arrangement.Conservation

namespace Propositional

/-!
# Where arranging puts a token

Every token is numbered by its place in the list, and keeps its number while it
waits and when it is emitted.  A variable is emitted as soon as it is read,
after everything emitted so far and before everything that still waits or is
still to come.  So arranging moves connectives back, but never ahead of a
variable that was read before them.
-/

namespace Token

/-- The tokens of a list that are no brackets, each with its place in the list. -/
def numbered (tokens : List Token) : List (Token × Nat) :=
  tokens.zipIdx.filter fun entry => !entry.1.isBracket

theorem numbered_append_singleton
    (tokens : List Token)
    (token : Token) :
    numbered (tokens ++ [token]) =
      numbered tokens ++
        (withoutBrackets [token]).map (·, tokens.length) := by
  cases bracket : token.isBracket <;>
    simp [numbered, withoutBrackets, List.zipIdx_append, bracket]

theorem lt_length_of_mem_numbered
    {tokens : List Token}
    {entry : Token × Nat}
    (member : entry ∈ numbered tokens) :
    entry.2 < tokens.length :=
  List.snd_lt_of_mem_zipIdx (List.mem_filter.mp member).1

/-- Of two numbered tokens, a variable that is emitted later was read later. -/
def InOrder (earlier later : Token × Nat) : Prop :=
  later.1.kind = .variableName → earlier.2 < later.2

/--
In a list that is in order, whatever was read after a variable stands after the
variable.
-/
theorem pair_sublist_of_inOrder
    {placed : List (Token × Nat)}
    {first second : Token × Nat}
    (ordered : placed.Pairwise InOrder)
    (firstPlaced : first ∈ placed)
    (secondPlaced : second ∈ placed)
    (variableName : first.1.kind = .variableName)
    (readBefore : first.2 < second.2) :
    [first, second].Sublist placed := by
  obtain ⟨before, after, rfl⟩ := List.append_of_mem firstPlaced
  rcases List.mem_append.mp secondPlaced with inBefore | notBefore
  · have overtaken :=
      (List.pairwise_append.mp ordered).2.2 second inBefore first (by simp)
    exact absurd (overtaken variableName) (Nat.lt_asymm readBefore)
  · rcases List.mem_cons.mp notBefore with isFirst | inAfter
    · rw [isFirst] at readBefore
      exact absurd readBefore (Nat.lt_irrefl _)
    · have afterFirst : [first, second].Sublist (first :: after) :=
        List.Sublist.cons_cons first (List.singleton_sublist.mpr inAfter)
      exact afterFirst.trans (List.sublist_append_right before _)

end Token

namespace Arrangement

open Token (InOrder numbered variableTokens withoutBrackets)

/-- The contents of an arrangement, each with the place at which it was read. -/
structure Trail where
  /-- The tokens emitted so far, the latest first. -/
  emitted : List (Token × Nat)
  /-- The connectives waiting in the innermost open bracket, the latest first. -/
  waiting : List (Connective × Nat)
  /-- The connectives waiting around each open bracket, the innermost first. -/
  enclosing : List (List (Connective × Nat))

namespace Trail

/-- The arrangement that a trail leaves when its numbers are dropped. -/
def arrangement (trail : Trail) : Arrangement where
  emitted :=
    trail.emitted.map Prod.fst
  waiting :=
    trail.waiting.map Prod.fst
  enclosing :=
    trail.enclosing.map fun around => around.map Prod.fst

/-- The token of a numbered connective, under the same number. -/
def tokenOf (entry : Connective × Nat) : Token × Nat :=
  (Token.ofConnective entry.1, entry.2)

/-- Emit numbered connectives one after the other. -/
def emit
    (connectives : List (Connective × Nat))
    (emitted : List (Token × Nat)) :
    List (Token × Nat) :=
  (connectives.map tokenOf).reverse ++ emitted

/-- The numbered tokens emitted and still to be emitted. -/
def contents (trail : Trail) : List (Token × Nat) :=
  trail.emitted ++
    (trail.waiting ++ trail.enclosing.flatten).map tokenOf

theorem map_fst_emit
    (connectives : List (Connective × Nat))
    (emitted : List (Token × Nat)) :
    (emit connectives emitted).map Prod.fst =
      Arrangement.emit
        (connectives.map Prod.fst) (emitted.map Prod.fst) := by
  simp [emit, Arrangement.emit, tokenOf, Function.comp_def]

theorem emit_perm
    (connectives : List (Connective × Nat))
    (emitted : List (Token × Nat)) :
    (emit connectives emitted).Perm
      (emitted ++ connectives.map tokenOf) :=
  List.perm_append_comm.trans ((List.reverse_perm _).append_left emitted)

/-- Emitted connectives overtake no variable. -/
theorem emit_inOrder
    {emitted : List (Token × Nat)}
    (ordered : emitted.Pairwise (flip InOrder))
    (connectives : List (Connective × Nat)) :
    (emit connectives emitted).Pairwise (flip InOrder) := by
  have noVariable :
      ∀ later ∈ (connectives.map tokenOf).reverse,
        ∀ earlier, flip InOrder later earlier := by
    intro later member earlier variableName
    obtain ⟨entry, _, rfl⟩ :=
      List.mem_map.mp (List.mem_reverse.mp member)
    cases variableName
  refine List.pairwise_append.mpr ⟨?_, ordered, ?_⟩
  · exact List.pairwise_of_forall_mem_list
      fun later member earlier _ => noVariable later member earlier
  · exact fun later member earlier _ => noVariable later member earlier

/--
A trail accounts for the tokens read: it holds each of them with its place, and
has emitted them in order.
-/
structure Accounts (trail : Trail) (tokens : List Token) : Prop where
  contents :
    trail.contents.Perm (numbered tokens)
  ordered :
    trail.emitted.Pairwise (flip InOrder)

namespace Accounts

variable {trail : Trail} {tokens : List Token}

/-- Everything in a trail was read before the next token. -/
theorem lt_length
    (accounts : trail.Accounts tokens)
    {entry : Token × Nat}
    (member : entry ∈ trail.emitted) :
    entry.2 < tokens.length := by
  apply Token.lt_length_of_mem_numbered
  exact accounts.contents.mem_iff.mp (List.mem_append_left _ member)

/-- A variable is emitted in order, because it is the token read last. -/
theorem addOperand
    (accounts : trail.Accounts tokens)
    {token : Token}
    (operand : withoutBrackets [token] = [token]) :
    Accounts
      { trail with emitted := (token, tokens.length) :: trail.emitted }
      (tokens ++ [token]) where
  contents := by
    rw [Token.numbered_append_singleton, operand]
    exact (accounts.contents.cons _).trans
      (List.perm_append_singleton _ _).symm
  ordered := by
    refine List.pairwise_cons.mpr ⟨?_, accounts.ordered⟩
    intro earlier member _
    exact accounts.lt_length member

/-- A connective waits under its own number; those that act keep theirs. -/
theorem addConnective
    (accounts : trail.Accounts tokens)
    {acting remaining : List (Connective × Nat)}
    (divided : acting ++ remaining = trail.waiting)
    (incoming : Connective) :
    Accounts
      { trail with
        emitted := emit acting trail.emitted
        waiting := (incoming, tokens.length) :: remaining }
      (tokens ++ [Token.ofConnective incoming]) where
  contents := by
    have held :
        trail.contents =
          (trail.emitted ++ acting.map tokenOf) ++
            (remaining ++ trail.enclosing.flatten).map tokenOf := by
      simp [Trail.contents, ← divided]
    have read :
        (withoutBrackets [Token.ofConnective incoming]).map
            (·, tokens.length) =
          [tokenOf (incoming, tokens.length)] := by
      rfl
    rw [Token.numbered_append_singleton, read]
    calc
      (emit acting trail.emitted ++
          tokenOf (incoming, tokens.length) ::
            (remaining ++ trail.enclosing.flatten).map tokenOf).Perm
        ((trail.emitted ++ acting.map tokenOf) ++
          tokenOf (incoming, tokens.length) ::
            (remaining ++ trail.enclosing.flatten).map tokenOf) :=
        (emit_perm acting trail.emitted).append_right _
      _ |>.Perm
        (tokenOf (incoming, tokens.length) :: trail.contents) := by
        rw [held]
        exact List.perm_middle
      _ |>.Perm
        (numbered tokens ++ [tokenOf (incoming, tokens.length)]) :=
        (accounts.contents.cons _).trans (List.perm_append_singleton _ _).symm
  ordered :=
    emit_inOrder accounts.ordered acting

/-- Brackets move what waits, and emit it in order. -/
theorem addBracket
    (accounts : trail.Accounts tokens)
    {token : Token}
    {later : Trail}
    (bracket : withoutBrackets [token] = [])
    (same : later.contents.Perm trail.contents)
    (ordered : later.emitted.Pairwise (flip InOrder)) :
    later.Accounts (tokens ++ [token]) where
  contents := by
    rw [Token.numbered_append_singleton, bracket, List.map_nil,
      List.append_nil]
    exact same.trans accounts.contents
  ordered :=
    ordered

/-- Reading one more token keeps the account. -/
theorem exists_step
    (accounts : trail.Accounts tokens)
    {next : Arrangement}
    {token : Token}
    (stepped : trail.arrangement.step token = .ok next) :
    ∃ later : Trail,
      later.arrangement = next ∧ later.Accounts (tokens ++ [token]) := by
  rcases step_cases stepped with
      ⟨variableName, _, rfl⟩ | ⟨incoming, rfl, rfl⟩ | ⟨opening, rfl⟩ |
        ⟨around, outer, closing, groups, rfl⟩
  · have operand : withoutBrackets [token] = [token] := by
      simp [withoutBrackets, Token.isBracket, variableName]
    exact ⟨_, rfl, accounts.addOperand operand⟩
  · have divided :=
      @List.takeWhile_append_dropWhile _
        (fun entry => Connective.actsBefore entry.1 incoming) trail.waiting
    refine ⟨_, ?_, accounts.addConnective divided incoming⟩
    simp only [arrangement, Arrangement.addConnective, map_fst_emit,
      List.takeWhile_map, List.dropWhile_map, List.map_cons]
    rfl
  · have bracket : withoutBrackets [token] = [] := by
      simp [withoutBrackets, Token.isBracket, opening]
    refine
      ⟨⟨trail.emitted, [], trail.waiting :: trail.enclosing⟩, rfl,
        accounts.addBracket bracket ?_ accounts.ordered⟩
    simp [Trail.contents]
  · have bracket : withoutBrackets [token] = [] := by
      simp [withoutBrackets, Token.isBracket, closing]
    obtain ⟨inner, rest, held, rfl, rfl⟩ := List.map_eq_cons_iff.mp groups
    refine
      ⟨⟨emit trail.waiting trail.emitted, inner, rest⟩, ?_,
        accounts.addBracket bracket ?_
          (emit_inOrder accounts.ordered trail.waiting)⟩
    · simp only [arrangement, map_fst_emit]
    · have emitted :=
        (emit_perm trail.waiting trail.emitted).append_right
          ((inner ++ rest.flatten).map tokenOf)
      simpa [Trail.contents, held] using emitted

/-- Reading a list keeps the account. -/
theorem exists_run
    (accounts : trail.Accounts tokens)
    {final : Arrangement}
    {later : List Token}
    (ran : trail.arrangement.run later = .ok final) :
    ∃ finalTrail : Trail,
      finalTrail.arrangement = final ∧
        finalTrail.Accounts (tokens ++ later) := by
  induction later generalizing trail tokens with
  | nil =>
      cases ran
      exact ⟨trail, rfl, by simpa using accounts⟩
  | cons token later inductionHypothesis =>
      obtain ⟨next, stepped, continued⟩ := Fault.bind_eq_ok_iff.mp ran
      obtain ⟨nextTrail, rfl, nextAccounts⟩ := accounts.exists_step stepped
      obtain ⟨finalTrail, isFinal, finalAccounts⟩ :=
        inductionHypothesis nextAccounts continued
      exact ⟨finalTrail, isFinal, by simpa using finalAccounts⟩

end Accounts

/-- Nothing is read yet. -/
def start : Trail :=
  ⟨[], [], []⟩

theorem accounts_start : start.Accounts [] where
  contents :=
    List.Perm.refl []
  ordered :=
    List.Pairwise.nil

end Trail

end Arrangement

namespace Program

open Arrangement (Trail)
open Token (InOrder numbered ofName ofConnective variableTokens withoutBrackets)

/--
The tokens of a program can be numbered by their places in the token list, so
that whatever stands before a variable in the program stands before it in the
list.
-/
theorem exists_inOrder_of_ofTokens
    {tokens : List Token}
    {program : Program}
    (arranged : ofTokens tokens = .ok program) :
    ∃ placed : List (Token × Nat),
      placed.map Prod.fst = program ∧
        placed.Perm (numbered tokens) ∧
        placed.Pairwise InOrder := by
  obtain ⟨final, ran, finished⟩ := Fault.bind_eq_ok_iff.mp arranged
  obtain ⟨closed, rfl⟩ := Arrangement.finish_eq_ok_iff.mp finished
  obtain ⟨trail, rfl, accounts⟩ := Trail.accounts_start.exists_run ran
  have nothingAround : trail.enclosing = [] := List.map_eq_nil_iff.mp closed
  refine ⟨(Trail.emit trail.waiting trail.emitted).reverse, ?_, ?_, ?_⟩
  · rw [List.map_reverse, Trail.map_fst_emit]
    rfl
  · have held :
        trail.contents = trail.emitted ++ trail.waiting.map Trail.tokenOf := by
      simp [Trail.contents, nothingAround]
    have kept := accounts.contents
    rw [held] at kept
    exact (List.reverse_perm _).trans
      ((Trail.emit_perm trail.waiting trail.emitted).trans kept)
  · exact List.pairwise_reverse.mpr
      (Trail.emit_inOrder accounts.ordered trail.waiting)

/--
Arranging keeps every token and invents none.  The program is a permutation of
the tokens that are no brackets, and holds the variables in their old order.
Its tokens can be numbered by their places in the list, each place used once, so
that whatever comes after a variable in the list, connectives and variables
alike, comes after it in the program as well.
-/
theorem exists_numbering_of_ofTokens
    {tokens : List Token}
    {program : Program}
    (arranged : ofTokens tokens = .ok program) :
    program.Perm (withoutBrackets tokens) ∧
      (∀ token ∈ program, token.isBracket = false) ∧
      variableTokens program = variableTokens tokens ∧
      ∃ placed : List (Token × Nat),
        placed.map Prod.fst = program ∧
          placed.Perm (numbered tokens) ∧
          ∀ first ∈ numbered tokens,
            ∀ second ∈ numbered tokens,
              first.1.kind = .variableName →
                first.2 < second.2 →
                [first, second].Sublist placed := by
  have permuted := perm_of_ofTokens arranged
  obtain ⟨placed, isProgram, numbering, ordered⟩ :=
    exists_inOrder_of_ofTokens arranged
  refine
    ⟨permuted, ?_, variableTokens_of_ofTokens arranged,
      placed, isProgram, numbering, ?_⟩
  · intro token member
    have kept := (List.mem_filter.mp (permuted.mem_iff.mp member)).2
    simpa using kept
  · intro first firstRead second secondRead variableName readBefore
    exact Token.pair_sublist_of_inOrder ordered
      (numbering.mem_iff.mpr firstRead) (numbering.mem_iff.mpr secondRead)
      variableName readBefore

/-- Order is kept in lists that are not well formed as well. -/
theorem exists_numbering_of_ofTokens_of_dangling_connectives :
    ofTokens
          [ofConnective .negation, ofName (Text.ascii "A"), Token.opening,
            ofConnective (.binary .implication), ofName (Text.ascii "B"),
            Token.closing, ofName (Text.ascii "A"),
            ofConnective (.binary .conjunction)] =
        .ok
          [ofName (Text.ascii "A"), ofName (Text.ascii "B"),
            ofConnective (.binary .implication), ofName (Text.ascii "A"),
            ofConnective .negation, ofConnective (.binary .conjunction)] ∧
      ∃ placed : List (Token × Nat),
        placed.map Prod.fst =
            [ofName (Text.ascii "A"), ofName (Text.ascii "B"),
              ofConnective (.binary .implication), ofName (Text.ascii "A"),
              ofConnective .negation, ofConnective (.binary .conjunction)] ∧
          placed.Perm
            [(ofConnective .negation, 0), (ofName (Text.ascii "A"), 1),
              (ofConnective (.binary .implication), 3),
              (ofName (Text.ascii "B"), 4), (ofName (Text.ascii "A"), 6),
              (ofConnective (.binary .conjunction), 7)] ∧
          [(ofName (Text.ascii "B"), 4),
              (ofConnective (.binary .conjunction), 7)].Sublist placed := by
  have arranged :
      ofTokens
          [ofConnective .negation, ofName (Text.ascii "A"), Token.opening,
            ofConnective (.binary .implication), ofName (Text.ascii "B"),
            Token.closing, ofName (Text.ascii "A"),
            ofConnective (.binary .conjunction)] =
        .ok
          [ofName (Text.ascii "A"), ofName (Text.ascii "B"),
            ofConnective (.binary .implication), ofName (Text.ascii "A"),
            ofConnective .negation, ofConnective (.binary .conjunction)] := by
    rfl
  obtain ⟨_, _, _, placed, isProgram, numbering, ordered⟩ :=
    exists_numbering_of_ofTokens arranged
  refine ⟨arranged, placed, isProgram, numbering, ?_⟩
  exact ordered _ (by decide) _ (by decide) rfl (by decide)

end Program

end Propositional
