import Mathlib.Data.List.Destutter
import Mathlib.Data.List.Sort
import Propositional.Proofs.Arrangement.Conservation

namespace Propositional

/-!
# The names before and after arranging

The names of a token list are the only strictly ascending list of the texts of
its variable tokens, in the order of unsigned bytes.  So they depend on the set
of these texts alone, any way to sort the texts leads to them once repeats are
dropped, and a token list has the names of its program.
-/

namespace Text

/--
The order of texts: one stands before the other if it is a proper beginning of
it, or has the smaller byte, as an unsigned number, where the two first differ.
-/
inductive Precedes : Text → Text → Prop where
  | beginning
      (text : Text)
      (byte : Byte)
      (rest : Text) :
      Precedes text (text ++ byte :: rest)
  | smaller
      (common : Text)
      {lower upper : Byte}
      (lowerRest upperRest : Text) :
      lower.toNat < upper.toNat →
      Precedes (common ++ lower :: lowerRest) (common ++ upper :: upperRest)

/-- A text before another one stays before it after the same byte. -/
theorem Precedes.cons
    {first second : Text}
    (precedes : Precedes first second)
    (byte : Byte) :
    Precedes (byte :: first) (byte :: second) := by
  cases precedes with
  | beginning _ next rest =>
      exact .beginning (byte :: first) next rest
  | smaller common lowerRest upperRest below =>
      exact .smaller (byte :: common) lowerRest upperRest below

/-- Texts are compared in their order. -/
theorem precedes_iff_lt {first second : Text} :
    Precedes first second ↔ first < second := by
  constructor
  · intro precedes
    cases precedes with
    | beginning _ byte rest =>
        have extended : first ++ [] < first ++ byte :: rest :=
          List.append_left_lt (List.nil_lt_cons byte rest)
        rwa [List.append_nil] at extended
    | smaller common lowerRest upperRest below =>
        apply List.append_left_lt
        exact List.cons_lt_cons_iff.mpr (.inl (UInt8.lt_iff_toNat_lt.mpr below))
  · intro before
    induction first generalizing second with
    | nil =>
        cases second with
        | nil =>
            exact absurd before (List.lt_irrefl [])
        | cons byte rest =>
            exact .beginning [] byte rest
    | cons lower lowerRest inductionHypothesis =>
        cases second with
        | nil =>
            exact absurd before (List.not_lt_nil _)
        | cons upper upperRest =>
            rcases List.cons_lt_cons_iff.mp before with below | ⟨rfl, later⟩
            · exact
                .smaller [] lowerRest upperRest
                  (UInt8.lt_iff_toNat_lt.mp below)
            · exact (inductionHypothesis later).cons lower

end Text

namespace Token

/-- The names of a token list ascend strictly in the order of texts. -/
theorem names_ascend (tokens : List Token) :
    (names tokens).Pairwise Text.Precedes :=
  (names_pairwise tokens).imp Text.precedes_iff_lt.mpr

example :
    names
        [ofName [255], ofName (Text.ascii "b"), ofName (Text.ascii "AB"),
          ofName [], opening, ofName (Text.ascii "A"), ofName [255]] =
      [[], Text.ascii "A", Text.ascii "AB", Text.ascii "b", [255]] := by
  decide

/-- The names are the only strictly ascending list of the texts of the variables. -/
theorem eq_names_of_pairwise
    {tokens : List Token}
    {listed : List Text}
    (ascending : listed.Pairwise Text.Precedes)
    (members : ∀ name, name ∈ listed ↔ ofName name ∈ tokens) :
    listed = names tokens := by
  have compared : listed.Pairwise (· < ·) :=
    ascending.imp Text.precedes_iff_lt.mp
  refine compared.eq_of_mem_iff (names_pairwise tokens) ?_
  intro name
  rw [members, mem_names]

/-- Ascending texts ascend strictly once adjacent repeats are dropped. -/
theorem pairwise_destutter
    {sorted : List Text}
    (ascending : sorted.Pairwise fun first second => ¬ second < first) :
    (sorted.destutter (· ≠ ·)).Pairwise (· < ·) := by
  refine List.IsChain.pairwise (List.isChain_iff_getElem.mpr ?_)
  intro index inside
  have different :=
    List.isChain_iff_getElem.mp (sorted.isChain_destutter (· ≠ ·)) index inside
  have kept := ascending.sublist (sorted.destutter_sublist (· ≠ ·))
  have notAfter :=
    List.pairwise_iff_getElem.mp kept index (index + 1) (Nat.lt_of_succ_lt inside)
      inside (Nat.lt_succ_self index)
  exact name_lt_of_ne_of_not_lt (Ne.symm different) notAfter

/-- Dropping adjacent repeats drops no text altogether. -/
theorem mem_destutter
    {sorted : List Text}
    {name : Text} :
    name ∈ sorted.destutter (· ≠ ·) ↔ name ∈ sorted := by
  refine ⟨fun kept => (sorted.destutter_sublist (· ≠ ·)).subset kept, ?_⟩
  cases sorted with
  | nil =>
      exact id
  | cons first rest =>
      rw [List.destutter_cons']
      induction rest generalizing first with
      | nil =>
          exact id
      | cons next rest inductionHypothesis =>
          intro listed
          by_cases different : first ≠ next
          · rw [List.destutter'_cons_pos rest different]
            rcases List.mem_cons.mp listed with isFirst | later
            · exact List.mem_cons.mpr (.inl isFirst)
            · exact List.mem_cons_of_mem first (inductionHypothesis next later)
          · rw [List.destutter'_cons_neg rest different]
            obtain rfl : first = next := not_not.mp different
            exact inductionHypothesis first (by simpa using listed)

/--
The names are what is left of the texts of the variable tokens, sorted in
whatever way, when adjacent repeats are dropped.
-/
theorem destutter_eq_names
    {tokens : List Token}
    {sorted : List Text}
    (permutes :
      sorted.Perm
        ((tokens.filter fun token => token.kind = .variableName).map
          Token.text))
    (ascending :
      sorted.Pairwise fun first second => ¬ Text.Precedes second first) :
    sorted.destutter (· ≠ ·) = names tokens := by
  have strictly :=
    pairwise_destutter (ascending.imp (mt Text.precedes_iff_lt.mpr))
  refine eq_names_of_pairwise (strictly.imp Text.precedes_iff_lt.mpr) ?_
  intro name
  rw [mem_destutter, permutes.mem_iff, mem_variableTexts]

/-- Token lists with the same set of variables have the same names. -/
theorem names_eq_of_mem_iff
    {first second : List Token}
    (same : ∀ name, ofName name ∈ first ↔ ofName name ∈ second) :
    names first = names second := by
  refine eq_names_of_pairwise (names_ascend first) ?_
  intro name
  rw [mem_names, same]

/--
The names of a token list are canonical, whatever its tokens are.  They ascend
strictly in the order of texts, and are the texts of the variable tokens.  So any
token list with variables of the same texts has the same names, in whatever
order and however often it has them; and if the tokens have a program, the
program has the same names as well.
-/
theorem names_canonical (tokens : List Token) :
    (names tokens).Pairwise Text.Precedes ∧
      (∀ name, name ∈ names tokens ↔ ofName name ∈ tokens) ∧
      (∀ others : List Token,
        (∀ name, ofName name ∈ others ↔ ofName name ∈ tokens) →
          names others = names tokens) ∧
      ∀ program : Program,
        Program.ofTokens tokens = .ok program →
          names program = names tokens := by
  refine ⟨names_ascend tokens, fun _ => mem_names, ?_, ?_⟩
  · intro others same
    exact names_eq_of_mem_iff same
  · intro program arranged
    exact Program.names_of_ofTokens arranged

/-- Repetition, another order, and brackets of any text leave the names as they are. -/
theorem names_canonical_of_repeated_names :
    (∀ name,
        ofName name ∈
            [ofName (Text.ascii "A"), ⟨.openBracket, Text.ascii "C"⟩,
              ofName (Text.ascii "B"), ofName (Text.ascii "A")] ↔
          ofName name ∈
            [ofName (Text.ascii "B"), ofConnective (.binary .nor),
              ofName (Text.ascii "A")]) ∧
      Program.ofTokens
          [ofName (Text.ascii "B"), ofConnective (.binary .nor),
            ofName (Text.ascii "A")] =
        .ok
          [ofName (Text.ascii "B"), ofName (Text.ascii "A"),
            ofConnective (.binary .nor)] ∧
      names
          [ofName (Text.ascii "A"), ⟨.openBracket, Text.ascii "C"⟩,
            ofName (Text.ascii "B"), ofName (Text.ascii "A")] =
        names
          [ofName (Text.ascii "B"), ofName (Text.ascii "A"),
            ofConnective (.binary .nor)] := by
  have same :
      ∀ name,
        ofName name ∈
            [ofName (Text.ascii "A"), ⟨.openBracket, Text.ascii "C"⟩,
              ofName (Text.ascii "B"), ofName (Text.ascii "A")] ↔
          ofName name ∈
            [ofName (Text.ascii "B"), ofConnective (.binary .nor),
              ofName (Text.ascii "A")] := by
    intro name
    simp only [ofName, ofConnective, List.mem_cons, List.not_mem_nil,
      Token.mk.injEq, reduceCtorEq, false_and, false_or, or_false, true_and]
    grind
  obtain ⟨_, _, sameSet, sameProgram⟩ := names_canonical _
  exact ⟨same, rfl, (sameSet _ same).trans (sameProgram _ rfl).symm⟩

end Token

end Propositional
