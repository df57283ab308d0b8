import Propositional.Proofs.Token.Lexing

namespace Propositional

/-!
# The names in a token list

The names are kept strictly ascending, so they are distinct, and a list of
lexemes has at most one name for each capital letter.
-/

namespace Token

/-- Of two different names one comes first. -/
theorem name_lt_of_ne_of_not_lt
    {first second : Text}
    (different : first ≠ second)
    (notBefore : ¬ first < second) :
    second < first := by
  by_contra notAfter
  have after : second ≤ first :=
    List.not_lt.mp notBefore
  have before : first ≤ second :=
    List.not_lt.mp notAfter
  exact different (List.le_antisymm before after)

theorem mem_insertName
    {name other : Text}
    {names : List Text} :
    other ∈ insertName name names ↔ other = name ∨ other ∈ names := by
  fun_induction insertName name names with
  | case1 =>
      simp
  | case2 rest =>
      simp
  | case3 first rest different before =>
      simp
  | case4 first rest different notBefore inductionHypothesis =>
      rw [List.mem_cons, inductionHypothesis, List.mem_cons]
      exact or_left_comm

/-- An inserted name keeps the order strict. -/
theorem insertName_pairwise
    (name : Text)
    {names : List Text}
    (ascending : names.Pairwise (· < ·)) :
    (insertName name names).Pairwise (· < ·) := by
  fun_induction insertName name names with
  | case1 =>
      simp
  | case2 rest =>
      exact ascending
  | case3 first rest different before =>
      have least : ∀ later ∈ rest, first < later :=
        (List.pairwise_cons.mp ascending).1
      refine List.pairwise_cons.mpr ⟨?_, ascending⟩
      intro later member
      rcases List.mem_cons.mp member with isFirst | inRest
      · rw [isFirst]
        exact before
      · exact List.lt_trans before (least later inRest)
  | case4 first rest different notBefore inductionHypothesis =>
      obtain ⟨least, restAscending⟩ := List.pairwise_cons.mp ascending
      refine List.pairwise_cons.mpr ⟨?_, inductionHypothesis restAscending⟩
      intro later member
      rcases mem_insertName.mp member with isName | inRest
      · rw [isName]
        exact name_lt_of_ne_of_not_lt different notBefore
      · exact least later inRest

/-- The names in a token list ascend strictly. -/
theorem names_pairwise (tokens : List Token) :
    (names tokens).Pairwise (· < ·) := by
  unfold names
  induction (tokens.filter fun token => token.kind = .variableName).map
      Token.text with
  | nil =>
      exact List.Pairwise.nil
  | cons name rest inductionHypothesis =>
      exact insertName_pairwise name inductionHypothesis

/-- No name is listed twice. -/
theorem names_nodup (tokens : List Token) : (names tokens).Nodup := by
  refine (names_pairwise tokens).imp ?_
  intro first second before same
  rw [same] at before
  exact List.lt_irrefl second before

/-- A text is that of a variable token exactly if the list has its token. -/
theorem mem_variableTexts
    {name : Text}
    {tokens : List Token} :
    name ∈ (tokens.filter fun token =>
        token.kind = .variableName).map Token.text ↔
      ofName name ∈ tokens := by
  constructor
  · intro listed
    obtain ⟨token, kept, rfl⟩ := List.mem_map.mp listed
    obtain ⟨inTokens, variableName⟩ := List.mem_filter.mp kept
    have same : ofName token.text = token := by
      cases token
      simp_all [ofName]
    rw [same]
    exact inTokens
  · intro inTokens
    exact List.mem_map.mpr
      ⟨ofName name, List.mem_filter.mpr ⟨inTokens, by simp [ofName]⟩, rfl⟩

/-- The names in a token list are the texts of its variable tokens. -/
theorem mem_names
    {name : Text}
    {tokens : List Token} :
    name ∈ names tokens ↔ ofName name ∈ tokens := by
  rw [← mem_variableTexts]
  unfold names
  induction (tokens.filter fun token => token.kind = .variableName).map
      Token.text with
  | nil =>
      rfl
  | cons first rest inductionHypothesis =>
      rw [List.foldr_cons, mem_insertName, inductionHypothesis,
        List.mem_cons]

/-- Only the variable tokens of a list matter for its names. -/
theorem names_congr
    {first second : List Token}
    (same :
      (first.filter fun token => token.kind = .variableName) =
        second.filter fun token => token.kind = .variableName) :
    names first = names second := by
  unfold names
  rw [same]

/-- The capital letters, in ascending order. -/
def capitals : List Text :=
  (List.range 26).map fun offset => [Byte.ofChar 'A' + UInt8.ofNat offset]

/-- A variable is named by one of the capital letters. -/
theorem mem_capitals
    {name : Text}
    (namesVariable : Token.namesVariable name = true) :
    name ∈ capitals := by
  obtain ⟨byte, rfl, capital⟩ := namesVariable_iff.mp namesVariable
  have catalogue :
      ∀ value < 256,
        Byte.isUpper (UInt8.ofNat value) = true →
          [UInt8.ofNat value] ∈ capitals := by
    decide +kernel
  have listed := catalogue byte.toNat byte.toNat_lt
  rw [UInt8.ofNat_toNat] at listed
  exact listed capital

/-- A list of lexemes has at most as many names as there are capital letters. -/
theorem length_names_le
    {tokens : List Token}
    (lexemes : ∀ token ∈ tokens, Lexeme token) :
    (names tokens).length ≤ 26 := by
  have listed : names tokens ⊆ capitals := by
    intro name member
    have inTokens : ofName name ∈ tokens :=
      mem_names.mp member
    have lexeme := lexemes (ofName name) inTokens
    exact mem_capitals (lexeme.namesVariable rfl)
  exact (names_nodup tokens).length_le_of_subset listed

end Token

end Propositional
