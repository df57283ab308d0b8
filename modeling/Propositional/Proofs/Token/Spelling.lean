import Propositional.Proofs.Token.Cancellation

namespace Propositional

/-!
# Spelling token lists

A text spells at most one list of lexemes, and reading finds that list.  Blanks
may be put in anywhere, also inside a symbol, because they are dropped first; so
a list of lexemes is read back from its spelling exactly if the signs in it do
not cancel.
-/

namespace Byte

/-- No capital letter is a blank. -/
theorem isSpace_of_isUpper
    {byte : Byte}
    (capital : isUpper byte = true) :
    isSpace byte = false := by
  have bounds := isUpper_iff.mp capital
  rw [← Bool.not_eq_true, isSpace_iff]
  omega

end Byte

namespace Text

/-- `Spaced text spaced` if `spaced` is `text` with blanks put in anywhere. -/
inductive Spaced : Text → Text → Prop where
  /-- Nothing is put in. -/
  | nil :
      Spaced [] []
  /-- A byte of the text. -/
  | byte
      {text spaced : Text}
      (byte : Byte) :
      Spaced text spaced →
      Spaced (byte :: text) (byte :: spaced)
  /-- A blank that is put in. -/
  | blank
      {blank : Byte}
      {text spaced : Text} :
      Byte.isSpace blank = true →
      Spaced text spaced →
      Spaced text (blank :: spaced)

/-- Blanks that are put in are dropped again. -/
theorem Spaced.withoutBlanks_eq
    {text spaced : Text}
    (isSpaced : Spaced text spaced) :
    withoutBlanks spaced = withoutBlanks text := by
  unfold withoutBlanks
  induction isSpaced with
  | nil =>
      rfl
  | byte byte _ inductionHypothesis =>
      rw [List.filter_cons, List.filter_cons, inductionHypothesis]
  | blank isBlank _ inductionHypothesis =>
      rw [List.filter_cons_of_neg (by simp [isBlank]), inductionHypothesis]

/-- A text arises from what it has besides blanks. -/
theorem spaced_withoutBlanks (text : Text) :
    Spaced (withoutBlanks text) text := by
  unfold withoutBlanks
  induction text with
  | nil =>
      exact .nil
  | cons byte rest inductionHypothesis =>
      cases space : Byte.isSpace byte with
      | true =>
          rw [List.filter_cons_of_neg (by simp [space])]
          exact .blank space inductionHypothesis
      | false =>
          rw [List.filter_cons_of_pos (by simp [space])]
          exact .byte byte inductionHypothesis

end Text

namespace Token

/-- Lexemes that make up a text. -/
structure Spells (tokens : List Token) (text : Text) : Prop where
  /-- Every token is a lexeme. -/
  lexemes :
    ∀ token ∈ tokens, Lexeme token
  /-- The texts of the tokens make up the whole text. -/
  text_eq :
    tokens.flatMap Token.text = text

/-- A text has at most one spelling. -/
theorem Spells.unique
    {first second : List Token}
    {text : Text}
    (firstSpells : Spells first text)
    (secondSpells : Spells second text) :
    first = second :=
  eq_of_flatMap_text_eq firstSpells.lexemes secondSpells.lexemes
    (firstSpells.text_eq.trans secondSpells.text_eq.symm)

/-- A lexeme may be put before a spelling. -/
theorem Spells.cons
    {token : Token}
    {tokens : List Token}
    {text : Text}
    (lexeme : Lexeme token)
    (spells : Spells tokens text) :
    Spells (token :: tokens) (token.text ++ text) where
  lexemes :=
    List.forall_mem_cons.mpr ⟨lexeme, spells.lexemes⟩
  text_eq := by
    rw [List.flatMap_cons, spells.text_eq]

/-- Two spelled texts are spelled together by their lexemes in turn. -/
theorem Spells.append
    {first second : List Token}
    {front rest : Text}
    (firstSpells : Spells first front)
    (secondSpells : Spells second rest) :
    Spells (first ++ second) (front ++ rest) where
  lexemes :=
    List.forall_mem_append.mpr ⟨firstSpells.lexemes, secondSpells.lexemes⟩
  text_eq := by
    rw [List.flatMap_append, firstSpells.text_eq, secondSpells.text_eq]

/-- No lexeme contains a blank. -/
theorem Lexeme.isSpace_of_mem_text
    {token : Token}
    {byte : Byte}
    (lexeme : Lexeme token)
    (member : byte ∈ token.text) :
    Byte.isSpace byte = false := by
  cases lexeme with
  | letter capital =>
      rw [List.mem_singleton.mp member]
      exact Byte.isSpace_of_isUpper capital
  | symbol connective =>
      have catalogue :
          ∀ connective ∈ Connective.all,
            connective.symbol.any Byte.isSpace = false := by
        decide
      have unblanked :=
        List.any_eq_false.mp (catalogue connective connective.mem_all)
      exact Bool.eq_false_iff.mpr (unblanked byte member)
  | opening =>
      rw [List.mem_singleton.mp member]
      rfl
  | closing =>
      rw [List.mem_singleton.mp member]
      rfl

theorem Lexeme.withoutBlanks_text
    {token : Token}
    (lexeme : Lexeme token) :
    Text.withoutBlanks token.text = token.text :=
  Text.withoutBlanks_eq_self fun _ member =>
    lexeme.isSpace_of_mem_text member

/-- A text that is spelled contains no blank. -/
theorem Spells.withoutBlanks_eq
    {tokens : List Token}
    {text : Text}
    (spells : Spells tokens text) :
    Text.withoutBlanks text = text := by
  apply Text.withoutBlanks_eq_self
  intro byte member
  rw [← spells.text_eq] at member
  obtain ⟨token, listed, inToken⟩ := List.mem_flatMap.mp member
  exact (spells.lexemes token listed).isSpace_of_mem_text inToken

/-- Reading finds a spelling of the normal text. -/
theorem tokenize_eq_ok_iff
    {text : Text}
    {tokens : List Token} :
    tokenize text = .ok tokens ↔ Spells tokens (Text.normalize text) := by
  rw [tokenize_eq_ok_iff_spells]
  exact
    ⟨fun ⟨lexemes, text_eq⟩ => ⟨lexemes, text_eq⟩,
      fun spells => ⟨spells.lexemes, spells.text_eq⟩⟩

/-- From a spelling with blanks put in the same lexemes are read, with signs cancelled. -/
theorem Spells.tokenize_spaced
    {tokens : List Token}
    {text spaced : Text}
    (spells : Spells tokens text)
    (isSpaced : Text.Spaced text spaced) :
    tokenize spaced = .ok (Runs.cancel negationSign tokens) := by
  apply tokenize_of_spells spells.lexemes
  rw [isSpaced.withoutBlanks_eq, spells.withoutBlanks_eq, spells.text_eq]

/--
Reading returns a token list exactly if the list spells the normal form of the
text, and no text has two spellings.  A list of lexemes is read back from its
spelling, with blanks put in anywhere, exactly if no two negation signs in it are
neighbours.
-/
theorem tokenize_exact (text : Text) (tokens : List Token) :
    (tokenize text = .ok tokens ↔
        Spells tokens (Text.normalize text)) ∧
      (Spells tokens text →
        ∀ other, Spells other text → other = tokens) ∧
      (Spells tokens text →
        ∀ spaced, Text.Spaced text spaced →
          (tokenize spaced = .ok tokens ↔
            ¬ [negationSign, negationSign] <:+: tokens)) := by
  refine ⟨tokenize_eq_ok_iff, ?_, ?_⟩
  · intro spells other otherSpells
    exact otherSpells.unique spells
  · intro spells spaced isSpaced
    rw [spells.tokenize_spaced isSpaced, Except.ok.injEq]
    exact Runs.cancel_eq_self_iff

/-- Blanks inside an equivalence sign and around single negation signs change nothing. -/
theorem tokenize_exact_of_split_symbol :
    Spells
        [negationSign, ofName (Text.ascii "A"),
          ofConnective (.binary .equivalence), negationSign,
          ofName (Text.ascii "B")]
        (Text.ascii "!A<->!B") ∧
      Text.Spaced (Text.ascii "!A<->!B") (Text.ascii "! A< \t-\n> !B ") ∧
      ¬ [negationSign, negationSign] <:+:
        [negationSign, ofName (Text.ascii "A"),
          ofConnective (.binary .equivalence), negationSign,
          ofName (Text.ascii "B")] ∧
      tokenize (Text.ascii "! A< \t-\n> !B ") =
        .ok
          [negationSign, ofName (Text.ascii "A"),
            ofConnective (.binary .equivalence), negationSign,
            ofName (Text.ascii "B")] := by
  have spells :
      Spells
        [negationSign, ofName (Text.ascii "A"),
          ofConnective (.binary .equivalence), negationSign,
          ofName (Text.ascii "B")]
        (Text.normalize (Text.ascii "!A<->!B")) :=
    tokenize_eq_ok_iff.mp rfl
  have isSpaced :
      Text.Spaced (Text.ascii "!A<->!B") (Text.ascii "! A< \t-\n> !B ") :=
    Text.spaced_withoutBlanks (Text.ascii "! A< \t-\n> !B ")
  have single :
      ¬ [negationSign, negationSign] <:+:
        [negationSign, ofName (Text.ascii "A"),
          ofConnective (.binary .equivalence), negationSign,
          ofName (Text.ascii "B")] := by
    decide
  obtain ⟨_, _, readBack⟩ := tokenize_exact (Text.ascii "!A<->!B") _
  exact
    ⟨spells, isSpaced, single, (readBack spells _ isSpaced).mpr single⟩

end Token

end Propositional
