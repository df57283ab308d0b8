import Mathlib.Tactic.SplitIfs
import Propositional.Proofs.Fault
import Propositional.Proofs.Runs
import Propositional.Token.Lexer

namespace Propositional

/-!
# Exact reading of tokens

The spellings of the tokens form a code: none begins another, so a text is the
concatenation of at most one list of lexemes.  Reading a text succeeds exactly
if its normal form is such a concatenation, and returns that list.
-/

namespace Connective

/-- No symbol begins another one. -/
theorem eq_of_symbol_isPrefix
    {first second : Connective}
    (begins : first.symbol <+: second.symbol) :
    first = second := by
  have catalogue :
      ∀ first ∈ all, ∀ second ∈ all,
        first.symbol <+: second.symbol → first = second := by
    decide
  exact catalogue first (mem_all first) second (mem_all second) begins

/-- Two symbols that begin one text are the same. -/
theorem eq_of_isPrefix_of_isPrefix
    {first second : Connective}
    {text : Text}
    (firstBegins : first.symbol <+: text)
    (secondBegins : second.symbol <+: text) :
    first = second := by
  rcases List.prefix_or_prefix_of_prefix firstBegins secondBegins with
      begins | begins
  · exact eq_of_symbol_isPrefix begins
  · exact (eq_of_symbol_isPrefix begins).symm

/-- Symbols have one to three bytes. -/
theorem symbol_length_mem (connective : Connective) :
    connective.symbol.length ∈ [3, 2, 1] := by
  have catalogue :
      ∀ connective ∈ all, connective.symbol.length ∈ [3, 2, 1] := by
    decide
  exact catalogue connective (mem_all connective)

/-- A symbol starts with neither a capital letter nor a bracket. -/
theorem symbol_shape (connective : Connective) :
    ∃ byte rest,
      connective.symbol = byte :: rest ∧
        Byte.isUpper byte = false ∧
        byte ≠ Byte.ofChar '(' ∧
        byte ≠ Byte.ofChar ')' := by
  cases connective with
  | negation =>
      exact ⟨_, _, rfl, by decide, by decide, by decide⟩
  | binary operation =>
      cases operation <;>
        exact ⟨_, _, rfl, by decide, by decide, by decide⟩

/-- The symbol of the connective that is found begins the text. -/
theorem symbol_isPrefix_of_longest?
    {text : Text}
    {connective : Connective}
    (found : longest? text = some connective) :
    connective.symbol <+: text := by
  obtain ⟨length, _, spelled⟩ := List.exists_of_findSome?_eq_some found
  rw [ofSymbol?_eq_some_iff] at spelled
  rw [← spelled]
  exact List.take_prefix length text

/-- The connective whose symbol begins a text is found. -/
theorem longest?_symbol_append
    (connective : Connective)
    (rest : Text) :
    longest? (connective.symbol ++ rest) = some connective := by
  have spelled :
      ofSymbol?
          ((connective.symbol ++ rest).take connective.symbol.length) =
        some connective := by
    rw [List.take_left]
    exact ofSymbol?_symbol connective
  have found : (longest? (connective.symbol ++ rest)).isSome := by
    rw [longest?, List.findSome?_isSome_iff]
    exact ⟨connective.symbol.length, symbol_length_mem connective, by
      rw [spelled]
      rfl⟩
  obtain ⟨other, otherFound⟩ := Option.isSome_iff_exists.mp found
  have same : other = connective :=
    eq_of_isPrefix_of_isPrefix
      (symbol_isPrefix_of_longest? otherFound)
      (List.prefix_append connective.symbol rest)
  rw [otherFound, same]

end Connective

namespace Token

/-- The tokens that can be read from text. -/
inductive Lexeme : Token → Prop where
  /-- A capital letter. -/
  | letter
      {byte : Byte} :
      Byte.isUpper byte = true →
      Lexeme (ofName [byte])
  /-- The symbol of a connective. -/
  | symbol
      (connective : Connective) :
      Lexeme (ofConnective connective)
  /-- The bracket `(`. -/
  | opening :
      Lexeme Token.opening
  /-- The bracket `)`. -/
  | closing :
      Lexeme Token.closing

/-- The names of variables are exactly the single capital letters. -/
theorem namesVariable_iff
    {name : Text} :
    namesVariable name = true ↔
      ∃ byte, name = [byte] ∧ Byte.isUpper byte = true := by
  match name with
  | [] => simp [namesVariable]
  | [byte] => simp [namesVariable]
  | _ :: _ :: _ => simp [namesVariable]

namespace Lexeme

/-- A variable name makes a lexeme. -/
theorem ofName
    {name : Text}
    (names : namesVariable name = true) :
    Lexeme (Token.ofName name) := by
  obtain ⟨byte, rfl, capital⟩ := namesVariable_iff.mp names
  exact .letter capital

/-- A lexeme of the variable kind is one capital letter. -/
theorem namesVariable
    {token : Token}
    (lexeme : Lexeme token)
    (variableName : token.kind = .variableName) :
    Token.namesVariable token.text = true := by
  cases lexeme with
  | letter capital =>
      exact capital
  | symbol connective =>
      cases variableName
  | opening =>
      cases variableName
  | closing =>
      cases variableName

/-- Brackets around lexemes are lexemes. -/
theorem group
    {tokens : List Token}
    (lexemes : ∀ token ∈ tokens, Lexeme token) :
    ∀ token ∈ Token.opening :: tokens ++ [Token.closing], Lexeme token := by
  simp only [List.mem_append, List.mem_cons, List.not_mem_nil, or_false]
  rintro token ((rfl | member) | rfl)
  · exact .opening
  · exact lexemes token member
  · exact .closing

/-- A lexeme has at least one byte. -/
theorem text_ne_nil
    {token : Token}
    (lexeme : Lexeme token) :
    token.text ≠ [] := by
  cases lexeme with
  | letter capital =>
      exact List.cons_ne_nil _ _
  | symbol connective =>
      obtain ⟨byte, rest, shape, _⟩ := connective.symbol_shape
      simp [ofConnective, shape]
  | opening =>
      decide
  | closing =>
      decide

/-- A lexeme is found at the front of any text that it begins. -/
theorem leading?_append
    {token : Token}
    (lexeme : Lexeme token)
    (rest : Text) :
    leading? (token.text ++ rest) = some token := by
  cases lexeme with
  | letter capital =>
      simp [leading?, Token.ofName, capital]
  | symbol connective =>
      obtain ⟨byte, tail, shape, notCapital, notOpening, notClosing⟩ :=
        connective.symbol_shape
      have found := connective.longest?_symbol_append rest
      rw [shape, List.cons_append] at found
      simp [leading?, ofConnective, shape, notCapital, notOpening,
        notClosing, found]
  | opening =>
      rfl
  | closing =>
      rfl

/-- What is found at the front of a text is a lexeme that begins it. -/
theorem of_leading?
    {text : Text}
    {token : Token}
    (found : leading? text = some token) :
    Lexeme token ∧ token.text <+: text := by
  cases text with
  | nil =>
      simp [leading?] at found
  | cons byte rest =>
      simp only [leading?] at found
      split_ifs at found with capital isOpening isClosing
      · cases found
        exact ⟨.letter capital, rest, rfl⟩
      · cases found
        exact ⟨.opening, rest, by simp [isOpening, Token.opening, Text.ascii]⟩
      · cases found
        exact ⟨.closing, rest, by simp [isClosing, Token.closing, Text.ascii]⟩
      · obtain ⟨connective, longest, rfl⟩ := Option.map_eq_some_iff.mp found
        exact ⟨.symbol connective,
          Connective.symbol_isPrefix_of_longest? longest⟩

end Lexeme

/-- The bytes of the token read last are passed over. -/
theorem scan_covered
    (front rest : Text)
    (position : Nat) :
    scan front.length position (front ++ rest) =
      scan 0 (position + front.length) rest := by
  induction front generalizing position with
  | nil =>
      rfl
  | cons byte front inductionHypothesis =>
      rw [List.length_cons, List.cons_append, scan, inductionHypothesis,
        Nat.add_assoc, Nat.add_comm 1]

/-- After a list of lexemes reading goes on with what follows their text. -/
theorem scan_flatMap_text_append
    {tokens : List Token}
    (lexemes : ∀ token ∈ tokens, Lexeme token)
    (rest : Text)
    (position : Nat) :
    scan 0 position (tokens.flatMap Token.text ++ rest) =
      (scan 0 (position + (tokens.flatMap Token.text).length) rest).map
        (tokens ++ ·) := by
  induction tokens generalizing position with
  | nil =>
      simp only [List.flatMap_nil, List.nil_append, List.length_nil,
        Nat.add_zero]
      cases scan 0 position rest <;> rfl
  | cons token tokens inductionHypothesis =>
      obtain ⟨lexeme, later⟩ := List.forall_mem_cons.mp lexemes
      obtain ⟨byte, front, shape⟩ :=
        List.exists_cons_of_ne_nil lexeme.text_ne_nil
      have found := lexeme.leading?_append (tokens.flatMap Token.text ++ rest)
      have covered : token.text.length - 1 = front.length := by
        simp [shape]
      have reached :
          position + 1 + front.length + (tokens.flatMap Token.text).length =
            position + (byte :: front ++ tokens.flatMap Token.text).length := by
        simp only [List.cons_append, List.length_cons, List.length_append]
        omega
      rw [shape, List.cons_append] at found
      rw [List.flatMap_cons, shape, List.append_assoc, List.cons_append, scan,
        found]
      simp only [covered]
      rw [scan_covered, inductionHypothesis later, reached]
      cases scan 0 _ rest <;> rfl

/-- The text of a list of lexemes is read as that list. -/
theorem scan_flatMap_text
    {tokens : List Token}
    (lexemes : ∀ token ∈ tokens, Lexeme token)
    (position : Nat) :
    scan 0 position (tokens.flatMap Token.text) = .ok tokens := by
  have read := scan_flatMap_text_append lexemes [] position
  rw [List.append_nil] at read
  rw [read]
  simp [scan, Except.map]

/-- A text is the concatenation of at most one list of lexemes. -/
theorem eq_of_flatMap_text_eq
    {first second : List Token}
    (firstLexemes : ∀ token ∈ first, Lexeme token)
    (secondLexemes : ∀ token ∈ second, Lexeme token)
    (same : first.flatMap Token.text = second.flatMap Token.text) :
    first = second := by
  have read := scan_flatMap_text firstLexemes 0
  rw [same, scan_flatMap_text secondLexemes 0] at read
  exact (Except.ok.inj read).symm

/-- What is read from a text is a list of lexemes that spells it. -/
theorem flatMap_text_of_scan
    {covered position : Nat}
    {text : Text}
    {tokens : List Token}
    (read : scan covered position text = .ok tokens) :
    (∀ token ∈ tokens, Lexeme token) ∧
      tokens.flatMap Token.text = text.drop covered := by
  fun_induction scan covered position text generalizing tokens with
  | case1 covered position =>
      cases read
      simp
  | case2 position covered byte rest inductionHypothesis =>
      exact inductionHypothesis read
  | case3 position byte rest absent =>
      cases read
  | case4 position byte rest token found inductionHypothesis =>
      obtain ⟨later, laterRead, rfl⟩ := Fault.map_eq_ok_iff.mp read
      obtain ⟨lexemes, spelled⟩ := inductionHypothesis laterRead
      obtain ⟨lexeme, begins⟩ := Lexeme.of_leading? found
      refine ⟨List.forall_mem_cons.mpr ⟨lexeme, lexemes⟩, ?_⟩
      obtain ⟨front, tail, shape⟩ :=
        List.exists_cons_of_ne_nil lexeme.text_ne_nil
      obtain ⟨after, whole⟩ := begins
      rw [shape, List.cons_append, List.cons.injEq] at whole
      obtain ⟨rfl, rfl⟩ := whole
      simp [spelled, shape]

/--
Reading a text returns a token list exactly if the list consists of lexemes
and spells the normal form of the text.
-/
theorem tokenize_eq_ok_iff_spells
    {text : Text}
    {tokens : List Token} :
    tokenize text = .ok tokens ↔
      (∀ token ∈ tokens, Lexeme token) ∧
        tokens.flatMap Token.text = Text.normalize text := by
  constructor
  · intro read
    simpa using flatMap_text_of_scan read
  · rintro ⟨lexemes, spelled⟩
    rw [tokenize, ← spelled]
    exact scan_flatMap_text lexemes 0

end Token

end Propositional
