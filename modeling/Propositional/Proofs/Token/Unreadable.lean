import Propositional.Proofs.Token.Spelling

namespace Propositional.Token

/-!
# The first unreadable byte

Reading stops at a place that lexemes lead up to and from which no lexeme leads
on.  Since no lexeme begins another one, a text that cannot be read has exactly
one such place, whichever way lexemes are taken from it, and the fault is about
the byte there.
-/

/-- Lexemes lead up to a place in a text, and none leads on from it. -/
structure StuckAt (text : Text) (place : Nat) : Prop where
  /-- The text before the place is spelled. -/
  spelled :
    ∃ tokens, Spells tokens (text.take place)
  /-- No lexeme begins what follows. -/
  begins_none :
    ∀ token, Lexeme token → ¬ token.text <+: text.drop place

/-- No token is found exactly where no lexeme begins. -/
theorem leading?_eq_none_iff
    {text : Text} :
    leading? text = none ↔
      ∀ token, Lexeme token → ¬ token.text <+: text := by
  constructor
  · rintro absent token lexeme ⟨rest, rfl⟩
    rw [lexeme.leading?_append] at absent
    cases absent
  · intro begins
    cases found : leading? text with
    | none =>
        rfl
    | some token =>
        obtain ⟨lexeme, atFront⟩ := Lexeme.of_leading? found
        exact absurd atFront (begins token lexeme)

/-- An unreadable byte has its place as its position. -/
theorem position?_unreadable
    (byte : Byte)
    (place : Nat) :
    (unreadable byte place).position? = some place := by
  unfold unreadable
  split <;> rfl

/-- The fault of a byte is about that byte. -/
theorem token_unreadable
    (byte : Byte)
    (place : Nat) :
    (unreadable byte place).token = [byte] := by
  unfold unreadable
  split <;> rfl

/-- A small letter is an invalid character, and any other byte no token at all. -/
theorem kind_unreadable
    (byte : Byte)
    (place : Nat) :
    (unreadable byte place).kind =
      if Byte.isLower byte then .invalidCharacter else .unknownToken := by
  unfold unreadable
  split <;> rfl

/--
A failed reading has passed a front of the text which, but for the bytes that
belong to the token before it, is spelled, and no token begins what follows.
-/
theorem exists_passed_of_scan
    {covered position : Nat}
    {text : Text}
    {fault : Fault}
    (failed : scan covered position text = .error fault) :
    ∃ passed tokens byte rest,
      text = passed ++ byte :: rest ∧
        covered ≤ passed.length ∧
        Spells tokens (passed.drop covered) ∧
        leading? (byte :: rest) = none ∧
        fault = unreadable byte (position + passed.length) := by
  fun_induction scan covered position text with
  | case1 covered position =>
      cases failed
  | case2 position covered first rest inductionHypothesis =>
      obtain ⟨passed, tokens, byte, after, rfl, within, spells, absent, rfl⟩ :=
        inductionHypothesis failed
      refine
        ⟨first :: passed, tokens, byte, after, rfl, Nat.succ_le_succ within,
          spells, absent, ?_⟩
      rw [List.length_cons, Nat.add_assoc, Nat.add_comm 1]
  | case3 position byte rest absent =>
      cases failed
      exact
        ⟨[], [], byte, rest, rfl, Nat.le_refl 0, ⟨by simp, rfl⟩, absent, rfl⟩
  | case4 position first rest token found inductionHypothesis =>
      obtain ⟨passed, tokens, byte, after, rfl, within, spells, absent, rfl⟩ :=
        inductionHypothesis (Fault.map_eq_error_iff.mp failed)
      obtain ⟨lexeme, whole, joins⟩ := Lexeme.of_leading? found
      obtain ⟨head, tail, shape⟩ :=
        List.exists_cons_of_ne_nil lexeme.text_ne_nil
      rw [shape, List.cons_append, List.cons.injEq] at joins
      obtain ⟨rfl, joins⟩ := joins
      rw [shape, List.length_cons, Nat.add_sub_cancel] at within spells
      -- the bytes of the token after its first one are passed first
      have begins : tail <+: passed :=
        List.prefix_of_prefix_length_le ⟨whole, joins⟩
          (List.prefix_append passed _) within
      have spelled := Spells.cons lexeme spells
      rw [shape, List.cons_append, List.prefix_iff_eq_append.mp begins]
        at spelled
      refine
        ⟨head :: passed, token :: tokens, byte, after, rfl, Nat.zero_le _,
          spelled, absent, ?_⟩
      rw [List.length_cons, Nat.add_assoc, Nat.add_comm 1]

/-- A failed reading is stuck where its fault is. -/
theorem exists_stuckAt_of_scan
    {text : Text}
    {fault : Fault}
    (failed : scan 0 0 text = .error fault) :
    ∃ place byte,
      text[place]? = some byte ∧
        StuckAt text place ∧
        fault = unreadable byte place := by
  obtain ⟨passed, tokens, byte, rest, rfl, _, spells, absent, rfl⟩ :=
    exists_passed_of_scan failed
  refine ⟨passed.length, byte, by simp, ⟨⟨tokens, ?_⟩, ?_⟩, by simp⟩
  · rw [List.take_left]
    exact spells
  · rw [List.drop_left]
    exact leading?_eq_none_iff.mp absent

/--
Whichever lexemes are taken from the front of a text that cannot be read, further
ones lead from there to the place of the fault.
-/
theorem exists_later_of_scan
    {front rest : Text}
    {tokens : List Token}
    {fault : Fault}
    (spells : Spells tokens front)
    (failed : scan 0 0 (front ++ rest) = .error fault) :
    ∃ later place,
      fault.position? = some place ∧
        Spells (tokens ++ later) ((front ++ rest).take place) := by
  rw [← spells.text_eq, scan_flatMap_text_append spells.lexemes,
    Fault.map_eq_error_iff, Nat.zero_add, spells.text_eq] at failed
  obtain ⟨passed, later, byte, after, rfl, _, laterSpells, _, rfl⟩ :=
    exists_passed_of_scan failed
  refine ⟨later, _, position?_unreadable byte _, ?_⟩
  rw [← List.append_assoc, ← List.length_append, List.take_left]
  exact spells.append laterSpells

namespace StuckAt

variable {text : Text} {place : Nat}

/-- Reading fails where it is stuck, unless that is behind the text. -/
theorem scan_eq
    (stuck : StuckAt text place) :
    (∃ byte, scan 0 0 text = .error (unreadable byte place)) ∨
      ∃ tokens, scan 0 0 text = .ok tokens := by
  obtain ⟨tokens, spells⟩ := stuck.spelled
  have read :=
    scan_flatMap_text_append spells.lexemes (text.drop place) 0
  rw [spells.text_eq, List.take_append_drop, Nat.zero_add] at read
  cases after : text.drop place with
  | nil =>
      rw [after] at read
      exact .inr ⟨_, read⟩
  | cons byte rest =>
      have absent := leading?_eq_none_iff.mpr stuck.begins_none
      have inside : place ≤ text.length := by
        by_contra outside
        rw [List.drop_eq_nil_of_le (by omega)] at after
        cases after
      rw [after] at read absent
      rw [List.length_take, Nat.min_eq_left inside, scan, absent] at read
      exact .inl ⟨byte, read⟩

/-- A text that cannot be read is stuck only where its fault is. -/
theorem position?_eq
    {fault : Fault}
    (stuck : StuckAt text place)
    (failed : scan 0 0 text = .error fault) :
    fault.position? = some place := by
  rcases stuck.scan_eq with ⟨byte, failedThere⟩ | ⟨tokens, read⟩
  · rw [failed, Except.error.injEq] at failedThere
    rw [failedThere, position?_unreadable]
  · rw [failed] at read
    cases read

end StuckAt

/--
A text that cannot be read has exactly one place in its normal form at which
reading gets stuck.  The fault lies there and is about the byte there: an invalid
character if that is a small letter, and else an unknown token.  Whichever lexemes
are taken from the front of the normal form, further ones lead to that place.
-/
theorem exists_stuckAt_of_tokenize
    {text : Text}
    {fault : Fault}
    (failed : tokenize text = .error fault) :
    ∃ place byte,
      fault.position? = some place ∧
        place < (Text.normalize text).length ∧
        (Text.normalize text)[place]? = some byte ∧
        fault.token = [byte] ∧
        (fault.kind = .invalidCharacter ↔ Byte.isLower byte = true) ∧
        (fault.kind = .unknownToken ↔ Byte.isLower byte = false) ∧
        StuckAt (Text.normalize text) place ∧
        (∀ other, StuckAt (Text.normalize text) other → other = place) ∧
        ∀ tokens front rest,
          Spells tokens front →
            Text.normalize text = front ++ rest →
              ∃ later,
                Spells (tokens ++ later)
                  ((Text.normalize text).take place) := by
  obtain ⟨place, byte, there, stuck, rfl⟩ := exists_stuckAt_of_scan failed
  obtain ⟨inside, _⟩ := List.getElem?_eq_some_iff.mp there
  have position := position?_unreadable byte place
  refine
    ⟨place, byte, position, inside, there, token_unreadable byte place, ?_, ?_,
      stuck, ?_, ?_⟩
  · rw [kind_unreadable]
    cases Byte.isLower byte <;> simp
  · rw [kind_unreadable]
    cases Byte.isLower byte <;> simp
  · intro other otherStuck
    have same := otherStuck.position?_eq failed
    rw [position] at same
    exact (Option.some.inj same).symm
  · intro tokens front rest spells divided
    rw [tokenize, divided] at failed
    obtain ⟨later, reached, isPosition, leads⟩ :=
      exists_later_of_scan spells failed
    rw [position] at isPosition
    cases isPosition
    rw [divided]
    exact ⟨later, leads⟩

/-- A cut-off equivalence sign is the fault, at its place once blanks and signs are gone. -/
theorem exists_stuckAt_of_cut_symbol :
    tokenize (Text.ascii "!! A -> < -") =
        .error (.unknownToken (Byte.ofChar '<') 3) ∧
      ∃ place byte,
        Fault.position? (.unknownToken (Byte.ofChar '<') 3) = some place ∧
          place < (Text.normalize (Text.ascii "!! A -> < -")).length ∧
          (Text.normalize (Text.ascii "!! A -> < -"))[place]? = some byte ∧
          Fault.token (.unknownToken (Byte.ofChar '<') 3) = [byte] ∧
          (Fault.kind (.unknownToken (Byte.ofChar '<') 3) = .invalidCharacter ↔
            Byte.isLower byte = true) ∧
          (Fault.kind (.unknownToken (Byte.ofChar '<') 3) = .unknownToken ↔
            Byte.isLower byte = false) ∧
          StuckAt (Text.normalize (Text.ascii "!! A -> < -")) place ∧
          (∀ other,
            StuckAt (Text.normalize (Text.ascii "!! A -> < -")) other →
              other = place) ∧
          ∀ tokens front rest,
            Spells tokens front →
              Text.normalize (Text.ascii "!! A -> < -") = front ++ rest →
                ∃ later,
                  Spells (tokens ++ later)
                    ((Text.normalize (Text.ascii "!! A -> < -")).take place) := by
  have failed :
      tokenize (Text.ascii "!! A -> < -") =
        .error (.unknownToken (Byte.ofChar '<') 3) := by
    rfl
  exact ⟨failed, exists_stuckAt_of_tokenize failed⟩

end Propositional.Token
