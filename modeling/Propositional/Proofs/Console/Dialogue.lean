import Mathlib.Data.List.DropRight
import Propositional.Console

namespace Propositional

/-!
# Dialogues

A dialogue divides its input into lines and answers one after the other, as each
would be answered alone.  It ends at the first line that is blank, or with the
input, whether or not the last line is closed, and after that nothing is
answered.
-/

namespace Text

/-- No blank stands first once the blanks in front are dropped. -/
theorem isSpace_of_head?_dropWhile
    {text : Text}
    {byte : Byte}
    (isFirst : (text.dropWhile Byte.isSpace).head? = some byte) :
    Byte.isSpace byte = false := by
  have stays := List.head?_dropWhile_not Byte.isSpace text
  rw [isFirst] at stays
  simpa using stays

/-- Trimming removes all blanks at both ends of a text, and nothing else. -/
theorem exists_eq_append_trim_append (text : Text) :
    ∃ front back,
      text = front ++ trim text ++ back ∧
        (∀ byte ∈ front ++ back, Byte.isSpace byte = true) ∧
        (∀ byte ∈ (trim text).head?, Byte.isSpace byte = false) ∧
        ∀ byte ∈ (trim text).getLast?, Byte.isSpace byte = false := by
  have trimmed :
      trim text = (text.dropWhile Byte.isSpace).rdropWhile Byte.isSpace := by
    rfl
  refine
    ⟨text.takeWhile Byte.isSpace,
      (text.dropWhile Byte.isSpace).rtakeWhile Byte.isSpace, ?_, ?_, ?_, ?_⟩
  · rw [trimmed, List.append_assoc, List.rdropWhile_append_rtakeWhile,
      List.takeWhile_append_dropWhile]
  · intro byte member
    rcases List.mem_append.mp member with inFront | inBack
    · exact List.mem_takeWhile_imp inFront
    · exact List.mem_rtakeWhile_imp inBack
  · intro byte isFirst
    obtain ⟨back, divided⟩ : trim text <+: text.dropWhile Byte.isSpace :=
      List.rdropWhile_prefix Byte.isSpace _
    apply isSpace_of_head?_dropWhile
    rw [← divided, List.head?_append, Option.mem_def.mp isFirst]
    rfl
  · intro byte isLast
    rw [trim, List.getLast?_reverse] at isLast
    exact isSpace_of_head?_dropWhile isLast

/-- A closed line is divided off from what follows. -/
theorem lines_line_append
    {text : Text}
    (unbroken : Byte.newline ∉ text)
    (rest : Text) :
    lines (line text ++ rest) = text :: lines rest := by
  induction text with
  | nil =>
      exact if_pos rfl
  | cons byte text inductionHypothesis =>
      have different := List.ne_of_not_mem_cons unbroken
      have later := List.not_mem_of_not_mem_cons unbroken
      have divided := inductionHypothesis later
      simp only [line, List.cons_append] at divided ⊢
      simp only [lines, Ne.symm different, if_false, divided]

/-- A last line need not be closed. -/
theorem lines_of_unbroken
    {text : Text}
    (unbroken : Byte.newline ∉ text)
    (visible : text ≠ []) :
    lines text = [text] := by
  induction text with
  | nil =>
      exact absurd rfl visible
  | cons byte text inductionHypothesis =>
      have different := List.ne_of_not_mem_cons unbroken
      have later := List.not_mem_of_not_mem_cons unbroken
      cases text with
      | nil =>
          simp only [lines, Ne.symm different, if_false]
      | cons next text =>
          have whole :=
            inductionHypothesis later (List.cons_ne_nil next text)
          simp only [lines, Ne.symm different, if_false] at whole ⊢
          simp only [whole]

/-- Closed lines are divided off one after the other. -/
theorem lines_flatMap_line_append
    {texts : List Text}
    (unbroken : ∀ text ∈ texts, Byte.newline ∉ text)
    (rest : Text) :
    lines (texts.flatMap line ++ rest) = texts ++ lines rest := by
  induction texts with
  | nil =>
      rfl
  | cons text texts inductionHypothesis =>
      obtain ⟨first, later⟩ := List.forall_mem_cons.mp unbroken
      simp only [List.flatMap_cons, List.append_assoc,
        lines_line_append first, inductionHypothesis later,
        List.cons_append]

theorem intercalate_newline_cons_cons
    (text next : Text)
    (rest : List Text) :
    [Byte.newline].intercalate (text :: next :: rest) =
      line text ++ [Byte.newline].intercalate (next :: rest) := by
  exact List.intercalate_cons_cons

/-- Visible lines that are joined by newlines are divided again. -/
theorem lines_intercalate
    {texts : List Text}
    (unbroken : ∀ text ∈ texts, Byte.newline ∉ text)
    (visible : ∀ text ∈ texts, text ≠ []) :
    lines ([Byte.newline].intercalate texts) = texts := by
  induction texts with
  | nil =>
      rfl
  | cons text texts inductionHypothesis =>
      obtain ⟨firstUnbroken, laterUnbroken⟩ :=
        List.forall_mem_cons.mp unbroken
      obtain ⟨firstVisible, laterVisible⟩ := List.forall_mem_cons.mp visible
      cases texts with
      | nil =>
          simpa only [List.intercalate_singleton] using
            lines_of_unbroken firstUnbroken firstVisible
      | cons next rest =>
          simp only [intercalate_newline_cons_cons,
            lines_line_append firstUnbroken,
            inductionHypothesis laterUnbroken laterVisible]

/-- A final newline closes the last of the joined lines. -/
theorem intercalate_append_newline
    (text : Text)
    (texts : List Text) :
    [Byte.newline].intercalate (text :: texts) ++ [Byte.newline] =
      (text :: texts).flatMap line := by
  induction texts generalizing text with
  | nil =>
      simp [line]
  | cons next rest inductionHypothesis =>
      simp only [intercalate_newline_cons_cons, List.append_assoc,
        inductionHypothesis, List.flatMap_cons]

end Text

namespace Console

/--
How lines are entered into a dialogue: joined by newlines, with or without a
final one, or each closed and followed by a blank line and anything else.
-/
inductive Enters (formulas : List Text) : Text → Prop where
  | joined :
      Enters formulas ([Byte.newline].intercalate formulas)
  | closed :
      Enters formulas ([Byte.newline].intercalate formulas ++ [Byte.newline])
  | ended
      {blank rest : Text} :
      Byte.newline ∉ blank →
      Text.trim blank = [] →
      Enters formulas
        (formulas.flatMap Text.line ++ Text.line blank ++ rest)

/-- A visible line is answered without the blanks at its ends. -/
theorem reply?_of_visible
    {line : Text}
    (visible : Text.trim line ≠ []) :
    reply? line = some (answer (Text.trim line)) := by
  unfold reply?
  cases trimmed : Text.trim line with
  | nil =>
      exact absurd trimmed visible
  | cons byte rest =>
      rfl

/-- A blank line is not answered. -/
theorem reply?_of_blank
    {line : Text}
    (blank : Text.trim line = []) :
    reply? line = none := by
  simp only [reply?, blank]

/-- A dialogue ends with its input or at a blank line, after one more prompt. -/
theorem dialogue_of_end
    {later : List Text}
    (ends : ∀ line ∈ later.head?, Text.trim line = []) :
    dialogue later = ⟨0, prompt, []⟩ := by
  cases later with
  | nil =>
      rfl
  | cons line rest =>
      simp only [dialogue, reply?_of_blank (ends line rfl)]

/-- Visible lines are answered one after the other before the dialogue goes on. -/
theorem dialogue_append
    {formulas : List Text}
    (visible : ∀ line ∈ formulas, Text.trim line ≠ [])
    {later : List Text}
    (ends : ∀ line ∈ later.head?, Text.trim line = []) :
    dialogue (formulas ++ later) =
      { status := 0
        output :=
          (formulas.flatMap fun line =>
            prompt ++ (answer (Text.trim line)).output) ++ prompt
        errors :=
          formulas.flatMap fun line => (answer (Text.trim line)).errors } := by
  induction formulas with
  | nil =>
      exact dialogue_of_end ends
  | cons line formulas inductionHypothesis =>
      obtain ⟨first, rest⟩ := List.forall_mem_cons.mp visible
      simp only [List.cons_append, dialogue, reply?_of_visible first,
        inductionHypothesis rest, List.flatMap_cons, List.append_assoc]

/-- The entered lines are followed by the end of the input or by a blank line. -/
theorem Enters.exists_lines
    {formulas : List Text}
    {input : Text}
    (enters : Enters formulas input)
    (unbroken : ∀ line ∈ formulas, Byte.newline ∉ line)
    (visible : ∀ line ∈ formulas, Text.trim line ≠ []) :
    ∃ later,
      Text.lines input = formulas ++ later ∧
        ∀ line ∈ later.head?, Text.trim line = [] := by
  have written : ∀ line ∈ formulas, line ≠ [] := by
    rintro line member rfl
    exact visible [] member rfl
  cases enters with
  | joined =>
      refine ⟨[], ?_, by simp⟩
      simpa only [List.append_nil] using
        Text.lines_intercalate unbroken written
  | closed =>
      cases formulas with
      | nil =>
          -- without a line the newline closes an empty one, which is blank
          refine ⟨[[]], rfl, ?_⟩
          rintro line isEmpty
          cases isEmpty
          rfl
      | cons line formulas =>
          refine ⟨[], ?_, by simp⟩
          have divided := Text.lines_flatMap_line_append unbroken []
          simp only [List.append_nil] at divided
          simp only [Text.intercalate_append_newline, divided]
          rfl
  | @ended blank rest blankUnbroken isBlank =>
      refine ⟨blank :: Text.lines rest, ?_, ?_⟩
      · simp only [List.append_assoc,
          Text.lines_flatMap_line_append unbroken,
          Text.lines_line_append blankUnbroken]
      · rintro line isFirst
        cases isFirst
        exact isBlank

/-- A formula that does not ask for help is answered alone as in a dialogue. -/
theorem run_singleton
    {formula : Text}
    (notHelp : formula ≠ Text.ascii "-h" ∧ formula ≠ Text.ascii "--help")
    (input : Text) :
    run [formula] input = answer formula := by
  have asks : asksForHelp formula = false := by
    simp [asksForHelp, notHelp]
  simp [run, oneShot, asks]

/--
A dialogue over visible lines succeeds.  It shows the legend, answers each line
after a prompt, and ends with one more prompt; errors are reported apart.  Each
line is answered as it would be alone, unless it asks for help, and nothing
after a blank line is answered.
-/
theorem run_of_enters
    {formulas : List Text}
    {input : Text}
    (unbroken : ∀ line ∈ formulas, Byte.newline ∉ line)
    (visible : ∀ line ∈ formulas, Text.trim line ≠ [])
    (enters : Enters formulas input) :
    run [] input =
        { status := 0
          output :=
            legend ++
              (formulas.flatMap fun line =>
                Text.ascii "Expression : " ++
                  (answer (Text.trim line)).output) ++
              Text.ascii "Expression : "
          errors :=
            formulas.flatMap fun line => (answer (Text.trim line)).errors } ∧
      ∀ line ∈ formulas,
        Text.trim line ≠ Text.ascii "-h" →
          Text.trim line ≠ Text.ascii "--help" →
            ∀ otherInput : Text,
              run [Text.trim line] otherInput = answer (Text.trim line) := by
  constructor
  · obtain ⟨later, divided, ends⟩ := enters.exists_lines unbroken visible
    simp only [run, divided, dialogue_append visible ends, prompt,
      List.append_assoc]
  · intro line _ notShort notLong otherInput
    exact run_singleton ⟨notShort, notLong⟩ otherInput

/-- A faulty line is reported, and a formula after a blank line is not read. -/
theorem run_of_enters_of_small_letter :
    (∀ line ∈ [Text.ascii " A", Text.ascii "b"], Byte.newline ∉ line) ∧
      (∀ line ∈ [Text.ascii " A", Text.ascii "b"], Text.trim line ≠ []) ∧
      Enters [Text.ascii " A", Text.ascii "b"]
        (Text.ascii " A\nb\n\t\nC\n") ∧
      run [] (Text.ascii " A\nb\n\t\nC\n") =
        { status := 0
          output :=
            legend ++
              ([Text.ascii " A", Text.ascii "b"].flatMap fun line =>
                Text.ascii "Expression : " ++
                  (answer (Text.trim line)).output) ++
              Text.ascii "Expression : "
          errors :=
            [Text.ascii " A", Text.ascii "b"].flatMap fun line =>
              (answer (Text.trim line)).errors } ∧
      run [Text.ascii "b"] [] = answer (Text.ascii "b") := by
  have unbroken :
      ∀ line ∈ [Text.ascii " A", Text.ascii "b"], Byte.newline ∉ line := by
    decide
  have visible :
      ∀ line ∈ [Text.ascii " A", Text.ascii "b"], Text.trim line ≠ [] := by
    decide
  have enters :
      Enters [Text.ascii " A", Text.ascii "b"]
        (Text.ascii " A\nb\n\t\nC\n") :=
    @Enters.ended _ (Text.ascii "\t") (Text.ascii "C\n") (by decide) rfl
  obtain ⟨talk, alone⟩ := run_of_enters unbroken visible enters
  exact
    ⟨unbroken, visible, enters, talk,
      alone (Text.ascii "b") (by decide) (by decide) (by decide) []⟩

end Console

end Propositional
