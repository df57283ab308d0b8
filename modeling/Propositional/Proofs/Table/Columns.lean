import Mathlib.Data.List.Basic
import Propositional.Table.Layout

namespace Propositional.Table

/-!
# Columns of a drawn table

The rule of a table tells the columns of every line apart, whatever the cells
contain: where the rule has a plus sign, the middle of a separator stands in the
line.  So a line of cells that are as wide as its columns is divided by the rule
into these cells.
-/

/-- The rule below columns of some widths. -/
def rule (widths : List Nat) : Text :=
  (Text.ascii "-+-").intercalate
    (widths.map fun width => List.replicate width (Byte.ofChar '-'))

/--
Cut a line from `start` on at columns, and drop the byte at each of them with
its two neighbours.
-/
def cutFrom (start : Nat) (line : Text) : List Nat → List Text
  | [] =>
      [line.drop start]
  | column :: later =>
      (line.drop start).take (column - 1 - start) ::
        cutFrom (column + 2) line later

/-- Cut a line at the columns where a rule has a plus sign. -/
def cut (ruled line : Text) : List Text :=
  cutFrom 0 line (ruled.idxsOf (Byte.ofChar '+'))

/--
A line that stands above or below a rule: it is unbroken and as long as the
rule, the rule divides it into cells, and nothing but separators is dropped.
-/
structure Ruled (ruled line : Text) (cells : List Text) : Prop where
  length_eq :
    line.length = ruled.length
  unbroken :
    Byte.ofChar '\n' ∉ line
  cut_eq :
    cut ruled line = cells
  join_eq :
    (Text.ascii " | ").intercalate cells = line

/-- The rule of a table is the rule below the columns of its headings. -/
theorem ruleLine_eq_rule (headings : List Text) :
    ruleLine headings = rule (headings.map columnWidth) := by
  rw [ruleLine, rule, List.map_map]
  rfl

theorem rule_cons_cons
    (width next : Nat)
    (rest : List Nat) :
    rule (width :: next :: rest) =
      List.replicate width (Byte.ofChar '-') ++ Text.ascii "-+-" ++
        rule (next :: rest) := by
  exact List.intercalate_cons_cons

theorem joinCells_cons_cons
    (cell next : Text)
    (rest : List Text) :
    joinCells (cell :: next :: rest) =
      cell ++ Text.ascii " | " ++ joinCells (next :: rest) := by
  exact List.intercalate_cons_cons

/-- Where two columns meet, a rule has a plus sign between two dashes. -/
theorem crossing_eq :
    Text.ascii "-+-" =
      [Byte.ofChar '-', Byte.ofChar '+', Byte.ofChar '-'] := by
  rfl

/-- A rule consists of dashes and plus signs. -/
theorem mem_rule
    {widths : List Nat}
    {byte : Byte}
    (member : byte ∈ rule widths) :
    byte = Byte.ofChar '-' ∨ byte = Byte.ofChar '+' := by
  induction widths with
  | nil =>
      cases member
  | cons width rest inductionHypothesis =>
      cases rest with
      | nil =>
          rw [rule, List.map_singleton, List.intercalate_singleton] at member
          exact .inl (List.eq_of_mem_replicate member)
      | cons next rest =>
          rw [rule_cons_cons, List.mem_append, List.mem_append] at member
          rcases member with (inBlock | inSeparator) | inRest
          · exact .inl (List.eq_of_mem_replicate inBlock)
          · rw [crossing_eq] at inSeparator
            simp only [List.mem_cons, List.not_mem_nil] at inSeparator
            tauto
          · exact inductionHypothesis inRest

/-- A line of cells is as long as the rule below columns of their widths. -/
theorem length_joinCells (cells : List Text) :
    (joinCells cells).length = (rule (cells.map List.length)).length := by
  induction cells with
  | nil =>
      simp [joinCells, rule]
  | cons cell rest inductionHypothesis =>
      cases rest with
      | nil =>
          simp [joinCells, rule]
      | cons next rest =>
          have barLength : (Text.ascii " | ").length = 3 := by
            rfl
          have plusLength : (Text.ascii "-+-").length = 3 := by
            rfl
          rw [List.map_cons] at inductionHypothesis
          rw [joinCells_cons_cons, List.map_cons, List.map_cons,
            rule_cons_cons]
          simp only [List.length_append, List.length_replicate, barLength,
            plusLength, inductionHypothesis]

/-- Unbroken cells make an unbroken line. -/
theorem newline_notMem_joinCells
    {cells : List Text}
    (unbroken : ∀ cell ∈ cells, Byte.newline ∉ cell) :
    Byte.newline ∉ joinCells cells := by
  induction cells with
  | nil =>
      exact List.not_mem_nil
  | cons cell rest inductionHypothesis =>
      obtain ⟨cellUnbroken, restUnbroken⟩ := List.forall_mem_cons.mp unbroken
      cases rest with
      | nil =>
          rw [joinCells, List.intercalate_singleton]
          exact cellUnbroken
      | cons next rest =>
          have separator : Byte.newline ∉ Text.ascii " | " := by
            decide
          simp only [joinCells_cons_cons, List.mem_append, not_or]
          exact
            ⟨⟨cellUnbroken, separator⟩, inductionHypothesis restUnbroken⟩

/-- A rule below one column has no plus sign. -/
theorem idxsOf_rule_singleton (width start : Nat) :
    (rule [width]).idxsOf (Byte.ofChar '+') start = [] := by
  rw [rule, List.map_singleton, List.intercalate_singleton,
    List.idxsOf_eq_nil_iff]
  intro byte member
  rw [List.eq_of_mem_replicate member]
  rfl

/-- The first plus sign of a rule stands in the middle of the first separator. -/
theorem idxsOf_rule_cons_cons
    (width next : Nat)
    (rest : List Nat)
    (start : Nat) :
    (rule (width :: next :: rest)).idxsOf (Byte.ofChar '+') start =
      (start + width + 1) ::
        (rule (next :: rest)).idxsOf (Byte.ofChar '+') (start + width + 3) := by
  have block := idxsOf_rule_singleton width start
  rw [rule, List.map_singleton, List.intercalate_singleton] at block
  have isDash : (Byte.ofChar '-' == Byte.ofChar '+') = false := by
    decide
  have separator :
      (Text.ascii "-+-").idxsOf (Byte.ofChar '+') (start + width) =
        [start + width + 1] := by
    simp [crossing_eq, isDash]
  have separatorLength : (Text.ascii "-+-").length = 3 := by
    rfl
  rw [rule_cons_cons, List.idxsOf_append, List.idxsOf_append, block,
    List.length_replicate, separator, List.nil_append, List.length_append,
    List.length_replicate, separatorLength, List.singleton_append,
    Nat.add_assoc start width 3]

/-- From any start, the plus signs of the rule divide a line into its cells. -/
theorem cutFrom_joinCells
    (front : Text)
    {cells : List Text}
    (notEmpty : cells ≠ []) :
    cutFrom front.length (front ++ joinCells cells)
        ((rule (cells.map List.length)).idxsOf
          (Byte.ofChar '+') front.length) =
      cells := by
  induction cells generalizing front with
  | nil =>
      exact absurd rfl notEmpty
  | cons cell rest inductionHypothesis =>
      cases rest with
      | nil =>
          rw [List.map_singleton, idxsOf_rule_singleton, cutFrom, joinCells,
            List.intercalate_singleton, List.drop_left]
      | cons next rest =>
          have later :=
            inductionHypothesis (front ++ cell ++ Text.ascii " | ")
              (List.cons_ne_nil next rest)
          have laterStart :
              (front ++ cell ++ Text.ascii " | ").length =
                front.length + cell.length + 3 := by
            rw [List.length_append, List.length_append]
            rfl
          have width :
              front.length + cell.length + 1 - 1 - front.length =
                cell.length := by
            omega
          rw [laterStart, List.append_assoc, List.append_assoc] at later
          rw [List.map_cons, List.map_cons, idxsOf_rule_cons_cons, cutFrom,
            joinCells_cons_cons, List.drop_left, width, List.append_assoc,
            List.take_left]
          exact congrArg (List.cons cell) later

/-- A line of unbroken cells is ruled by the rule below columns of their widths. -/
theorem ruled_joinCells
    {cells : List Text}
    (notEmpty : cells ≠ [])
    (unbroken : ∀ cell ∈ cells, Byte.newline ∉ cell) :
    Ruled (rule (cells.map List.length)) (joinCells cells) cells where
  length_eq :=
    length_joinCells cells
  unbroken :=
    newline_notMem_joinCells unbroken
  cut_eq :=
    cutFrom_joinCells [] notEmpty
  join_eq :=
    rfl

end Propositional.Table
