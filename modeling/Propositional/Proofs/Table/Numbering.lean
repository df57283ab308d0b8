import Mathlib.Tactic.Ring
import Propositional.Proofs.Table.Rows

namespace Propositional.Row

/-!
# The numbering of rows

The values of a row are the lowest binary digits of its number, the highest of
them for the first name.  So a row depends on its number modulo two to the number
of names only, and the rows of a table have all lists of truth values, each once,
in lexicographic order.
-/

/-- The values that a row gives to names, in their order. -/
def values (row : Row) (names : List Text) : List Bool :=
  (row.assignment names).map Prod.snd

/-- The number that has truth values as binary digits, the highest first. -/
def number (values : List Bool) : Nat :=
  values.foldl (fun number value => 2 * number + value.toNat) 0

/-- The values of all rows over names, from the first row to the last. -/
def valuesOfRows (names : List Text) : List (List Bool) :=
  (List.range (count names).toNat).map fun index =>
    values (UInt64.ofNat index) names

/-- Digits that are read after others move these to higher places. -/
theorem foldl_digits
    (values : List Bool)
    (start : Nat) :
    values.foldl (fun number value => 2 * number + value.toNat) start =
      start * 2 ^ values.length + number values := by
  unfold number
  induction values generalizing start with
  | nil =>
      simp
  | cons value values inductionHypothesis =>
      rw [List.foldl_cons, List.foldl_cons, inductionHypothesis,
        inductionHypothesis (2 * 0 + value.toNat), List.length_cons]
      ring

/-- The first digit counts as many units as the later digits can write numbers. -/
theorem number_cons
    (value : Bool)
    (values : List Bool) :
    number (value :: values) =
      value.toNat * 2 ^ values.length + number values := by
  rw [number, List.foldl_cons, foldl_digits, Nat.mul_zero, Nat.zero_add]

/-- Digits write a number below two to how many they are. -/
theorem number_lt (values : List Bool) :
    number values < 2 ^ values.length := by
  induction values with
  | nil =>
      decide
  | cons value values inductionHypothesis =>
      rw [number_cons, List.length_cons, Nat.pow_succ]
      cases value <;> simp <;> omega

/-- Equally many digits compare as the numbers that they write. -/
theorem lt_iff_number_lt
    {first second : List Bool}
    (sameLength : first.length = second.length) :
    first < second ↔ number first < number second := by
  induction first generalizing second with
  | nil =>
      cases second with
      | nil =>
          simp
      | cons value values =>
          cases sameLength
  | cons firstValue firstValues inductionHypothesis =>
      cases second with
      | nil =>
          cases sameLength
      | cons secondValue secondValues =>
          have sameRest : firstValues.length = secondValues.length :=
            Nat.succ.inj sameLength
          have firstBound := number_lt firstValues
          have secondBound := number_lt secondValues
          rw [List.cons_lt_cons_iff, Bool.lt_iff, inductionHypothesis sameRest,
            number_cons, number_cons, sameRest]
          rw [sameRest] at firstBound
          cases firstValue <;> cases secondValue <;> simp <;> omega

/-- Equally many digits that write the same number are the same. -/
theorem eq_of_number_eq
    {first second : List Bool}
    (sameLength : first.length = second.length)
    (same : number first = number second) :
    first = second := by
  have notBefore : ¬ first < second := by
    rw [lt_iff_number_lt sameLength]
    omega
  have notAfter : ¬ second < first := by
    rw [lt_iff_number_lt sameLength.symm]
    omega
  exact List.le_antisymm (List.not_lt.mp notAfter) (List.not_lt.mp notBefore)

theorem length_values
    (row : Row)
    (names : List Text) :
    (row.values names).length = names.length := by
  rw [values, List.length_map, ← List.length_map, map_fst_assignment]

/-- The value of a name is the digit whose place is the number of later names. -/
theorem values_cons
    (row : Row)
    (name : Text)
    {rest : List Text}
    (few : rest.length < 64) :
    row.values (name :: rest) =
      row.toNat.testBit rest.length :: row.values rest := by
  have small : rest.length < UInt64.size :=
    Nat.lt_trans few (by decide)
  have digit :
      ((row >>> UInt64.ofNat rest.length) &&& 1 == 1) =
        row.toNat.testBit rest.length := by
    rw [Bool.eq_iff_iff, beq_iff_eq, ← UInt64.toNat_inj, UInt64.toNat_and,
      UInt64.toNat_shiftRight, UInt64.toNat_ofNat_of_lt' small,
      Nat.mod_eq_of_lt few, Nat.shiftRight_eq_div_pow,
      Nat.testBit_eq_decide_div_mod_eq, decide_eq_true_eq]
    exact Eq.congr_left (Nat.and_one_is_mod _)
  rw [values, assignment, List.map_cons, digit]
  rfl

/-- The values of a row write its number, but for digits that no name has. -/
theorem number_values
    (row : Row)
    {names : List Text}
    (few : names.length ≤ 64) :
    number (row.values names) = row.toNat % 2 ^ names.length := by
  induction names with
  | nil =>
      simp [values, assignment, number, Nat.mod_one]
  | cons name rest inductionHypothesis =>
      have fewRest : rest.length < 64 := few
      rw [values_cons row name fewRest, number_cons, length_values,
        inductionHypothesis (Nat.le_of_lt fewRest), Nat.toNat_testBit,
        List.length_cons, Nat.mod_pow_succ]
      ring

/-- A row is decided by the digits of its number that names have. -/
theorem assignment_eq_iff
    {names : List Text}
    (few : names.length ≤ 64)
    {first second : Row} :
    first.assignment names = second.assignment names ↔
      first.toNat % 2 ^ names.length = second.toNat % 2 ^ names.length := by
  rw [← number_values first few, ← number_values second few]
  constructor
  · intro same
    rw [values, values, same]
  · intro same
    have sameLength :
        (first.values names).length = (second.values names).length := by
      rw [length_values, length_values]
    have sameValues := eq_of_number_eq sameLength same
    rw [List.zip_of_prod (first.map_fst_assignment names) rfl,
      List.zip_of_prod (second.map_fst_assignment names) rfl]
    exact congrArg names.zip sameValues

section Counted

variable {names : List Text}

/-- The values of a row that is counted write its number. -/
theorem number_values_of_lt_count
    (few : names.length < 64)
    {row : Row}
    (counted : row < count names) :
    number (row.values names) = row.toNat := by
  have below := UInt64.lt_iff_toNat_lt.mp counted
  rw [toNat_count few] at below
  rw [number_values row (Nat.le_of_lt few), Nat.mod_eq_of_lt below]

/-- The rows write the numbers from zero on, in their order. -/
theorem map_number_valuesOfRows (few : names.length < 64) :
    (valuesOfRows names).map number = List.range (2 ^ names.length) := by
  rw [valuesOfRows, toNat_count few, List.map_map]
  refine Eq.trans (List.map_congr_left ?_) (List.map_id _)
  intro index member
  have below := List.mem_range.mp member
  have small : index < UInt64.size :=
    Nat.lt_trans below (Nat.pow_lt_pow_right (by decide) few)
  have places := number_values (UInt64.ofNat index) (Nat.le_of_lt few)
  rw [UInt64.toNat_ofNat_of_lt' small, Nat.mod_eq_of_lt below] at places
  exact places

theorem length_of_mem_valuesOfRows
    {values : List Bool}
    (member : values ∈ valuesOfRows names) :
    values.length = names.length := by
  obtain ⟨index, _, rfl⟩ := List.mem_map.mp member
  exact length_values _ names

/-- All truth values for the names are the values of some row. -/
theorem mem_valuesOfRows
    (few : names.length < 64)
    {values : List Bool} :
    values ∈ valuesOfRows names ↔ values.length = names.length := by
  constructor
  · exact length_of_mem_valuesOfRows
  · intro length
    have bound := number_lt values
    rw [length, ← List.mem_range, ← map_number_valuesOfRows few] at bound
    obtain ⟨other, member, same⟩ := List.mem_map.mp bound
    have otherLength := length_of_mem_valuesOfRows member
    rw [← eq_of_number_eq (otherLength.trans length.symm) same]
    exact member

/-- The values of the rows ascend lexicographically, false before true. -/
theorem valuesOfRows_pairwise (few : names.length < 64) :
    (valuesOfRows names).Pairwise (· < ·) := by
  have ascending : ((valuesOfRows names).map number).Pairwise (· < ·) := by
    rw [map_number_valuesOfRows few]
    exact List.pairwise_lt_range
  refine (List.pairwise_map.mp ascending).imp_of_mem ?_
  intro first second firstMember secondMember before
  have sameLength : first.length = second.length := by
    rw [length_of_mem_valuesOfRows firstMember,
      length_of_mem_valuesOfRows secondMember]
  exact (lt_iff_number_lt sameLength).mpr before

/-- No two rows have the same values. -/
theorem valuesOfRows_nodup (few : names.length < 64) :
    (valuesOfRows names).Nodup := by
  apply List.Nodup.of_map number
  rw [map_number_valuesOfRows few]
  exact List.nodup_range

end Counted

/-- The lists of truth values of one length, each once, in lexicographic order. -/
structure Enumerates (length : Nat) (lists : List (List Bool)) : Prop where
  /-- Exactly the lists of this length occur, and they occur once. -/
  count_eq :
    ∀ values, lists.count values = if values.length = length then 1 else 0
  /-- A list comes before another where the first difference is false before true. -/
  ascending :
    lists.Pairwise (· < ·)

/-- The rows of a table enumerate the truth values of its names. -/
theorem enumerates_valuesOfRows
    {names : List Text}
    (few : names.length < 64) :
    Enumerates names.length (valuesOfRows names) where
  count_eq := by
    intro values
    rw [(valuesOfRows_nodup few).count]
    simp only [mem_valuesOfRows few]
  ascending :=
    valuesOfRows_pairwise few

/-- Digits that are all false write zero. -/
theorem number_replicate_false (length : Nat) :
    number (List.replicate length false) = 0 := by
  induction length with
  | zero =>
      rfl
  | succ length inductionHypothesis =>
      rw [List.replicate_succ, number_cons, inductionHypothesis]
      simp

/-- Digits that are all true write the number before the next power of two. -/
theorem number_replicate_true_add_one (length : Nat) :
    number (List.replicate length true) + 1 = 2 ^ length := by
  induction length with
  | zero =>
      rfl
  | succ length inductionHypothesis =>
      rw [List.replicate_succ, number_cons, List.length_replicate, Nat.pow_succ,
        Nat.add_assoc, inductionHypothesis, Bool.toNat_true]
      ring

/-- In the first row all values are false. -/
theorem values_zero
    {names : List Text}
    (few : names.length ≤ 64) :
    values 0 names = List.replicate names.length false := by
  apply eq_of_number_eq
  · rw [length_values, List.length_replicate]
  · rw [number_values 0 few, number_replicate_false]
    exact Nat.zero_mod _

/-- In the last row all values are true. -/
theorem values_last
    {names : List Text}
    (few : names.length < 64) :
    values (count names - 1) names = List.replicate names.length true := by
  apply eq_of_number_eq
  · rw [length_values, List.length_replicate]
  · have counted := toNat_count few
    have next := number_replicate_true_add_one names.length
    have positive : (1 : Row) ≤ count names := by
      rw [UInt64.le_iff_toNat_le, counted]
      exact Nat.one_le_two_pow
    have last : (count names - 1).toNat = 2 ^ names.length - 1 := by
      rw [UInt64.toNat_sub_of_le _ _ positive, counted]
      rfl
    rw [number_values _ (Nat.le_of_lt few), last, Nat.mod_eq_of_lt (by omega)]
    omega

/--
A row over at most sixty-four names gives values to the names in their order, and
two rows differ exactly if their numbers do modulo two to the number of names.
Over fewer names the rows below the row count enumerate all lists of truth values
in lexicographic order, from all false to all true, and the values of a row are
the binary digits of its number, the highest first.
-/
theorem assignment_enumerates
    {names : List Text}
    (few : names.length ≤ 64) :
    (∀ row : Row, (row.assignment names).map Prod.fst = names) ∧
      (∀ first second : Row,
        first.assignment names = second.assignment names ↔
          first.toNat % 2 ^ names.length =
            second.toNat % 2 ^ names.length) ∧
      (names.length ≤ 63 →
        (count names).toNat = 2 ^ names.length ∧
          Enumerates names.length (valuesOfRows names) ∧
          values 0 names = List.replicate names.length false ∧
          values (count names - 1) names =
            List.replicate names.length true ∧
          ∀ row < count names, number (row.values names) = row.toNat) := by
  refine ⟨fun row => row.map_fst_assignment names, ?_, ?_⟩
  · intro first second
    exact assignment_eq_iff few
  · intro fewer
    have below : names.length < 64 := Nat.lt_succ_of_le fewer
    exact
      ⟨toNat_count below, enumerates_valuesOfRows below, values_zero few,
        values_last below, fun _ counted =>
          number_values_of_lt_count below counted⟩

/-- Three variables have eight rows, in the order of their binary digits. -/
theorem assignment_enumerates_of_three_names :
    [Text.ascii "A", Text.ascii "B", Text.ascii "C"].length ≤ 63 ∧
      (∀ first second : Row,
        first.assignment [Text.ascii "A", Text.ascii "B", Text.ascii "C"] =
            second.assignment [Text.ascii "A", Text.ascii "B", Text.ascii "C"] ↔
          first.toNat % 2 ^ 3 = second.toNat % 2 ^ 3) ∧
      Enumerates 3
        (valuesOfRows [Text.ascii "A", Text.ascii "B", Text.ascii "C"]) ∧
      valuesOfRows [Text.ascii "A", Text.ascii "B", Text.ascii "C"] =
        [[false, false, false], [false, false, true], [false, true, false],
          [false, true, true], [true, false, false], [true, false, true],
          [true, true, false], [true, true, true]] := by
  have fewer :
      [Text.ascii "A", Text.ascii "B", Text.ascii "C"].length ≤ 63 := by
    decide
  obtain ⟨_, sameRows, enumerated⟩ :=
    assignment_enumerates (Nat.le_succ_of_le fewer)
  obtain ⟨_, enumerates, _⟩ := enumerated fewer
  exact ⟨fewer, sameRows, enumerates, by decide⟩

end Propositional.Row
