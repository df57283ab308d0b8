import Mathlib.Data.List.TakeWhile
import Propositional.Fault

namespace Propositional

/-!
# Results that may be faults

A composed computation has a result exactly if each of its parts has one.  Two
computations agree if they fail alike or have related results.  The message of a
fault breaks no line that the text it quotes does not break.
-/

namespace Text

/-- A numeral is written in digits. -/
theorem toNat_of_mem_decimal
    {byte : Byte}
    {number : Nat}
    (member : byte ∈ decimal number) :
    48 ≤ byte.toNat ∧ byte.toNat ≤ 57 := by
  obtain ⟨digit, listed, rfl⟩ := List.mem_map.mp member
  have isDigit := Nat.isDigit_of_mem_toDigits (by decide) (by decide) listed
  have bounds : 48 ≤ digit.toNat ∧ digit.toNat ≤ 57 :=
    Char.isDigit_iff_toNat.mp isDigit
  have code : (Byte.ofChar digit).toNat = digit.toNat % 256 :=
    UInt32.toNat_toUInt8 digit.val
  omega

/-- A numeral is unbroken. -/
theorem newline_notMem_decimal (number : Nat) :
    Byte.newline ∉ decimal number := by
  intro member
  have bounds := toNat_of_mem_decimal member
  have newline : Byte.newline.toNat = 10 := by
    rfl
  omega

end Text

namespace Connective

/-- A symbol is unbroken. -/
theorem newline_notMem_symbol (connective : Connective) :
    Byte.newline ∉ connective.symbol := by
  have catalogue :
      ∀ connective ∈ all, Byte.newline ∉ connective.symbol := by
    decide
  exact catalogue connective connective.mem_all

end Connective

namespace Fault

variable {α β : Type}

/-- A computation fails with a fault of some kind that is about some text. -/
def FailsWith
    (compute : Except Fault α)
    (kind : Kind)
    (token : Text) :
    Prop :=
  ∃ fault,
    compute = .error fault ∧ fault.kind = kind ∧ fault.token = token

/-- A mapped computation has a result exactly if the computation has one. -/
theorem map_eq_ok_iff
    {compute : Except Fault α}
    {convert : α → β}
    {result : β} :
    compute.map convert = .ok result ↔
      ∃ value, compute = .ok value ∧ convert value = result := by
  cases compute with
  | error fault =>
      simp [Except.map]
  | ok value =>
      simp [Except.map]

/-- A mapped computation has the fault of the computation. -/
theorem map_eq_error_iff
    {compute : Except Fault α}
    {convert : α → β}
    {fault : Fault} :
    compute.map convert = .error fault ↔ compute = .error fault := by
  cases compute with
  | error other =>
      simp [Except.map]
  | ok value =>
      simp [Except.map]

/-- A sequence of computations has a result exactly if each of them has one. -/
theorem bind_eq_ok_iff
    {compute : Except Fault α}
    {next : α → Except Fault β}
    {result : β} :
    (compute >>= next) = .ok result ↔
      ∃ value, compute = .ok value ∧ next value = .ok result := by
  cases compute with
  | error fault =>
      simp [bind, Except.bind]
  | ok value =>
      simp [bind, Except.bind]

/-- A sequence of computations has the first fault of one of them. -/
theorem bind_eq_error_iff
    {compute : Except Fault α}
    {next : α → Except Fault β}
    {fault : Fault} :
    (compute >>= next) = .error fault ↔
      compute = .error fault ∨
        ∃ value, compute = .ok value ∧ next value = .error fault := by
  cases compute with
  | error other =>
      simp [bind, Except.bind]
  | ok value =>
      simp [bind, Except.bind]

/-- After a result the sequence goes on with it. -/
theorem ok_bind
    (value : α)
    (next : α → Except Fault β) :
    (Except.ok value >>= next) = next value := by
  rfl

/-- A traversal has a result exactly if each of its items has one. -/
theorem mapM_eq_ok_iff
    {items : List α}
    {compute : α → Except Fault β}
    {results : List β} :
    items.mapM compute = .ok results ↔
      items.map compute = results.map .ok := by
  induction items generalizing results with
  | nil =>
      simp [pure, Except.pure, eq_comm]
  | cons item items inductionHypothesis =>
      rw [List.mapM_cons, bind_eq_ok_iff]
      constructor
      · rintro ⟨first, firstComputed, continued⟩
        obtain ⟨rest, restTraversed, collected⟩ := bind_eq_ok_iff.mp continued
        cases collected
        rw [List.map_cons, firstComputed, inductionHypothesis.mp restTraversed,
          List.map_cons]
      · intro mapped
        cases results with
        | nil =>
            simp at mapped
        | cons first rest =>
            obtain ⟨firstComputed, restMapped⟩ := List.cons.inj mapped
            refine ⟨first, firstComputed, bind_eq_ok_iff.mpr ?_⟩
            exact ⟨rest, inductionHypothesis.mpr restMapped, rfl⟩

/--
Two computations agree if they have the same fault, or if both have results and
these are related.
-/
inductive Agree
    (related : α → β → Prop) :
    Except Fault α → Except Fault β → Prop where
  | error
      (fault : Fault) :
      Agree related (.error fault) (.error fault)
  | ok
      {first : α}
      {second : β} :
      related first second →
      Agree related (.ok first) (.ok second)

namespace Agree

variable
  {related : α → β → Prop}
  {first : Except Fault α}
  {second : Except Fault β}

/-- A computation agrees with itself in its very result. -/
theorem refl (compute : Except Fault α) : Agree Eq compute compute := by
  cases compute with
  | error fault =>
      exact .error fault
  | ok result =>
      exact .ok rfl

/-- What agrees with a fault is that fault. -/
theorem eq_error
    {fault : Fault}
    (agree : Agree related (.error fault) second) :
    second = .error fault := by
  cases agree
  rfl

/-- What agrees with a result has a related result. -/
theorem exists_ok
    {result : α}
    (agree : Agree related (.ok result) second) :
    ∃ other, second = .ok other ∧ related result other := by
  cases agree with
  | ok results =>
      exact ⟨_, rfl, results⟩

/-- Either there is one fault, or there are related results. -/
theorem error_or_ok
    (agree : Agree related first second) :
    (∃ fault, first = .error fault ∧ second = .error fault) ∨
      ∃ firstResult secondResult,
        first = .ok firstResult ∧ second = .ok secondResult ∧
          related firstResult secondResult := by
  cases agree with
  | error fault =>
      exact .inl ⟨fault, rfl, rfl⟩
  | ok results =>
      exact .inr ⟨_, _, rfl, rfl, results⟩

/-- Results that agree in one way agree in every weaker way. -/
theorem mono
    {weaker : α → β → Prop}
    (agree : Agree related first second)
    (weaken :
      ∀ {firstResult secondResult},
        related firstResult secondResult →
          weaker firstResult secondResult) :
    Agree weaker first second := by
  cases agree with
  | error fault =>
      exact .error fault
  | ok results =>
      exact .ok (weaken results)

/-- Agreement goes on as long as related results lead to agreement. -/
theorem bind
    {γ δ : Type}
    {laterRelated : γ → δ → Prop}
    {firstNext : α → Except Fault γ}
    {secondNext : β → Except Fault δ}
    (agree : Agree related first second)
    (later :
      ∀ {firstResult secondResult},
        related firstResult secondResult →
          Agree laterRelated
            (firstNext firstResult) (secondNext secondResult)) :
    Agree laterRelated (first >>= firstNext) (second >>= secondNext) := by
  cases agree with
  | error fault =>
      exact .error fault
  | ok results =>
      exact later results

/-- Runs over one list agree if every single step keeps them in agreement. -/
theorem foldlM
    {Item : Type}
    {firstStep : α → Item → Except Fault α}
    {secondStep : β → Item → Except Fault β}
    (steps :
      ∀ {firstState secondState},
        related firstState secondState →
          ∀ item,
            Agree related
              (firstStep firstState item) (secondStep secondState item))
    {firstStart : α}
    {secondStart : β}
    (start : related firstStart secondStart)
    (items : List Item) :
    Agree related
      (items.foldlM firstStep firstStart)
      (items.foldlM secondStep secondStart) := by
  induction items generalizing firstStart secondStart with
  | nil =>
      exact .ok start
  | cons item items inductionHypothesis =>
      rw [List.foldlM_cons, List.foldlM_cons]
      exact (steps start item).bind inductionHypothesis

end Agree

/-- The wording of a fault is unbroken if the text that it is about is. -/
theorem newline_notMem_wording
    {fault : Fault}
    (unbroken : Byte.newline ∉ fault.token) :
    Byte.newline ∉ fault.wording := by
  cases fault with
  | invalidCharacter byte position =>
      exact List.not_mem_append
        (List.not_mem_append (by decide +kernel) unbroken) (by decide +kernel)
  | unknownToken byte position =>
      exact List.not_mem_append
        (List.not_mem_append
          (List.not_mem_append (by decide +kernel) unbroken) (by decide +kernel))
        (Text.newline_notMem_decimal position)
  | unexpectedToken text | unexpectedInstruction text
  | unknownVariable name | insufficientOperands connective =>
      exact List.not_mem_append (by decide +kernel) unbroken
  | unmatchedClosing | unclosedOpening =>
      decide +kernel
  | malformedResult height =>
      exact List.not_mem_append (by decide +kernel)
        (Text.newline_notMem_decimal height)

/-- The message of a fault is unbroken if the text that it is about is. -/
theorem newline_notMem_message
    {fault : Fault}
    (unbroken : Byte.newline ∉ fault.token) :
    Byte.newline ∉ fault.message := by
  intro member
  exact newline_notMem_wording unbroken (List.takeWhile_subset _ member)

end Fault

end Propositional
