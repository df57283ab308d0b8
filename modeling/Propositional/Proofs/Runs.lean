import Mathlib.Data.List.SplitBy
import Propositional.Text.Normal

namespace Propositional

/-!
# Runs of a sign

A run of a sign is a maximal block of equal neighbours.  Cancelling shortens
every run to one sign if its length is odd and to none if it is even, and leaves
everything else as it is.  This is what a single pass over neighbouring pairs
does to the negation signs of a text; the same cancellation acts on token lists
and on programs.
-/

namespace Runs

variable {α : Type} [DecidableEq α]

/-- The division of a list into the runs of a sign and single other items. -/
def blocks (sign : α) (items : List α) : List (List α) :=
  items.splitBy fun first second => first == sign && second == sign

/-- Shorten every run of a sign by as many pairs as it holds. -/
def cancel (sign : α) (items : List α) : List α :=
  (blocks sign items).flatMap fun block =>
    if sign ∈ block then
      List.replicate (block.length % 2) sign
    else
      block

/-- Put an item before a cancelled list; two signs that meet vanish. -/
def prepend (sign item : α) (cancelled : List α) : List α :=
  if item = sign ∧ cancelled.head? = some sign then
    cancelled.tail
  else
    item :: cancelled

@[simp] theorem cancel_nil (sign : α) : cancel sign [] = [] := by
  rfl

/-- Items other than the sign are blocks of their own. -/
theorem blocks_cons_of_ne
    {sign item : α}
    (different : item ≠ sign)
    (items : List α) :
    blocks sign (item :: items) = [item] :: blocks sign items := by
  have apart :
      blocks sign ([item] ++ items) =
        blocks sign [item] ++ blocks sign items := by
    apply List.splitBy_append
    simp [different]
  simpa [blocks, List.splitBy, List.splitBy.loop] using apart

/-- A run that the following items do not continue is a block. -/
theorem blocks_replicate_append
    {sign : α}
    {items : List α}
    (ends : items.head? ≠ some sign)
    (length : Nat) :
    blocks sign (List.replicate (length + 1) sign ++ items) =
      List.replicate (length + 1) sign :: blocks sign items := by
  have apart :
      blocks sign (List.replicate (length + 1) sign ++ items) =
        blocks sign (List.replicate (length + 1) sign) ++
          blocks sign items := by
    apply List.splitBy_append
    intro last _ next nextHead
    have nextNe : next ≠ sign := by
      rintro rfl
      exact ends nextHead
    simp [nextNe]
  have whole :
      blocks sign (List.replicate (length + 1) sign) =
        [List.replicate (length + 1) sign] := by
    apply List.splitBy_of_isChain
    · simp
    · exact List.isChain_replicate_of_rel _ (by simp)
  rw [apart, whole]
  rfl

/-- Cancelling keeps items other than the sign. -/
theorem cancel_cons_of_ne
    {sign item : α}
    (different : item ≠ sign)
    (items : List α) :
    cancel sign (item :: items) = item :: cancel sign items := by
  simp [cancel, blocks_cons_of_ne different, Ne.symm different]

/-- A run keeps one sign if its length is odd, and none if it is even. -/
theorem cancel_replicate_append
    {sign : α}
    {items : List α}
    (ends : items.head? ≠ some sign)
    (length : Nat) :
    cancel sign (List.replicate length sign ++ items) =
      List.replicate (length % 2) sign ++ cancel sign items := by
  cases length with
  | zero =>
      rfl
  | succ length =>
      simp [cancel, blocks_replicate_append ends]

/-- Every list starts with a run, which may be empty. -/
theorem exists_leading_run
    (sign : α)
    (items : List α) :
    ∃ length rest,
      items = List.replicate length sign ++ rest ∧
        rest.head? ≠ some sign := by
  induction items with
  | nil =>
      exact ⟨0, [], by simp⟩
  | cons item items inductionHypothesis =>
      by_cases isSign : item = sign
      · obtain ⟨length, rest, shape, ends⟩ := inductionHypothesis
        refine ⟨length + 1, rest, ?_, ends⟩
        rw [isSign, shape, List.replicate_succ, List.cons_append]
      · exact ⟨0, item :: items, by simp, by simpa using isSign⟩

/-- Cancelling makes no sign where none was. -/
theorem cancel_head?_ne
    {sign : α}
    {items : List α}
    (ends : items.head? ≠ some sign) :
    (cancel sign items).head? ≠ some sign := by
  cases items with
  | nil =>
      simp
  | cons item items =>
      have different : item ≠ sign := by
        simpa using ends
      simpa [cancel_cons_of_ne different] using different

/-- Cancelling works from the right, one item at a time. -/
theorem cancel_cons
    (sign item : α)
    (items : List α) :
    cancel sign (item :: items) =
      prepend sign item (cancel sign items) := by
  by_cases isSign : item = sign
  · subst item
    obtain ⟨length, rest, rfl, ends⟩ := exists_leading_run sign items
    have restHead := cancel_head?_ne ends
    have longer :
        sign :: (List.replicate length sign ++ rest) =
          List.replicate (length + 1) sign ++ rest := by
      rw [List.replicate_succ, List.cons_append]
    rw [longer, cancel_replicate_append ends, cancel_replicate_append ends]
    rcases Nat.mod_two_eq_zero_or_one length with even | odd
    · have next : (length + 1) % 2 = 1 := by
        omega
      simp [even, next, prepend, restHead]
    · have next : (length + 1) % 2 = 0 := by
        omega
      simp [odd, next, prepend]
  · simp [cancel_cons_of_ne isSign, prepend, isSign]

/-- A sign that meets another one vanishes with it. -/
theorem cancel_eq_cons_of_meets
    {sign : α}
    {items : List α}
    (meets : (cancel sign items).head? = some sign) :
    cancel sign items = sign :: cancel sign (sign :: items) := by
  obtain ⟨tail, shape⟩ := List.head?_eq_some_iff.mp meets
  rw [cancel_cons, shape]
  simp [prepend]

/-- A sign that meets no other one stays. -/
theorem cancel_cons_of_apart
    {sign : α}
    {items : List α}
    (apart : (cancel sign items).head? ≠ some sign) :
    cancel sign (sign :: items) = sign :: cancel sign items := by
  rw [cancel_cons]
  simp [prepend, apart]

/-- Two neighbouring signs cancel. -/
theorem cancel_cons_cons
    (sign : α)
    (items : List α) :
    cancel sign (sign :: sign :: items) = cancel sign items := by
  obtain ⟨length, rest, rfl, ends⟩ := exists_leading_run sign items
  have longer :
      sign :: sign :: (List.replicate length sign ++ rest) =
        List.replicate (length + 2) sign ++ rest := by
    simp only [List.replicate_succ, List.cons_append]
  rw [longer, cancel_replicate_append ends, cancel_replicate_append ends,
    Nat.add_mod_right]

/-- An item other than the sign separates what is cancelled around it. -/
theorem cancel_append_cons
    {sign item : α}
    (different : item ≠ sign)
    (front rest : List α) :
    cancel sign (front ++ item :: rest) =
      cancel sign front ++ item :: cancel sign rest := by
  induction front with
  | nil =>
      simpa using cancel_cons_of_ne different rest
  | cons first front inductionHypothesis =>
      rw [List.cons_append, cancel_cons, cancel_cons, inductionHypothesis]
      cases cancel sign front with
      | nil =>
          simp [prepend, different]
      | cons head tail =>
          by_cases meets : first = sign ∧ head = sign
          · simp [prepend, meets]
          · simp [prepend, meets]

/-- Items among which the sign does not occur stay before what is cancelled. -/
theorem cancel_append_of_notMem
    {sign : α}
    {front : List α}
    (absent : sign ∉ front)
    (rest : List α) :
    cancel sign (front ++ rest) = front ++ cancel sign rest := by
  induction front with
  | nil =>
      rfl
  | cons item front inductionHypothesis =>
      rw [List.mem_cons, not_or] at absent
      rw [List.cons_append, cancel_cons_of_ne (Ne.symm absent.1),
        inductionHypothesis absent.2, List.cons_append]

/-- Two signs that meet at the front cancel there or later alike. -/
theorem cancel_prepend_append
    (sign item : α)
    (cancelled rest : List α) :
    cancel sign (prepend sign item cancelled ++ rest) =
      cancel sign (item :: (cancelled ++ rest)) := by
  by_cases meets : item = sign ∧ cancelled.head? = some sign
  · obtain ⟨isSign, startsSign⟩ := meets
    obtain ⟨tail, shape⟩ := List.head?_eq_some_iff.mp startsSign
    simp [prepend, isSign, shape, cancel_cons_cons]
  · simp [prepend, meets]

/-- A part may be cancelled before the whole. -/
theorem cancel_cancel_append
    (sign : α)
    (front rest : List α) :
    cancel sign (cancel sign front ++ rest) =
      cancel sign (front ++ rest) := by
  induction front with
  | nil =>
      rfl
  | cons item front inductionHypothesis =>
      calc
        cancel sign (cancel sign (item :: front) ++ rest)
            = cancel sign (item :: (cancel sign front ++ rest)) := by
              rw [cancel_cons, cancel_prepend_append]
        _ = prepend sign item (cancel sign (front ++ rest)) := by
              rw [cancel_cons, inductionHypothesis]
        _ = cancel sign (item :: front ++ rest) := by
              rw [List.cons_append, cancel_cons]

/-- What follows a part matters only as far as it is cancelled. -/
theorem cancel_append_congr
    {sign : α}
    {rest other : List α}
    (same : cancel sign rest = cancel sign other)
    (front : List α) :
    cancel sign (front ++ rest) = cancel sign (front ++ other) := by
  induction front with
  | nil =>
      exact same
  | cons item front inductionHypothesis =>
      rw [List.cons_append, List.cons_append, cancel_cons,
        inductionHypothesis, ← cancel_cons]

/-- What is cancelled stays as it is. -/
theorem cancel_cancel
    (sign : α)
    (items : List α) :
    cancel sign (cancel sign items) = cancel sign items := by
  simpa using cancel_cancel_append sign items []

/-- Cancelling only drops items. -/
theorem cancel_sublist
    (sign : α)
    (items : List α) :
    (cancel sign items).Sublist items := by
  induction items with
  | nil =>
      exact List.Sublist.slnil
  | cons item items inductionHypothesis =>
      rw [cancel_cons]
      by_cases meets : item = sign ∧ (cancel sign items).head? = some sign
      · rw [prepend, if_pos meets]
        exact ((List.tail_sublist _).trans inductionHypothesis).cons item
      · rw [prepend, if_neg meets]
        exact inductionHypothesis.cons_cons item

/-- Cancelling leaves no neighbouring signs. -/
theorem pair_notInfix_cancel
    (sign : α)
    (items : List α) :
    ¬ [sign, sign] <:+: cancel sign items := by
  induction items with
  | nil =>
      simp
  | cons item items inductionHypothesis =>
      rw [cancel_cons]
      by_cases meets : item = sign ∧ (cancel sign items).head? = some sign
      · rw [prepend, if_pos meets]
        intro pair
        exact
          inductionHypothesis
            (pair.trans (List.tail_suffix _).isInfix)
      · rw [prepend, if_neg meets]
        intro pair
        rcases List.infix_cons_iff.mp pair with atFront | later
        · obtain ⟨isSign, follows⟩ := List.cons_prefix_cons.mp atFront
          exact meets ⟨isSign.symm, List.singleton_prefix_iff_head?_eq_some.mp follows⟩
        · exact inductionHypothesis later

/-- Without neighbouring signs there is nothing to cancel. -/
theorem cancel_eq_self
    {sign : α}
    {items : List α}
    (single : ¬ [sign, sign] <:+: items) :
    cancel sign items = items := by
  induction items with
  | nil =>
      rfl
  | cons item items inductionHypothesis =>
      have rest : cancel sign items = items :=
        inductionHypothesis fun pair => single (List.infix_cons pair)
      rw [cancel_cons, rest]
      by_cases meets : item = sign ∧ items.head? = some sign
      · obtain ⟨tail, shape⟩ : ∃ tail, items = sign :: tail :=
          List.head?_eq_some_iff.mp meets.2
        refine (single ⟨[], tail, ?_⟩).elim
        simp [meets.1, shape]
      · simp [prepend, meets]

/-- Cancelling leaves exactly the lists without neighbouring signs as they are. -/
theorem cancel_eq_self_iff
    {sign : α}
    {items : List α} :
    cancel sign items = items ↔ ¬ [sign, sign] <:+: items := by
  constructor
  · intro same
    rw [← same]
    exact pair_notInfix_cancel sign items
  · exact cancel_eq_self

/-- Cancelling drops signs only, so it drops nothing if no sign is lost. -/
theorem cancel_eq_self_of_count
    {sign : α}
    {items : List α}
    (kept : (cancel sign items).count sign = items.count sign) :
    cancel sign items = items := by
  induction items with
  | nil =>
      rfl
  | cons item items inductionHypothesis =>
      rw [cancel_cons] at kept ⊢
      by_cases meets : item = sign ∧ (cancel sign items).head? = some sign
      · have shorter :
            ((cancel sign items).tail.count sign) ≤ items.count sign :=
          ((List.tail_sublist _).trans (cancel_sublist sign items)).count_le
            sign
        rw [prepend, if_pos meets, meets.1, List.count_cons_self] at kept
        omega
      · rw [prepend, if_neg meets] at kept ⊢
        rw [List.count_cons, List.count_cons] at kept
        rw [inductionHypothesis (Nat.add_right_cancel kept)]

end Runs

namespace Text

/-- One pass over neighbouring pairs cancels every run of a byte. -/
theorem cancelPairs_eq_cancel
    (byte : Byte)
    (text : Text) :
    cancelPairs byte text = Runs.cancel byte text := by
  fun_induction cancelPairs byte text with
  | case1 =>
      rfl
  | case2 last =>
      rw [Runs.cancel_cons]
      simp [Runs.prepend]
  | case3 first second rest pair inductionHypothesis =>
      rw [pair.1, pair.2, Runs.cancel_cons_cons, inductionHypothesis]
  | case4 first second rest noPair inductionHypothesis =>
      rw [inductionHypothesis, Runs.cancel_cons byte first]
      by_cases isByte : first = byte
      · have secondNe : second ≠ byte := fun same => noPair ⟨isByte, same⟩
        simp [Runs.prepend, Runs.cancel_cons_of_ne secondNe, secondNe]
      · simp [Runs.prepend, isByte]

end Text

end Propositional
