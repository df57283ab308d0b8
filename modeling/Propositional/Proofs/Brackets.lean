import Mathlib.Algebra.BigOperators.Group.List.Basic
import Mathlib.Algebra.Order.Ring.Int

namespace Propositional.Brackets

/-!
# Balanced brackets

Brackets in a list of any items, of which each deepens the nesting by some
amount.  A pair of brackets matches if what stands between them is balanced.  A
matching pair never reaches across the end of a balanced part.
-/

variable {α : Type} {turn : α → Int}

/-- By how much a list deepens the nesting. -/
def depth (turn : α → Int) (items : List α) : Int :=
  (items.map turn).sum

@[simp] theorem depth_nil (turn : α → Int) : depth turn [] = 0 := by
  rfl

@[simp] theorem depth_cons
    (turn : α → Int)
    (item : α)
    (items : List α) :
    depth turn (item :: items) = turn item + depth turn items := by
  exact List.sum_cons

@[simp] theorem depth_append
    (turn : α → Int)
    (first second : List α) :
    depth turn (first ++ second) = depth turn first + depth turn second := by
  rw [depth, List.map_append, List.sum_append]
  rfl

/-- A balanced list closes whatever it opens, and closes nothing else. -/
structure Balanced (turn : α → Int) (items : List α) : Prop where
  nonneg :
    ∀ {front rest : List α}, items = front ++ rest → 0 ≤ depth turn front
  closed :
    depth turn items = 0

namespace Balanced

variable {items first second : List α} {opening closing item : α}

theorem nil : Balanced turn [] where
  nonneg := by
    intro front rest whole
    obtain ⟨rfl, _⟩ := List.append_eq_nil_iff.mp whole.symm
    exact Int.le_refl 0
  closed :=
    rfl

/-- An item that is no bracket can stand before a balanced list. -/
theorem cons
    (balanced : Balanced turn items)
    (flat : turn item = 0) :
    Balanced turn (item :: items) where
  nonneg := by
    intro front rest whole
    rcases List.cons_eq_append_iff.mp whole with
        ⟨rfl, _⟩ | ⟨later, rfl, inItems⟩
    · exact Int.le_refl 0
    · simpa [flat] using balanced.nonneg inItems
  closed := by
    simp [flat, balanced.closed]

/-- Balanced lists one after the other are balanced. -/
theorem append
    (firstBalanced : Balanced turn first)
    (secondBalanced : Balanced turn second) :
    Balanced turn (first ++ second) where
  nonneg := by
    intro front rest whole
    rcases List.append_eq_append_iff.mp whole with
        ⟨later, rfl, inSecond⟩ | ⟨middle, inFirst, _⟩
    · simpa [firstBalanced.closed] using secondBalanced.nonneg inSecond
    · exact firstBalanced.nonneg inFirst
  closed := by
    simp [firstBalanced.closed, secondBalanced.closed]

/-- Brackets around a balanced list are balanced. -/
theorem group
    (balanced : Balanced turn items)
    (opens : turn opening = 1)
    (closes : turn closing = -1) :
    Balanced turn (opening :: items ++ [closing]) where
  nonneg := by
    intro front rest whole
    rcases List.cons_eq_append_iff.mp whole with
        ⟨rfl, _⟩ | ⟨later, rfl, inGroup⟩
    · exact Int.le_refl 0
    · rcases List.append_eq_append_iff.mp inGroup with
          ⟨last, rfl, atEnd⟩ | ⟨middle, inItems, _⟩
      · rcases List.cons_eq_append_iff.mp atEnd with
            ⟨rfl, _⟩ | ⟨nothing, rfl, isEnd⟩
        · simp [opens, balanced.closed]
        · obtain ⟨rfl, _⟩ := List.append_eq_nil_iff.mp isEnd.symm
          simp [opens, closes, balanced.closed]
      · have notBelow := balanced.nonneg inItems
        simp only [depth_cons, opens]
        omega
  closed := by
    simp [opens, closes, balanced.closed]

/-- A list without brackets is balanced. -/
theorem of_flat
    (flat : ∀ item ∈ items, turn item = 0) :
    Balanced turn items := by
  induction items with
  | nil =>
      exact nil
  | cons item items inductionHypothesis =>
      obtain ⟨first, later⟩ := List.forall_mem_cons.mp flat
      exact (inductionHypothesis later).cons first

end Balanced

/-- Where an item stands in a list with a last item: it is last, or comes before that. -/
theorem append_singleton_cases
    {items front rest : List α}
    {item last : α}
    (whole : items ++ [last] = front ++ item :: rest) :
    (items = front ∧ last = item ∧ rest = []) ∨
      ∃ middle,
        items = front ++ item :: middle ∧ rest = middle ++ [last] := by
  rcases List.eq_nil_or_concat rest with rfl | ⟨middle, other, rfl⟩
  · obtain ⟨shape, isLast⟩ := List.append_inj' whole rfl
    exact .inl ⟨shape, List.singleton_inj.mp isLast, rfl⟩
  · have ends :
        items ++ [last] = (front ++ item :: middle) ++ [other] := by
      simpa using whole
    obtain ⟨shape, isLast⟩ := List.append_inj' ends rfl
    refine .inr ⟨middle, shape, ?_⟩
    rw [List.singleton_inj.mp isLast, List.concat_eq_append]

/--
In a list stands a matching pair of brackets around `inner`, with `front` before
it and `back` after it.
-/
structure Encloses
    (turn : α → Int)
    (opening closing : α)
    (items front inner back : List α) : Prop where
  items_eq :
    items = front ++ opening :: (inner ++ closing :: back)
  balanced :
    Balanced turn inner

namespace Encloses

variable {opening closing : α} {items first second front inner back : List α}

/-- No pair stands in a list without opening brackets. -/
theorem exists_opens
    (encloses : Encloses turn opening closing items front inner back) :
    opening ∈ items := by
  rw [encloses.items_eq]
  simp

/-- A matching pair in two balanced lists stands in one of them. -/
theorem of_append
    (encloses :
      Encloses turn opening closing (first ++ second) front inner back)
    (firstBalanced : Balanced turn first)
    (opens : turn opening = 1) :
    (∃ rest,
        Encloses turn opening closing first front inner rest ∧
          back = rest ++ second) ∨
      ∃ start,
        Encloses turn opening closing second start inner back ∧
          front = first ++ start := by
  obtain ⟨whole, balanced⟩ := encloses
  rcases List.append_eq_append_iff.mp whole with
      ⟨start, rfl, inSecond⟩ | ⟨middle, inFirst, atMiddle⟩
  · exact .inr ⟨start, ⟨inSecond, balanced⟩, rfl⟩
  rcases List.cons_eq_append_iff.mp atMiddle with
      ⟨rfl, isSecond⟩ | ⟨later, rfl, afterOpening⟩
  · refine .inr ⟨[], ⟨isSecond, balanced⟩, ?_⟩
    simpa using inFirst.symm
  have frontNonneg := firstBalanced.nonneg inFirst
  have firstClosed := firstBalanced.closed
  rcases List.append_eq_append_iff.mp afterOpening with
      ⟨rest, rfl, atClosing⟩ | ⟨unread, isInner, _⟩
  · rcases List.cons_eq_append_iff.mp atClosing with
        ⟨rfl, _⟩ | ⟨rest, rfl, isBack⟩
    · simp only [inFirst, depth_append, depth_cons, opens, balanced.closed,
        depth_nil] at firstClosed
      omega
    · exact .inl ⟨rest, ⟨inFirst, balanced⟩, isBack⟩
  · have laterNonneg := balanced.nonneg isInner
    simp only [inFirst, depth_append, depth_cons, opens] at firstClosed
    omega

/-- A matching pair in a balanced list in brackets is that pair or stands inside. -/
theorem of_group
    {outerOpening outerClosing : α}
    (encloses :
      Encloses turn opening closing
        (outerOpening :: items ++ [outerClosing]) front inner back)
    (itemsBalanced : Balanced turn items)
    (opens : turn opening = 1)
    (closes : turn closing = -1) :
    (front = [] ∧ inner = items ∧ back = []) ∨
      ∃ start rest,
        Encloses turn opening closing items start inner rest ∧
          front = outerOpening :: start ∧
          back = rest ++ [outerClosing] := by
  obtain ⟨whole, balanced⟩ := encloses
  rcases List.cons_eq_append_iff.mp whole with
      ⟨rfl, isGroup⟩ | ⟨start, rfl, inGroup⟩
  · obtain ⟨_, afterOpening⟩ := List.cons.inj isGroup
    have ends : items ++ [outerClosing] = inner ++ closing :: back :=
      afterOpening.symm
    rcases append_singleton_cases ends with
        ⟨isInner, _, atEnd⟩ | ⟨rest, shape, _⟩
    · exact .inl ⟨rfl, isInner.symm, atEnd⟩
    · have closesEarly : items = (inner ++ [closing]) ++ rest := by
        simpa using shape
      have below := itemsBalanced.nonneg closesEarly
      simp only [depth_append, depth_cons, depth_nil, closes,
        balanced.closed] at below
      omega
  · have beforeClosing :
        items ++ [outerClosing] =
          (start ++ opening :: inner) ++ closing :: back := by
      simpa using inGroup
    rcases append_singleton_cases beforeClosing with
        ⟨shape, _, _⟩ | ⟨rest, shape, isBack⟩
    · have startNonneg := itemsBalanced.nonneg shape
      have itemsClosed := itemsBalanced.closed
      simp only [shape, depth_append, depth_cons, opens, balanced.closed]
        at itemsClosed
      omega
    · have inItems :
          items = start ++ opening :: (inner ++ closing :: rest) := by
        simpa using shape
      exact .inr ⟨start, rest, ⟨inItems, balanced⟩, rfl, isBack⟩

end Encloses

/--
A balanced list in brackets is no balanced list before an item that is no
bracket.
-/
theorem group_ne_append_cons
    {opening closing item : α}
    {items front rest : List α}
    (balanced : Balanced turn items)
    (frontBalanced : Balanced turn front)
    (flat : turn item = 0)
    (opens : turn opening = 1)
    (closes : turn closing = -1) :
    opening :: items ++ [closing] ≠ front ++ item :: rest := by
  intro whole
  rcases List.cons_eq_append_iff.mp whole with
      ⟨rfl, isItem⟩ | ⟨later, rfl, inGroup⟩
  · obtain ⟨rfl, _⟩ := List.cons.inj isItem
    omega
  have closed := frontBalanced.closed
  simp only [depth_cons, opens] at closed
  rcases append_singleton_cases inGroup with
      ⟨_, rfl, _⟩ | ⟨unread, shape, _⟩
  · omega
  · have laterNonneg := balanced.nonneg shape
    omega

end Propositional.Brackets
