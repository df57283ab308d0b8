import Propositional.Proofs.Runs

namespace Propositional.Text

/-!
# The normal form of a text

Normalizing drops the blanks of a text and then shortens every run of negation
signs that is left to its parity.  One pass reaches a normal form: the result has
neither blanks nor neighbouring signs, parts may be normalized before the whole,
and neither blanks nor a pair of signs matter wherever they stand.
-/

/-- The bytes of a text that are no blanks. -/
def withoutBlanks (text : Text) : Text :=
  text.filter fun byte => !Byte.isSpace byte

theorem withoutBlanks_append
    (first second : Text) :
    withoutBlanks (first ++ second) =
      withoutBlanks first ++ withoutBlanks second := by
  exact List.filter_append first second

/-- A text without blanks keeps all its bytes. -/
theorem withoutBlanks_eq_self
    {text : Text}
    (unblanked : ∀ byte ∈ text, Byte.isSpace byte = false) :
    withoutBlanks text = text := by
  refine List.filter_eq_self.mpr ?_
  intro byte member
  simp [unblanked byte member]

/-- Blanks alone leave nothing. -/
theorem withoutBlanks_eq_nil
    {text : Text}
    (blank : ∀ byte ∈ text, Byte.isSpace byte = true) :
    withoutBlanks text = [] := by
  refine List.filter_eq_nil_iff.mpr ?_
  intro byte member
  simp [blank byte member]

/-- A normal text has no blanks, and its negation signs are cancelled. -/
theorem normalize_eq_cancel (text : Text) :
    normalize text =
      Runs.cancel (Byte.ofChar '!') (withoutBlanks text) := by
  exact cancelPairs_eq_cancel (Byte.ofChar '!') (withoutBlanks text)

/-- A normal text has no blanks. -/
theorem isSpace_of_mem_normalize
    {text : Text}
    {byte : Byte}
    (member : byte ∈ normalize text) :
    Byte.isSpace byte = false := by
  rw [normalize_eq_cancel] at member
  have kept := (Runs.cancel_sublist _ _).subset member
  simpa using (List.mem_filter.mp kept).2

theorem newline_notMem_normalize (text : Text) :
    Byte.newline ∉ normalize text := by
  intro member
  cases isSpace_of_mem_normalize member

/-- The texts that normalizing can leave. -/
structure Normal (text : Text) : Prop where
  /-- No byte is a blank. -/
  unblanked :
    ∀ byte ∈ text, Byte.isSpace byte = false
  /-- No negation sign stands next to another one. -/
  single :
    ¬ [Byte.ofChar '!', Byte.ofChar '!'] <:+: text

/-- Normalizing leaves a normal text. -/
theorem normal_normalize (text : Text) : Normal (normalize text) where
  unblanked :=
    fun _ member => isSpace_of_mem_normalize member
  single := by
    rw [normalize_eq_cancel]
    exact Runs.pair_notInfix_cancel _ _

/-- A normal text stays as it is. -/
theorem Normal.normalize_eq
    {text : Text}
    (normal : Normal text) :
    normalize text = text := by
  rw [normalize_eq_cancel, withoutBlanks_eq_self normal.unblanked,
    Runs.cancel_eq_self normal.single]

/-- Parts may be normalized before the whole. -/
theorem normalize_normalize_append
    (before after : Text) :
    normalize (normalize before ++ normalize after) =
      normalize (before ++ after) := by
  have kept (text : Text) :
      withoutBlanks (normalize text) =
        Runs.cancel (Byte.ofChar '!') (withoutBlanks text) := by
    rw [withoutBlanks_eq_self (normal_normalize text).unblanked,
      normalize_eq_cancel]
  calc
    normalize (normalize before ++ normalize after)
    _ = Runs.cancel (Byte.ofChar '!')
          (Runs.cancel (Byte.ofChar '!') (withoutBlanks before) ++
            Runs.cancel (Byte.ofChar '!') (withoutBlanks after)) := by
      rw [normalize_eq_cancel, withoutBlanks_append, kept, kept]
    _ = Runs.cancel (Byte.ofChar '!')
          (withoutBlanks before ++ withoutBlanks after) := by
      rw [Runs.cancel_cancel_append]
      exact Runs.cancel_append_congr (Runs.cancel_cancel _ _) _
    _ = normalize (before ++ after) := by
      rw [normalize_eq_cancel, withoutBlanks_append]

/-- The texts that normalizing removes wherever they stand. -/
inductive Negligible : Text → Prop where
  /-- Two negation signs. -/
  | pair :
      Negligible [Byte.ofChar '!', Byte.ofChar '!']
  /-- Blanks alone. -/
  | blanks
      {gap : Text} :
      (∀ byte ∈ gap, Byte.isSpace byte = true) →
      Negligible gap

/-- Without its blanks a negligible text cancels before any other. -/
theorem Negligible.cancel_append
    {gap : Text}
    (negligible : Negligible gap)
    (rest : Text) :
    Runs.cancel (Byte.ofChar '!') (withoutBlanks gap ++ rest) =
      Runs.cancel (Byte.ofChar '!') rest := by
  cases negligible with
  | pair =>
      exact Runs.cancel_cons_cons (Byte.ofChar '!') rest
  | blanks blank =>
      rw [withoutBlanks_eq_nil blank, List.nil_append]

/-- A negligible text may be left out. -/
theorem Negligible.normalize_append
    {gap : Text}
    (negligible : Negligible gap)
    (before after : Text) :
    normalize (before ++ gap ++ after) = normalize (before ++ after) := by
  rw [normalize_eq_cancel, normalize_eq_cancel, List.append_assoc,
    withoutBlanks_append, withoutBlanks_append, withoutBlanks_append]
  exact
    Runs.cancel_append_congr
      (negligible.cancel_append (withoutBlanks after)) _

/--
Normalizing keeps of a text what is left when its blanks are dropped and then
every run of negation signs is cut to one sign or none, by its parity.  That is
a normal text, which normalizing again leaves alone.  Parts may be normalized
before the whole, and a pair of signs or blanks may be put in anywhere.
-/
theorem normalize_normal_form (text before after : Text) :
    normalize text =
        Runs.cancel (Byte.ofChar '!') (withoutBlanks text) ∧
      Normal (normalize text) ∧
      normalize (normalize text) = normalize text ∧
      normalize (before ++ after) =
        normalize (normalize before ++ normalize after) ∧
      ∀ gap, Negligible gap →
        normalize (before ++ gap ++ after) = normalize (before ++ after) := by
  have normal := normal_normalize text
  refine ⟨normalize_eq_cancel text, normal, normal.normalize_eq, ?_, ?_⟩
  · exact (normalize_normalize_append before after).symm
  · intro gap negligible
    exact negligible.normalize_append before after

/-- A pair of signs between signs that blanks keep apart leaves their run even. -/
theorem normalize_normal_form_of_split_run :
    Negligible (Text.ascii "!!") ∧
      normalize (Text.ascii "! " ++ Text.ascii "!!" ++ Text.ascii "\t!A") =
        normalize (Text.ascii "! " ++ Text.ascii "\t!A") ∧
      normalize (Text.ascii "! " ++ Text.ascii "\t!A") = Text.ascii "A" := by
  obtain ⟨_, _, _, _, leftOut⟩ :=
    normalize_normal_form (Text.ascii "!A") (Text.ascii "! ")
      (Text.ascii "\t!A")
  exact ⟨.pair, leftOut (Text.ascii "!!") .pair, by decide⟩

end Propositional.Text
