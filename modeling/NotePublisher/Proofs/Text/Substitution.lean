import NotePublisher.Proofs.Text.Replacement

namespace NotePublisher

/-!
# Texts with substituted words

A stage that puts something else in the place of some occurrences of fixed
words does not know what the text around them means. What it cannot touch is a
solid part (`IsSolid`): none of the words occurs in it, begins in front of it
and ends in it, or begins in it and ends behind it. Solid parts stay as they
are, in their order (`OccurInOrder.substituted`).
-/

namespace Text

/-- The second text is the first one with other texts in the place of some words. -/
inductive Substituted (words : List Text) : Text → Text → Prop
  | nil :
      Substituted words [] []
  | keep
      (char : Char)
      {old new : Text}
      (rest : Substituted words old new) :
      Substituted words (char :: old) (char :: new)
  | replace
      {gone : Text}
      (isWord : gone ∈ words)
      (put : Text)
      {old new : Text}
      (rest : Substituted words old new) :
      Substituted words (gone ++ old) (put ++ new)

/-- No word reaches across the place where two texts meet. -/
def Seam (words : List Text) (left right : Text) : Prop :=
  ∀ before behind, before ≠ [] → behind ≠ [] → before ++ behind ∈ words →
    before <:+ left → ¬ behind <+: right

/-- A part that stays as it is when words around it are substituted. -/
structure IsSolid (words : List Text) (part : Text) : Prop where
  part_ne_nil : part ≠ []
  head_not_mem : ∀ char ∈ part.head?, ∀ word ∈ words, char ∉ word.tail
  last_not_mem : ∀ char ∈ part.getLast?, ∀ word ∈ words, char ∉ word
  absent : ∀ word ∈ words, ¬ word <:+: part

variable {words : List Text}

theorem Seam.of_suffix
    {shorter left right : Text}
    (seam : Seam words left right)
    (suffix : shorter <:+ left) :
    Seam words shorter right := by
  intro before behind before_ne_nil behind_ne_nil isWord atEnd
  exact seam before behind before_ne_nil behind_ne_nil isWord (atEnd.trans suffix)

namespace IsSolid

variable {part : Text}

/-- No word begins in front of a solid part and ends in it. -/
theorem seam_before
    (solid : IsSolid words part)
    (left right : Text) :
    Seam words left (part ++ right) := by
  intro before behind before_ne_nil behind_ne_nil isWord _ atFront
  obtain ⟨first, others, rfl⟩ := List.exists_cons_of_ne_nil solid.part_ne_nil
  obtain ⟨second, rest, rfl⟩ := List.exists_cons_of_ne_nil behind_ne_nil
  obtain ⟨rfl, _⟩ := List.cons_prefix_cons.mp atFront
  apply solid.head_not_mem second rfl _ isWord
  rw [List.tail_append_of_ne_nil before_ne_nil]
  simp

/-- No word begins in a solid part and ends behind it. -/
theorem seam_behind
    (solid : IsSolid words part)
    (right : Text) :
    Seam words part right := by
  intro before behind before_ne_nil _ isWord atEnd _
  obtain ⟨front, shape⟩ := atEnd
  apply solid.last_not_mem (before.getLast before_ne_nil) _ _ isWord
  · exact List.mem_append_left _ (List.getLast_mem before_ne_nil)
  · rw [← shape, List.getLast?_append_of_ne_nil _ before_ne_nil,
      List.getLast?_eq_getLast_of_ne_nil before_ne_nil]
    rfl

end IsSolid

namespace Substituted

theorem keepAll
    (kept : Text)
    {old new : Text}
    (rest : Substituted words old new) :
    Substituted words (kept ++ old) (kept ++ new) := by
  induction kept with
  | nil =>
      exact rest
  | cons char others inductionHypothesis =>
      exact .keep char inductionHypothesis

/-- Where no word reaches across, both sides are substituted by themselves. -/
theorem split
    {left right new : Text}
    (seam : Seam words left right)
    (substituted : Substituted words (left ++ right) new) :
    ∃ newLeft newRight, new = newLeft ++ newRight ∧
      Substituted words left newLeft ∧ Substituted words right newRight := by
  generalize shape : left ++ right = whole at substituted
  induction substituted generalizing left with
  | nil =>
      obtain ⟨rfl, rfl⟩ := List.append_eq_nil_iff.mp shape
      exact ⟨[], [], rfl, .nil, .nil⟩
  | keep char rest inductionHypothesis =>
      cases left with
      | nil =>
          obtain rfl : right = _ := shape
          exact ⟨[], _, rfl, .nil, rest.keep char⟩
      | cons first others =>
          obtain ⟨rfl, tailShape⟩ := List.cons.inj shape
          obtain ⟨newLeft, newRight, rfl, inLeft, inRight⟩ :=
            inductionHypothesis (seam.of_suffix (List.suffix_cons _ _)) tailShape
          exact ⟨first :: newLeft, newRight, rfl, inLeft.keep first, inRight⟩
  | @replace gone isWord put old new rest inductionHypothesis =>
      rcases List.append_eq_append_iff.mp shape with
          ⟨behind, rfl, rfl⟩ | ⟨others, rfl, oldShape⟩
      · -- The word ends in the right text, so it is there as a whole or not at all.
        by_cases left_eq_nil : left = []
        · subst left_eq_nil
          exact ⟨[], put ++ new, rfl, .nil, rest.replace isWord put⟩
        · by_cases behind_eq_nil : behind = []
          · subst behind_eq_nil
            have inLeft : Substituted words (left ++ [] ++ []) (put ++ []) :=
              Substituted.nil.replace isWord put
            exact ⟨put, new, rfl, by simpa using inLeft, rest⟩
          · have across := seam left behind left_eq_nil behind_eq_nil isWord
              (List.suffix_refl left)
            exact (across (List.prefix_append behind old)).elim
      · obtain ⟨newLeft, newRight, rfl, inLeft, inRight⟩ :=
          inductionHypothesis (seam.of_suffix (List.suffix_append _ _)) oldShape.symm
        exact ⟨put ++ newLeft, newRight, by simp, inLeft.replace isWord put, inRight⟩

/-- A text that holds none of the words stays as it is. -/
theorem eq_of_absent
    {old new : Text}
    (substituted : Substituted words old new)
    (absent : ∀ word ∈ words, ¬ word <:+: old) :
    new = old := by
  induction substituted with
  | nil =>
      rfl
  | keep char rest inductionHypothesis =>
      rw [inductionHypothesis fun word isWord occurs =>
        absent word isWord (occurs.trans (List.suffix_cons _ _).isInfix)]
  | replace isWord put rest inductionHypothesis =>
      exact (absent _ isWord (List.prefix_append _ _).isInfix).elim

end Substituted

/-- The parts occur in the text in the given order and do not overlap. -/
def OccurInOrder : List Text → Text → Prop
  | [], _ => True
  | part :: others, text =>
      ∃ before after, text = before ++ (part ++ after) ∧ OccurInOrder others after

namespace OccurInOrder

theorem append
    {parts : List Text}
    (front : Text)
    {text : Text}
    (occur : OccurInOrder parts text) :
    OccurInOrder parts (front ++ text) := by
  cases parts with
  | nil =>
      trivial
  | cons part others =>
      obtain ⟨before, after, rfl, later⟩ := occur
      exact ⟨front ++ before, after, by simp, later⟩

/-- Some of the parts occur in order if all do. -/
theorem of_sublist
    {some all : List Text}
    (sublist : some.Sublist all)
    {text : Text}
    (occur : OccurInOrder all text) :
    OccurInOrder some text := by
  induction sublist generalizing text with
  | slnil =>
      trivial
  | cons part _ inductionHypothesis =>
      obtain ⟨before, after, rfl, later⟩ := occur
      exact ((inductionHypothesis later).append part).append before
  | cons_cons part _ inductionHypothesis =>
      obtain ⟨before, after, rfl, later⟩ := occur
      exact ⟨before, after, rfl, inductionHypothesis later⟩

/-- What occurs in order occurs. -/
theorem infix_of_mem
    {parts : List Text}
    {part text : Text}
    (occur : OccurInOrder parts text)
    (member : part ∈ parts) :
    part <:+: text := by
  obtain ⟨before, after, rfl, _⟩ :=
    occur.of_sublist (List.singleton_sublist.mpr member)
  exact ⟨before, after, by simp⟩

/-- Solid parts still occur in order when words around them have been substituted. -/
theorem substituted
    {parts : List Text}
    (solid : ∀ part ∈ parts, IsSolid words part)
    {old new : Text}
    (occur : OccurInOrder parts old)
    (substituted : Substituted words old new) :
    OccurInOrder parts new := by
  induction parts generalizing old new with
  | nil =>
      trivial
  | cons part others inductionHypothesis =>
      obtain ⟨solidHere, solidThere⟩ := List.forall_mem_cons.mp solid
      obtain ⟨before, after, rfl, later⟩ := occur
      obtain ⟨newBefore, rest, rfl, _, behind⟩ :=
        substituted.split (solidHere.seam_before before after)
      obtain ⟨newPart, newAfter, rfl, inPart, inAfter⟩ :=
        behind.split (solidHere.seam_behind after)
      obtain rfl := inPart.eq_of_absent solidHere.absent
      exact ⟨newBefore, newAfter, rfl, inductionHypothesis solidThere later inAfter⟩

/-- What is written for the spans of a text occurs in order in the result. -/
theorem renderAll
    {α : Type}
    (write : α → Text)
    (pieces : List (Piece α)) :
    OccurInOrder ((Piece.markedItems pieces).map write) (Piece.renderAll write pieces) := by
  induction pieces with
  | nil =>
      trivial
  | cons piece others inductionHypothesis =>
      cases piece with
      | plain run =>
          exact inductionHypothesis.append run
      | marked item =>
          exact ⟨[], Piece.renderAll write others, rfl, inductionHypothesis⟩

end OccurInOrder

end Text

end NotePublisher
