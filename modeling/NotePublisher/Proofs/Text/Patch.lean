import Mathlib.Data.List.Infix
import NotePublisher.Text.Scanner

namespace NotePublisher

/-!
# Texts with patched parts

A rewriting step keeps most characters of a text and puts patches in the place
of others. Here is what such a step cannot do: bring an occurrence of a word
about. A patch that neither contains the word nor begins or ends with one of
its characters is a barrier to it (`IsBarrier`), so that every occurrence in
the patched text stands among kept characters that were neighbours before.
-/

namespace Text

/-- A patch that no occurrence of a word begins in, ends in or reaches across. -/
structure IsBarrier (word patch : Text) : Prop where
  head_not_mem : ∀ char ∈ patch.head?, char ∉ word
  last_not_mem : ∀ char ∈ patch.getLast?, char ∉ word
  absent : ¬ word <:+: patch
  patch_ne_nil : patch ≠ []

/--
An occurrence of a word in two texts lies within one of them, if the word does
not hold the last character of the first.
-/
theorem front_or_behind_of_append_eq
    {word front text before after : Text}
    (last_not_mem : ∀ char ∈ front.getLast?, char ∉ word)
    (occurs : front ++ text = before ++ (word ++ after)) :
    (∃ behind, front = before ++ (word ++ behind) ∧ after = behind ++ text) ∨
      ∃ between, text = between ++ (word ++ after) := by
  rcases List.append_eq_append_iff.mp occurs with
      ⟨between, _, tailShape⟩ | ⟨overlap, frontShape, wordShape⟩
  · exact .inr ⟨between, tailShape⟩
  · rcases List.append_eq_append_iff.mp wordShape with
        ⟨behind, overlapShape, afterShape⟩ | ⟨behind, wordSplit, tailShape⟩
    · exact .inl ⟨behind, by rw [frontShape, overlapShape], afterShape⟩
    · by_cases overlapEmpty : overlap = []
      · refine .inr ⟨[], ?_⟩
        rw [wordSplit, overlapEmpty, tailShape]
        simp
      · -- The word would reach across the end of the front.
        have lastInFront :
            overlap.getLast overlapEmpty ∈ front.getLast? := by
          rw [frontShape, List.getLast?_append_of_ne_nil _ overlapEmpty,
            List.getLast?_eq_getLast_of_ne_nil overlapEmpty]
          simp
        refine (last_not_mem _ lastInFront ?_).elim
        rw [wordSplit]
        exact List.mem_append_left _ (List.getLast_mem overlapEmpty)

/--
An occurrence of a word behind the front of a text lies wholly behind it, if
the word does not occur in the front nor hold its last character.
-/
theorem eq_append_of_front_append_eq
    {word front text before after : Text}
    (absent : ¬ word <:+: front)
    (last_not_mem : ∀ char ∈ front.getLast?, char ∉ word)
    (occurs : front ++ text = before ++ (word ++ after)) :
    ∃ between, text = between ++ (word ++ after) := by
  rcases front_or_behind_of_append_eq last_not_mem occurs with ⟨behind, inFront, _⟩ | inText
  · exact (absent ⟨before, behind, by simp [inFront]⟩).elim
  · exact inText

/-- A word does not reach over the end of a text whose last character it does not hold. -/
theorem not_infix_append
    {word left right : Text}
    (last_not_mem : ∀ char ∈ left.getLast?, char ∉ word)
    (notLeft : ¬ word <:+: left)
    (notRight : ¬ word <:+: right) :
    ¬ word <:+: left ++ right := by
  rintro ⟨before, after, shape⟩
  obtain ⟨between, rightShape⟩ :=
    eq_append_of_front_append_eq notLeft last_not_mem (by simpa using shape.symm)
  exact notRight ⟨between, after, by simp [rightShape]⟩

/-- A word that does not hold a character occurs on one side of it or not at all. -/
theorem infix_or_infix_of_infix_append_cons
    {word left right : Text}
    {char : Char}
    (char_not_mem : char ∉ word)
    (occurs : word <:+: left ++ char :: right) :
    word <:+: left ∨ word <:+: right := by
  by_cases word_eq_nil : word = []
  · subst word_eq_nil
    exact .inl List.nil_infix
  by_cases absent : word <:+: left
  · exact .inl absent
  obtain ⟨before, after, shape⟩ := occurs
  have absentInFront : ¬ word <:+: left ++ [char] := by
    rw [List.infix_concat_iff]
    rintro (atEnd | inside)
    · obtain ⟨start, startShape⟩ := atEnd
      have lastOfWord : word.getLast word_eq_nil = char := by
        have ends := congrArg List.getLast? startShape
        rw [List.getLast?_append_of_ne_nil _ word_eq_nil,
          List.getLast?_eq_getLast_of_ne_nil word_eq_nil] at ends
        simpa using ends
      exact char_not_mem (lastOfWord ▸ List.getLast_mem word_eq_nil)
    · exact absent inside
  obtain ⟨between, rightShape⟩ :=
    eq_append_of_front_append_eq absentInFront (by simpa using char_not_mem)
      (show (left ++ [char]) ++ right = before ++ (word ++ after) by
        simpa using shape.symm)
  exact .inr ⟨between, after, by simp [rightShape]⟩

/-- A word does not reach over a character that it does not hold. -/
theorem not_infix_append_cons
    {word left right : Text}
    {char : Char}
    (char_not_mem : char ∉ word)
    (notLeft : ¬ word <:+: left)
    (notRight : ¬ word <:+: right) :
    ¬ word <:+: left ++ char :: right := by
  intro occurs
  rcases infix_or_infix_of_infix_append_cons char_not_mem occurs with inLeft | inRight
  · exact notLeft inLeft
  · exact notRight inRight

/--
The second text arises from the first one by patching: single characters are
kept, and parts without a blocked character make room for barriers to `words`.
-/
inductive Patched
    (words : List Text)
    (blocked : Char → Bool) :
    Text →
    Text →
    Prop
  | nil :
      Patched words blocked [] []
  | keep
      (char : Char)
      {old new : Text}
      (rest : Patched words blocked old new) :
      Patched words blocked (char :: old) (char :: new)
  | patch
      (gone put : Text)
      {old new : Text}
      (unblocked : ∀ char ∈ gone, blocked char = false)
      (barrier : ∀ word ∈ words, IsBarrier word put)
      (rest : Patched words blocked old new) :
      Patched words blocked (gone ++ old) (put ++ new)

namespace Patched

variable {words : List Text} {blocked : Char → Bool}

theorem keepAll
    (kept : Text)
    {old new : Text}
    (rest : Patched words blocked old new) :
    Patched words blocked (kept ++ old) (kept ++ new) := by
  induction kept with
  | nil =>
      exact rest
  | cons char others inductionHypothesis =>
      exact .keep char inductionHypothesis

/-- What stands around a part that is kept makes room for barriers. -/
theorem around
    {before after left right : Text}
    (kept : Text)
    (beforeUnblocked : ∀ char ∈ before, blocked char = false)
    (afterUnblocked : ∀ char ∈ after, blocked char = false)
    (leftBarrier : ∀ word ∈ words, IsBarrier word left)
    (rightBarrier : ∀ word ∈ words, IsBarrier word right)
    {old new : Text}
    (rest : Patched words blocked old new) :
    Patched words blocked (before ++ (kept ++ after) ++ old) (left ++ (kept ++ right) ++ new) := by
  have tail : Patched words blocked (after ++ old) (right ++ new) :=
    .patch after right afterUnblocked rightBarrier rest
  have whole : Patched words blocked (before ++ (kept ++ (after ++ old)))
      (left ++ (kept ++ (right ++ new))) :=
    .patch before left beforeUnblocked leftBarrier (tail.keepAll kept)
  simpa only [List.append_assoc] using whole

/-- A word at the front of the patched text was at the front before. -/
theorem front
    {word : Text}
    (member : word ∈ words)
    {part old after : Text}
    (partOfWord : part ⊆ word)
    (patched : Patched words blocked old (part ++ after)) :
    ∃ rest, old = part ++ rest ∧ Patched words blocked rest after := by
  induction part generalizing old with
  | nil =>
      exact ⟨old, rfl, patched⟩
  | cons char others inductionHypothesis =>
      generalize shape : char :: others ++ after = new at patched
      cases patched with
      | nil =>
          simp at shape
      | keep kept rest =>
          obtain ⟨rfl, rfl⟩ := List.cons.inj shape
          obtain ⟨behind, rfl, patchedBehind⟩ :=
            inductionHypothesis
              (List.Subset.trans (List.subset_cons_self _ _) partOfWord) rest
          exact ⟨behind, rfl, patchedBehind⟩
      | patch gone put unblocked barrier rest =>
          have isBarrier := barrier word member
          cases put with
          | nil =>
              exact (isBarrier.patch_ne_nil rfl).elim
          | cons first putRest =>
              obtain ⟨rfl, _⟩ := List.cons.inj shape
              refine (isBarrier.head_not_mem char (by simp) ?_).elim
              exact partOfWord (by simp)

/-- A word that occurs in the patched text occurred before. -/
theorem infix_of_infix
    {word : Text}
    (member : word ∈ words)
    {old new : Text}
    (patched : Patched words blocked old new)
    (occurs : word <:+: new) :
    word <:+: old := by
  induction patched with
  | nil =>
      exact occurs
  | keep char rest inductionHypothesis =>
      rcases List.infix_cons_iff.mp occurs with ⟨after, shape⟩ | inside
      · obtain ⟨behind, oldShape, _⟩ :=
          front member (List.Subset.refl word) (shape ▸ keep char rest)
        exact ⟨[], behind, by simp [oldShape]⟩
      · exact (inductionHypothesis inside).trans (List.suffix_cons _ _).isInfix
  | patch gone put unblocked barrier rest inductionHypothesis =>
      obtain ⟨before, after, shape⟩ := occurs
      have isBarrier := barrier word member
      obtain ⟨between, inside⟩ :=
        eq_append_of_front_append_eq isBarrier.absent
          isBarrier.last_not_mem (by simpa using shape.symm)
      have earlier := inductionHypothesis ⟨between, after, by simp [inside]⟩
      exact earlier.trans (List.suffix_append _ _).isInfix

end Patched

end Text

end NotePublisher
