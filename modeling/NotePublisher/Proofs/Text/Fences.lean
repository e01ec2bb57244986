import NotePublisher.Proofs.Text.Patch

namespace NotePublisher

/-!
# Fenced spans

Comments, links and diagrams all stand between an opening and a closing fence,
with no blocked character (a line break, say) before the closing one. A scan
for such spans changes a text only if it holds one (`Reads.replace_eq_self`), a
patched text holds none that was not there before (`hasSpan_of_patched`), and
a text in which each span has been replaced holds none any more
(`not_hasSpan_replace`).
-/

namespace Text

/-- What stands before the first fence holds no blocked character. -/
theorem unblocked_of_splitAtFence?
    {fence : Text}
    {blocked : Char → Bool}
    {text before after : Text}
    (found : splitAtFence? fence blocked text = some (before, after)) :
    ∀ char ∈ before, blocked char = false := by
  induction text generalizing before with
  | nil =>
      simp [splitAtFence?] at found
  | cons char rest inductionHypothesis =>
      simp only [splitAtFence?] at found
      split at found
      · obtain ⟨rfl, rfl⟩ := by simpa using found
        simp
      · split at found
        · simp at found
        · next free =>
            simp only [Option.map_eq_some_iff, Prod.mk.injEq] at found
            obtain ⟨⟨body, tail⟩, inner, rfl, rfl⟩ := found
            simp only [List.mem_cons, forall_eq_or_imp]
            exact ⟨by simpa using free, inductionHypothesis inner⟩

/-- Whether a word begins a text shows in a front that is as long as the word. -/
private theorem prefix_append_iff_of_length_le
    {word front behind : Text}
    (fits : word.length ≤ front.length) :
    word <+: front ++ behind ↔ word <+: front := by
  constructor
  · intro begins
    exact List.prefix_of_prefix_length_le begins (List.prefix_append _ _) fits
  · intro begins
    exact begins.trans (List.prefix_append _ _)

/-- Whether a fence stands in front of another one shows before that one ends. -/
private theorem fence_prefix_iff
    {fence : Text}
    (fence_ne_nil : fence ≠ [])
    {char : Char}
    {before after : Text} :
    fence <+: char :: (before ++ (fence ++ after)) ↔
      fence <+: char :: (before ++ fence.dropLast) := by
  have whole : char :: (before ++ (fence ++ after)) =
      (char :: (before ++ fence.dropLast)) ++ (fence.getLast fence_ne_nil :: after) := by
    calc
      char :: (before ++ (fence ++ after))
          = char :: (before ++ (fence.dropLast ++ [fence.getLast fence_ne_nil] ++ after)) := by
        rw [List.dropLast_append_getLast fence_ne_nil]
      _ = _ := by
        simp
  rw [whole]
  apply prefix_append_iff_of_length_le
  simp only [List.length_cons, List.length_append, List.length_dropLast]
  omega

/-- Before its first occurrence the fence does not occur, nor with its own beginning. -/
theorem not_infix_dropLast_of_splitAtFence?
    {fence : Text}
    (fence_ne_nil : fence ≠ [])
    {blocked : Char → Bool}
    {text before after : Text}
    (found : splitAtFence? fence blocked text = some (before, after)) :
    ¬ fence <:+: before ++ fence.dropLast := by
  induction text generalizing before with
  | nil =>
      simp [splitAtFence?] at found
  | cons char rest inductionHypothesis =>
      have whole := eq_append_of_splitAtFence? found
      simp only [splitAtFence?] at found
      split at found
      · obtain ⟨rfl, rfl⟩ := by simpa using found
        intro occurs
        have shorter := occurs.length_le
        have positive := List.length_pos_iff.mpr fence_ne_nil
        simp only [List.nil_append, List.length_dropLast] at shorter
        omega
      · next missed =>
          split at found
          · simp at found
          · simp only [Option.map_eq_some_iff, Prod.mk.injEq] at found
            obtain ⟨⟨body, tail⟩, inner, rfl, rfl⟩ := found
            intro occurs
            rcases List.infix_cons_iff.mp occurs with atFront | inside
            · obtain ⟨behind, shape⟩ :=
                (@fence_prefix_iff fence fence_ne_nil char body tail).mpr atFront
              have begins : char :: rest = fence ++ behind := by
                rw [whole, shape]
                simp
              rw [dropStart?_eq_some_iff.mpr begins] at missed
              cases missed
            · exact inductionHypothesis inner inside

/--
A fence is found where no blocked character stands before it and where it does
not occur earlier, nor with its own beginning.
-/
theorem splitAtFence?_of_absent
    {fence : Text}
    (fence_ne_nil : fence ≠ [])
    {blocked : Char → Bool}
    {before : Text}
    (unblocked : ∀ char ∈ before, blocked char = false)
    (absent : ¬ fence <:+: before ++ fence.dropLast)
    (after : Text) :
    splitAtFence? fence blocked (before ++ (fence ++ after)) = some (before, after) := by
  induction before with
  | nil =>
      obtain ⟨first, others, rfl⟩ := List.exists_cons_of_ne_nil fence_ne_nil
      have starts : dropStart? (first :: others) (first :: (others ++ after)) = some after :=
        dropStart?_eq_some_iff.mpr rfl
      simp [splitAtFence?, starts]
  | cons char others inductionHypothesis =>
      obtain ⟨unblockedHere, unblockedThere⟩ := List.forall_mem_cons.mp unblocked
      have missed : dropStart? fence (char :: (others ++ (fence ++ after))) = none := by
        rw [Option.eq_none_iff_forall_ne_some]
        intro behind starts
        have begins : fence <+: char :: (others ++ (fence ++ after)) :=
          ⟨behind, (dropStart?_eq_some_iff.mp starts).symm⟩
        exact absent ((fence_prefix_iff fence_ne_nil).mp begins).isInfix
      have absentThere : ¬ fence <:+: others ++ fence.dropLast := by
        intro occurs
        exact absent (occurs.trans (List.suffix_cons _ _).isInfix)
      simp [splitAtFence?, missed, unblockedHere,
        inductionHypothesis unblockedThere absentThere]

/-- A fence that is found in a text is found however the text goes on. -/
theorem splitAtFence?_append
    {fence : Text}
    (fence_ne_nil : fence ≠ [])
    {blocked : Char → Bool}
    {text before after : Text}
    (found : splitAtFence? fence blocked text = some (before, after))
    (behind : Text) :
    splitAtFence? fence blocked (text ++ behind) = some (before, after ++ behind) := by
  have foundStill := splitAtFence?_of_absent fence_ne_nil (unblocked_of_splitAtFence? found)
    (not_infix_dropLast_of_splitAtFence? fence_ne_nil found) (after ++ behind)
  rw [eq_append_of_splitAtFence? found]
  simpa using foundStill

end Text

/-- The fences around the marked spans of one kind. -/
structure Fences where
  opening : Text
  closing : Text
  /-- The characters that may not stand before the closing fence. -/
  blocked : Char → Bool
  opening_ne_nil : opening ≠ []
  closing_ne_nil : closing ≠ []
  opening_unblocked : ∀ char ∈ opening, blocked char = false
  closing_unblocked : ∀ char ∈ closing, blocked char = false

namespace Fences

variable {fences : Fences}

/-- A closing fence comes before any blocked character. -/
def Closes (fences : Fences) (text : Text) : Prop :=
  ∃ before after, text = before ++ (fences.closing ++ after) ∧
    ∀ char ∈ before, fences.blocked char = false

/-- Some opening fence is closed. -/
def HasSpan (fences : Fences) (text : Text) : Prop :=
  ∃ before inside, text = before ++ (fences.opening ++ inside) ∧ fences.Closes inside

theorem closes_of_front (after : Text) :
    fences.Closes (fences.closing ++ after) :=
  ⟨[], after, rfl, by simp⟩

theorem not_closes_nil :
    ¬ fences.Closes [] := by
  rintro ⟨before, after, shape, _⟩
  simp [fences.closing_ne_nil] at shape

theorem not_hasSpan_nil :
    ¬ fences.HasSpan [] := by
  rintro ⟨before, inside, shape, _⟩
  simp [fences.opening_ne_nil] at shape

/-- A text still closes behind characters that may stand inside. -/
theorem closes_append
    (front : Text)
    {text : Text}
    (unblocked : ∀ char ∈ front, fences.blocked char = false)
    (closes : fences.Closes text) :
    fences.Closes (front ++ text) := by
  obtain ⟨before, after, rfl, unblockedBefore⟩ := closes
  refine ⟨front ++ before, after, by simp, ?_⟩
  intro char member
  rcases List.mem_append.mp member with inFront | inBefore
  · exact unblocked char inFront
  · exact unblockedBefore char inBefore

theorem hasSpan_append
    (front : Text)
    {text : Text}
    (hasSpan : fences.HasSpan text) :
    fences.HasSpan (front ++ text) := by
  obtain ⟨before, inside, rfl, closes⟩ := hasSpan
  exact ⟨front ++ before, inside, by simp, closes⟩

/-- A text around one that holds a span holds it too. -/
theorem hasSpan_of_infix
    {part text : Text}
    (occurs : part <:+: text)
    (hasSpan : fences.HasSpan part) :
    fences.HasSpan text := by
  obtain ⟨front, behind, rfl⟩ := occurs
  obtain ⟨before, inside, rfl, middle, after, rfl, unblocked⟩ := hasSpan
  refine ⟨front ++ before, middle ++ (fences.closing ++ (after ++ behind)), by simp, ?_⟩
  exact ⟨middle, after ++ behind, rfl, unblocked⟩

/-- A text that closes does so at its front or behind a first, unblocked character. -/
theorem closes_cons_iff
    {char : Char}
    {rest : Text} :
    fences.Closes (char :: rest) ↔
      (∃ after, char :: rest = fences.closing ++ after) ∨
        fences.blocked char = false ∧ fences.Closes rest := by
  constructor
  · rintro ⟨before, after, shape, unblocked⟩
    cases before with
    | nil =>
        exact .inl ⟨after, shape⟩
    | cons first others =>
        obtain ⟨rfl, rfl⟩ := List.cons.inj shape
        exact .inr ⟨unblocked _ (by simp), others, after, rfl,
          fun other member => unblocked other (List.mem_cons_of_mem _ member)⟩
  · rintro (⟨after, shape⟩ | ⟨unblocked, closes⟩)
    · exact shape ▸ closes_of_front after
    · exact closes_append [char] (by simpa using unblocked) closes

/-- A text that holds a span does so at its front or behind its first character. -/
theorem hasSpan_cons_iff
    {char : Char}
    {rest : Text} :
    fences.HasSpan (char :: rest) ↔
      (∃ inside, char :: rest = fences.opening ++ inside ∧ fences.Closes inside) ∨
        fences.HasSpan rest := by
  constructor
  · rintro ⟨before, inside, shape, closes⟩
    cases before with
    | nil =>
        exact .inl ⟨inside, shape, closes⟩
    | cons first others =>
        obtain ⟨_, rfl⟩ := List.cons.inj shape
        exact .inr ⟨others, inside, rfl, closes⟩
  · rintro (⟨inside, shape, closes⟩ | hasSpan)
    · exact ⟨[], inside, shape, closes⟩
    · exact hasSpan_append [char] hasSpan

/-- The search for a closing fence succeeds exactly if the text closes. -/
theorem splitAtFence?_eq_none_iff
    {text : Text} :
    Text.splitAtFence? fences.closing fences.blocked text = none ↔
      ¬ fences.Closes text := by
  induction text with
  | nil =>
      simp [Text.splitAtFence?, not_closes_nil]
  | cons char rest inductionHypothesis =>
      rw [Text.splitAtFence?, closes_cons_iff]
      cases starts : Text.dropStart? fences.closing (char :: rest) with
      | some after =>
          simp only [reduceCtorEq, false_iff, not_not]
          exact .inl ⟨after, Text.dropStart?_eq_some_iff.mp starts⟩
      | none =>
          have notAtFront : ¬ ∃ after, char :: rest = fences.closing ++ after := by
            rintro ⟨after, shape⟩
            rw [Text.dropStart?_eq_some_iff.mpr shape] at starts
            simp at starts
          by_cases isBlocked : fences.blocked char = true
          · simp [isBlocked, notAtFront]
          · simp [isBlocked, notAtFront, inductionHypothesis]

section Patching

variable {old new : Text}

/-- Patching with barriers to the closing fence closes no text. -/
theorem closes_of_patched
    {words : List Text}
    (closingMember : fences.closing ∈ words)
    (patched : Text.Patched words fences.blocked old new)
    (closes : fences.Closes new) :
    fences.Closes old := by
  induction patched with
  | nil =>
      exact closes
  | @keep char old new rest inductionHypothesis =>
      rcases closes_cons_iff.mp closes with ⟨after, shape⟩ | ⟨unblocked, later⟩
      · obtain ⟨behind, oldShape, _⟩ :=
          Text.Patched.front closingMember (List.Subset.refl _) (shape ▸ rest.keep char)
        exact oldShape ▸ closes_of_front behind
      · exact closes_cons_iff.mpr (.inr ⟨unblocked, inductionHypothesis later⟩)
  | patch gone put unblocked barrier rest inductionHypothesis =>
      obtain ⟨before, after, shape, unblockedBefore⟩ := closes
      have isBarrier := barrier _ closingMember
      obtain ⟨between, newShape⟩ :=
        Text.eq_append_of_front_append_eq isBarrier.absent isBarrier.last_not_mem shape
      have same : before = put ++ between := by
        rw [newShape, ← List.append_assoc] at shape
        exact (List.append_cancel_right shape).symm
      refine closes_append gone unblocked (inductionHypothesis ⟨between, after, newShape, ?_⟩)
      intro char member
      exact unblockedBefore char (same ▸ List.mem_append_right _ member)

/-- Patching with barriers to both fences brings no span about. -/
theorem hasSpan_of_patched
    {words : List Text}
    (openingMember : fences.opening ∈ words)
    (closingMember : fences.closing ∈ words)
    (patched : Text.Patched words fences.blocked old new)
    (hasSpan : fences.HasSpan new) :
    fences.HasSpan old := by
  induction patched with
  | nil =>
      exact hasSpan
  | @keep char old new rest inductionHypothesis =>
      rcases hasSpan_cons_iff.mp hasSpan with ⟨inside, shape, closes⟩ | later
      · obtain ⟨behind, oldShape, patchedBehind⟩ :=
          Text.Patched.front openingMember (List.Subset.refl _) (shape ▸ rest.keep char)
        exact ⟨[], behind, oldShape, closes_of_patched closingMember patchedBehind closes⟩
      · exact hasSpan_append [char] (inductionHypothesis later)
  | patch gone put unblocked barrier rest inductionHypothesis =>
      obtain ⟨before, inside, shape, closes⟩ := hasSpan
      have isBarrier := barrier _ openingMember
      obtain ⟨between, newShape⟩ :=
        Text.eq_append_of_front_append_eq isBarrier.absent isBarrier.last_not_mem shape
      exact hasSpan_append gone (inductionHypothesis ⟨between, inside, newShape, closes⟩)

end Patching

end Fences

end NotePublisher
