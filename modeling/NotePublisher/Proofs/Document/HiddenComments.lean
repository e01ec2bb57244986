import NotePublisher.Proofs.Markup.Fences
import Mathlib.Data.List.DropRight

namespace NotePublisher

/-!
# What hidden comments hide

Where the last line of a stripped text leaves no percent sign open, the text in
front is stripped by itself, whatever follows it (`stripComments_append`). A
comment that follows is dropped as a whole, so nothing that comes of a text
depends on what its comments hold (`rewriteText_hides`).
-/

namespace Text

/-- The part of a text after its last line feed, or the whole text without one. -/
def lastLine (text : Text) : Text :=
  text.rtakeWhile (· != '\n')

/-- A text of one line is its last line. -/
theorem lastLine_of_not_mem
    {text : Text}
    (oneLine : '\n' ∉ text) :
    lastLine text = text := by
  rw [lastLine, List.rtakeWhile_eq_self_iff]
  intro char member
  rw [bne_iff_ne]
  rintro rfl
  exact oneLine member

/-- A character in front of a text is at most put in front of its last line. -/
theorem lastLine_suffix_cons
    (char : Char)
    (text : Text) :
    lastLine text <:+ lastLine (char :: text) := by
  rw [lastLine, lastLine, List.rtakeWhile, List.rtakeWhile, List.reverse_suffix,
    List.reverse_cons, List.takeWhile_append]
  split
  · next whole =>
      rw [(List.takeWhile_prefix _).eq_of_length whole]
      exact List.prefix_append _ _
  · exact List.prefix_refl _

end Text

namespace Comment

/-- The first fence behind the opening one, on the same line, is that behind the body. -/
structure IsFenced (comment : Comment) : Prop where
  oneLine : '\n' ∉ comment.body
  noFence : ¬ fence <:+: comment.body
  noSign : comment.body.getLast? ≠ some '%'

/-- The fence does not occur before the one behind the body, nor with its own beginning. -/
theorem IsFenced.not_infix_dropLast
    {comment : Comment}
    (isFenced : comment.IsFenced) :
    ¬ fence <:+: comment.body ++ fence.dropLast := by
  intro occurs
  rcases List.infix_concat_iff.mp occurs with ⟨front, atEnd⟩ | inBody
  · have ends : comment.body = front ++ ['%'] := by
      have shape : front ++ ['%'] ++ ['%'] = comment.body ++ ['%'] := by
        simpa [fence] using atEnd
      exact (List.append_cancel_right shape).symm
    exact isFenced.noSign (by simp [ends])
  · exact isFenced.noFence inBody

/-- A fenced comment is found whatever stands behind it. -/
theorem IsFenced.recognise?_source_append
    {comment : Comment}
    (isFenced : comment.IsFenced)
    (behind : Text) :
    recogniser.recognise? (comment.source ++ behind) = some (comment, behind) := by
  have starts : Text.dropStart? fence (comment.source ++ behind) =
      some (comment.body ++ (fence ++ behind)) :=
    Text.dropStart?_eq_some_iff.mpr (by simp [source])
  have unblocked : ∀ char ∈ comment.body, (char == '\n') = false := by
    intro char member
    rw [beq_eq_false_iff_ne]
    rintro rfl
    exact isFenced.oneLine member
  have fenced : Text.splitAtFence? fence (· == '\n') (comment.body ++ (fence ++ behind)) =
      some (comment.body, behind) :=
    Text.splitAtFence?_of_absent fences.closing_ne_nil unblocked isFenced.not_infix_dropLast behind
  simp [recogniser, recognise?, starts, fenced]

/-- A comment that is found is fenced. -/
theorem isFenced_of_recognised
    {text rest : Text}
    {comment : Comment}
    (found : recogniser.recognise? text = some (comment, rest)) :
    comment.IsFenced := by
  simp only [recogniser, recognise?, Option.bind_eq_some_iff, Option.map_eq_some_iff,
    Prod.mk.injEq] at found
  obtain ⟨inside, -, ⟨body, after⟩, fenced, rfl, rfl⟩ := found
  have unblocked := Text.unblocked_of_splitAtFence? fenced
  have absent := Text.not_infix_dropLast_of_splitAtFence? fences.closing_ne_nil fenced
  refine ⟨fun member => ?_, fun occurs => ?_, fun ends => ?_⟩
  · simpa using unblocked '\n' member
  · exact absent (occurs.trans (List.prefix_append _ _).isInfix)
  · obtain ⟨front, rfl⟩ := List.getLast?_eq_some_iff.mp ends
    exact absent ⟨front, [], by simp [fences, fence]⟩

end Comment

/-- Nothing on the last line of a text could open a comment that goes on behind the text. -/
structure Text.LeavesNoneOpen (text : Text) : Prop where
  noFence : ¬ Comment.fence <:+: text.lastLine
  noSign : text.lastLine.getLast? ≠ some '%'

/-- What leaves no fence open leaves none open behind its first character. -/
theorem Text.LeavesNoneOpen.of_cons
    {char : Char}
    {text : Text}
    (closed : LeavesNoneOpen (char :: text)) :
    text.LeavesNoneOpen where
  noFence occurs := closed.noFence (occurs.trans (lastLine_suffix_cons char text).isInfix)
  noSign ends := by
    obtain ⟨front, shape⟩ := lastLine_suffix_cons char text
    apply closed.noSign
    rw [← shape, List.getLast?_append, ends]
    rfl

/-- Stripping comments adds nothing. -/
theorem stripComments_sublist (text : Text) :
    (stripComments text).Sublist text :=
  Comment.recogniser.replace_induction (fun _ => []) (motive := fun old new => new.Sublist old)
    .slnil
    (fun char _ _ shorter => shorter.cons_cons char)
    (fun _ _ _ shorter => shorter.trans (List.sublist_append_right _ _))
    text

/-- A fence that nothing closes on its line is left where it is. -/
private theorem stripComments_of_unclosed
    {inside : Text}
    (missed : Comment.recogniser.recognise? (Comment.fence ++ inside) = none) :
    stripComments (Comment.fence ++ inside) = Comment.fence ++ stripComments inside := by
  have unclosed : ¬ Comment.fences.Closes inside := by
    intro closes
    exact (Comment.reads _).mp missed ⟨inside, rfl, closes⟩
  have missedNext : Comment.recogniser.recognise? ('%' :: inside) = none := by
    apply (Comment.reads _).mpr
    rintro ⟨rest, shape, closes⟩
    obtain rfl : inside = '%' :: rest := (List.cons.inj shape).2
    exact unclosed (Fences.closes_append ['%'] (by simp [Comment.fences]) closes)
  exact (Comment.recogniser.replace_cons_of_not_recognised _ missed).trans
    (congrArg ('%' :: ·) (Comment.recogniser.replace_cons_of_not_recognised _ missedNext))

/-- No comment that begins in a text that leaves none open ends behind it. -/
private theorem missed_append
    {char : Char}
    {others : Text}
    (missed : Comment.recogniser.recognise? (char :: others) = none)
    (closed : (stripComments (char :: others)).LeavesNoneOpen)
    (behind : Text) :
    Comment.recogniser.recognise? (char :: (others ++ behind)) = none := by
  by_cases oneLine : '\n' ∈ char :: others
  · -- A comment that begins in an earlier line ends there.
    obtain ⟨front, rest, shape⟩ := List.append_of_mem oneLine
    have missedFront := Comment.staysInLine rest front
    rw [← shape, missed, eq_comm, Option.map_eq_none_iff] at missedFront
    have missedStill := Comment.staysInLine (rest ++ behind) front
    rw [missedFront, Option.map_none, ← List.cons_append, ← List.append_assoc, ← shape]
      at missedStill
    exact missedStill
  · have whole : (stripComments (char :: others)).lastLine = stripComments (char :: others) :=
      Text.lastLine_of_not_mem fun member => oneLine ((stripComments_sublist _).subset member)
    apply (Comment.reads _).mpr
    rintro ⟨inside, shape, -⟩
    cases others with
    | nil =>
        obtain rfl : char = '%' := (List.cons.inj shape).1
        apply closed.noSign
        rw [whole]
        rfl
    | cons second part =>
        obtain ⟨rfl, rest⟩ := List.cons.inj shape
        obtain rfl : second = '%' := (List.cons.inj rest).1
        apply closed.noFence
        rw [whole]
        exact ⟨[], _, (stripComments_of_unclosed missed).symm⟩

/-- What follows a text that leaves none open is stripped by itself. -/
theorem stripComments_append
    {front : Text}
    (closed : (stripComments front).LeavesNoneOpen)
    (behind : Text) :
    stripComments (front ++ behind) = stripComments front ++ stripComments behind := by
  unfold stripComments at closed ⊢
  induction front using Comment.recogniser.scan_induction with
  | empty =>
      rfl
  | recognised text comment rest found inductionHypothesis =>
      have foundStill := Comment.recognise?_append found behind
      rw [Comment.recogniser.replace_of_recognised _ found] at closed
      rw [Comment.recogniser.replace_of_recognised _ foundStill,
        Comment.recogniser.replace_of_recognised _ found]
      exact inductionHypothesis closed
  | kept char others missed inductionHypothesis =>
      have missedStill := missed_append missed closed behind
      rw [Comment.recogniser.replace_cons_of_not_recognised _ missed] at closed
      rw [List.cons_append, Comment.recogniser.replace_cons_of_not_recognised _ missedStill,
        Comment.recogniser.replace_cons_of_not_recognised _ missed,
        inductionHypothesis closed.of_cons, List.cons_append]

/--
A comment behind a text that leaves none open is dropped as a whole, and what
its body holds makes no difference to what is published and reported.
-/
theorem rewriteText_hides
    (context : RewriteContext)
    {front : Text}
    {comment other : Comment}
    (closed : (stripComments front).LeavesNoneOpen)
    (isFenced : comment.IsFenced)
    (otherIsFenced : other.IsFenced)
    (behind : Text) :
    stripComments (front ++ (comment.source ++ behind)) =
        stripComments front ++ stripComments behind ∧
      rewriteText context (front ++ (comment.source ++ behind)) =
        rewriteText context (front ++ (other.source ++ behind)) := by
  have stripped {comment : Comment} (isFenced : comment.IsFenced) :
      stripComments (front ++ (comment.source ++ behind)) =
        stripComments front ++ stripComments behind := by
    rw [stripComments_append closed]
    congr 1
    exact Comment.recogniser.replace_of_recognised _ (isFenced.recognise?_source_append behind)
  refine ⟨stripped isFenced, ?_⟩
  rw [rewriteText, rewriteText, stripped isFenced, stripped otherIsFenced]

/-- A text with an open comment on an earlier line, and a closed one on its last. -/
def draftFront : Text :=
  "50%% open\n%%%done%% see ".toList

/-- A comment that holds what the later stages look for. -/
def draftComment : Comment :=
  ⟨"%to do: [[Plan]] [!NOTE] ".toList⟩

theorem rewriteText_hides_draftComment :
    (stripComments draftFront).LeavesNoneOpen ∧ draftComment.IsFenced ∧
      Comment.IsFenced ⟨[]⟩ ∧
      stripComments (draftFront ++ (draftComment.source ++ "%[[Plan]]%".toList)) =
        stripComments draftFront ++ stripComments "%[[Plan]]%".toList ∧
      rewriteText ⟨⟨[⟨"Plan.md".toList⟩]⟩, [], []⟩
          (draftFront ++ (draftComment.source ++ "%[[Plan]]%".toList)) =
        rewriteText ⟨⟨[⟨"Plan.md".toList⟩]⟩, [], []⟩
          (draftFront ++ (Comment.source ⟨[]⟩ ++ "%[[Plan]]%".toList)) := by
  have closed : (stripComments draftFront).LeavesNoneOpen := ⟨by decide, by decide⟩
  have isFenced : draftComment.IsFenced := ⟨by decide, by decide, by decide⟩
  have emptyIsFenced : Comment.IsFenced ⟨[]⟩ := ⟨by decide, by decide, by decide⟩
  exact ⟨closed, isFenced, emptyIsFenced,
    rewriteText_hides _ closed isFenced emptyIsFenced _⟩

end NotePublisher
