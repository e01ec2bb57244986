import NotePublisher.Document.Rewriting
import NotePublisher.Proofs.Text.Locality

namespace NotePublisher

/-!
# The fences of comments, links and diagrams

Each recogniser of marked spans reads the fences named here.
-/

namespace Comment

/-- A comment stands on one line. -/
def fences : Fences where
  opening := fence
  closing := fence
  blocked := (· == '\n')
  opening_ne_nil := by simp [fence]
  closing_ne_nil := by simp [fence]
  opening_unblocked := by simp [fence]
  closing_unblocked := by simp [fence]

theorem reads : fences.Reads recogniser :=
  Fences.reads_of_recognise?_eq _ fun _ => rfl

theorem isolates : fences.Isolates recogniser := by
  apply Fences.isolates_of_recognise?_eq _ fun _ => rfl
  intro char _ body after rest
  rfl

theorem staysInLine : recogniser.StaysInLine :=
  isolates.staysInLine rfl

/-- A comment that is found at the front of a text is found however the text goes on. -/
theorem recognise?_append
    {text rest : Text}
    {comment : Comment}
    (found : recogniser.recognise? text = some (comment, rest))
    (behind : Text) :
    recogniser.recognise? (text ++ behind) = some (comment, rest ++ behind) :=
  fences.recognise?_append_of_eq _ (fun _ => rfl) (fun _ _ _ => rfl) found behind

end Comment

namespace WikiLink

/-- A link stands on one line. -/
def fences : Fences where
  opening := opening
  closing := closing
  blocked := Text.isLineBreak
  opening_ne_nil := by simp [opening]
  closing_ne_nil := by simp [closing]
  opening_unblocked := by simp [opening, Text.isLineBreak]
  closing_unblocked := by simp [closing, Text.isLineBreak]

theorem reads : fences.Reads recogniser :=
  Fences.reads_of_recognise?_eq _ fun _ => rfl

theorem isolates : fences.Isolates recogniser := by
  apply Fences.isolates_of_recognise?_eq _ fun _ => rfl
  intro char notInClosing body after rest
  cases after with
  | nil =>
      -- The third bracket that a link takes in would be a character of the fence.
      have noBracket : char ≠ ']' := by
        simpa [fences, closing] using notInClosing
      simp [noBracket]
  | cons third others =>
      by_cases bracket : third = ']'
      · subst bracket
        rfl
      · simp [bracket]

theorem staysInLine : recogniser.StaysInLine :=
  isolates.staysInLine rfl

/-- A recognised link holds no line break. -/
theorem source_unblocked
    {text rest : Text}
    {link : WikiLink}
    (found : recogniser.recognise? text = some (link, rest)) :
    ∀ char ∈ link.source, Text.isLineBreak char = false := by
  simp only [recogniser, recognise?, Option.bind_eq_some_iff,
    Option.map_eq_some_iff] at found
  obtain ⟨inside, starts, ⟨body, after⟩, fenced, link_eq⟩ := found
  have bodyUnblocked := Text.unblocked_of_splitAtFence? fenced
  have bodyShape : link.body = body := by
    split at link_eq
    · obtain ⟨rfl, rfl⟩ := Prod.mk.inj link_eq
      exact body_ofBody body true
    · obtain ⟨rfl, rfl⟩ := Prod.mk.inj link_eq
      exact body_ofBody body false
  intro char member
  simp only [source, bodyShape, List.mem_append] at member
  rcases member with ((inOpening | inBody) | inClosing) | inStray
  · exact fences.opening_unblocked char inOpening
  · exact bodyUnblocked char inBody
  · exact fences.closing_unblocked char inClosing
  · refine fences.closing_unblocked char ?_
    simp only [strayText] at inStray
    split at inStray
    · simpa [fences, closing] using inStray
    · simp at inStray

end WikiLink

namespace Diagram

/-- A diagram may go over any number of lines. -/
def fences : Fences where
  opening := opening
  closing := closing
  blocked := fun _ => false
  opening_ne_nil := by simp [opening]
  closing_ne_nil := by simp [closing]
  opening_unblocked := by simp
  closing_unblocked := by simp

theorem reads : fences.Reads recogniser :=
  Fences.reads_of_recognise?_eq _ fun _ => rfl

/-- The first closing fence behind the opening one is that behind the body. -/
def IsFenced (diagram : Diagram) : Prop :=
  ¬ closing <:+: diagram.body ++ closing.dropLast

theorem isFenced_of_recognised
    {text rest : Text}
    {diagram : Diagram}
    (found : recogniser.recognise? text = some (diagram, rest)) :
    diagram.IsFenced := by
  simp only [recogniser, recognise?, Option.bind_eq_some_iff,
    Option.map_eq_some_iff, Prod.mk.injEq] at found
  obtain ⟨inside, starts, ⟨body, after⟩, fenced, rfl, rfl⟩ := found
  exact Text.not_infix_dropLast_of_splitAtFence? fences.closing_ne_nil fenced

/-- The body of a recognised diagram holds no closing fence. -/
theorem IsFenced.not_closing_infix_body
    {diagram : Diagram}
    (isFenced : diagram.IsFenced) :
    ¬ closing <:+: diagram.body := by
  intro occurs
  exact isFenced (occurs.trans (List.prefix_append _ _).isInfix)

/-- A fenced diagram is found whatever stands behind it. -/
theorem IsFenced.recognise?_source_append
    {diagram : Diagram}
    (isFenced : diagram.IsFenced)
    (behind : Text) :
    recogniser.recognise? (diagram.source ++ behind) = some (diagram, behind) := by
  have starts : Text.dropStart? opening (diagram.source ++ behind) =
      some (diagram.body ++ (closing ++ behind)) :=
    Text.dropStart?_eq_some_iff.mpr (by simp [source])
  have fenced : Text.splitAtFence? closing (fun _ => false)
      (diagram.body ++ (closing ++ behind)) = some (diagram.body, behind) :=
    Text.splitAtFence?_of_absent fences.closing_ne_nil (fun _ _ => rfl) isFenced behind
  simp [recogniser, recognise?, starts, fenced]

/-- A diagram that is found at the front of a text is found however the text goes on. -/
theorem recognise?_append
    {text rest : Text}
    {diagram : Diagram}
    (found : recogniser.recognise? text = some (diagram, rest))
    (behind : Text) :
    recogniser.recognise? (text ++ behind) = some (diagram, rest ++ behind) :=
  fences.recognise?_append_of_eq _ (fun _ => rfl) (fun _ _ _ => rfl) found behind

end Diagram

end NotePublisher
