import NotePublisher.Proofs.Document.HiddenComments
import NotePublisher.Proofs.Markup.Stages

namespace NotePublisher

/-!
# What stripping comments takes away

`Comment.IsRegion` says which stretches of a text a comment takes up, and
`Comment.StripsTo` what is left of a text when such stretches are cut out, each
the first behind the one before. `stripComments` cuts out these stretches and
nothing else, and leaves none (`stripComments_exact`).
-/

namespace Comment

/-- A stretch of one line from a fence to the first fence that stands behind it. -/
structure IsRegion (region : Text) : Prop where
  oneLine : '\n' ∉ region
  opens : fence <+: region
  closes : fence <:+ region
  size : 4 ≤ region.byteLength
  closesFirst : ∀ before after, region = before ++ (fence ++ after) →
    2 ≤ before.byteLength → after = []

private theorem byteLength_fence :
    fence.byteLength = 2 := by
  decide

/-- The first two bytes of what begins with a fence are the fence. -/
private theorem exists_eq_fence_append
    {front behind rest : Text}
    (shape : front ++ behind = fence ++ rest)
    (size : 2 ≤ front.byteLength) :
    ∃ between, front = fence ++ between := by
  rcases List.append_eq_append_iff.mp shape with ⟨part, fenceShape, -⟩ | ⟨part, frontShape, -⟩
  · -- The front ends within the fence, so it is all of it.
    have sizes := congrArg Text.byteLength fenceShape
    rw [Text.byteLength_append, byteLength_fence] at sizes
    obtain rfl : part = [] := Text.byteLength_eq_zero_iff.mp (by omega)
    exact ⟨[], by rw [fenceShape, List.append_nil, List.append_nil]⟩
  · exact ⟨part, frontShape⟩

/-- A fenced comment takes up a region. -/
theorem IsFenced.isRegion
    {comment : Comment}
    (isFenced : comment.IsFenced) :
    IsRegion comment.source where
  oneLine := by
    simp [source, fence, isFenced.oneLine]
  opens := ⟨comment.body ++ fence, by simp [source]⟩
  closes := ⟨fence ++ comment.body, rfl⟩
  size := by
    simp only [source, Text.byteLength_append, byteLength_fence]
    omega
  closesFirst before after shape size := by
    have whole : before ++ (fence ++ after) = fence ++ (comment.body ++ fence) := by
      rw [← shape, source, List.append_assoc]
    obtain ⟨between, rfl⟩ := exists_eq_fence_append whole size
    rw [List.append_assoc, List.append_cancel_left_eq] at whole
    rcases List.eq_nil_or_concat after with rfl | ⟨earlier, last, rfl⟩
    · rfl
    · -- The fence would end before the one behind the body does.
      have ends : (between ++ (fence ++ earlier)) ++ [last] =
          (comment.body ++ fence.dropLast) ++ ['%'] := by
        simpa [fence] using whole
      exact absurd ⟨between, earlier, by simpa using List.append_inj_left' ends rfl⟩
        isFenced.not_infix_dropLast

/-- Every region is taken up by a fenced comment. -/
theorem IsRegion.exists_comment
    {region : Text}
    (isRegion : IsRegion region) :
    ∃ comment : Comment, comment.IsFenced ∧ region = comment.source := by
  obtain ⟨rest, opens⟩ := isRegion.opens
  obtain ⟨front, closes⟩ := isRegion.closes
  have size : 2 ≤ Text.byteLength front := by
    have sizes := isRegion.size
    rw [← closes, Text.byteLength_append, byteLength_fence] at sizes
    omega
  obtain ⟨body, rfl⟩ := exists_eq_fence_append (closes.trans opens.symm) size
  refine ⟨⟨body⟩, ⟨?_, ?_, ?_⟩, closes.symm⟩
  · intro member
    exact isRegion.oneLine (closes ▸ by simp [member])
  · rintro ⟨before, after, rfl⟩
    have last := isRegion.closesFirst (fence ++ before) (after ++ fence)
      (by rw [← closes]; simp)
      (by rw [Text.byteLength_append, byteLength_fence]; omega)
    simp [fence] at last
  · intro ends
    obtain ⟨before, rfl⟩ := List.getLast?_eq_some_iff.mp ends
    have last := isRegion.closesFirst (fence ++ before) ['%']
      (by rw [← closes]; simp [fence])
      (by rw [Text.byteLength_append, byteLength_fence]; omega)
    cases last

/-- A comment is found where a region stands. -/
theorem recognise?_eq_none_iff
    {text : Text} :
    recogniser.recognise? text = none ↔ ∀ region, IsRegion region → ¬ region <+: text := by
  constructor
  · rintro missed region isRegion ⟨behind, rfl⟩
    obtain ⟨comment, isFenced, rfl⟩ := isRegion.exists_comment
    rw [isFenced.recognise?_source_append behind] at missed
    cases missed
  · intro absent
    cases found : recogniser.recognise? text with
    | none =>
        rfl
    | some item =>
        obtain ⟨comment, rest⟩ := item
        have whole := recogniser.eq_source_append found
        exact absurd ⟨rest, whole.symm⟩
          (absent comment.source (isFenced_of_recognised found).isRegion)

/--
What is left of a text when regions are cut out of it from left to right, each
as early as it can begin behind the one before.
-/
inductive StripsTo : Text → Text → Prop where
  | kept
      {text : Text}
      (absent : ∀ region, IsRegion region → ¬ region <:+: text) :
      StripsTo text text
  | cut
      {before region after rest : Text}
      (isRegion : IsRegion region)
      (first : ∀ earlier other, IsRegion other →
        earlier ++ other <+: before ++ (region ++ after) → before.length ≤ earlier.length)
      (later : StripsTo after rest) :
      StripsTo (before ++ (region ++ after)) (before ++ rest)

/-- A character at which no comment begins is kept. -/
private theorem StripsTo.cons
    {char : Char}
    {old new : Text}
    (missed : recogniser.recognise? (char :: old) = none)
    (strips : StripsTo old new) :
    StripsTo (char :: old) (char :: new) := by
  have notInFront := recognise?_eq_none_iff.mp missed
  cases strips with
  | kept absent =>
      refine .kept fun region isRegion occurs => ?_
      rcases List.infix_cons_iff.mp occurs with atFront | behind
      · exact notInFront region isRegion atFront
      · exact absent region isRegion behind
  | @cut before region after rest isRegion first later =>
      rw [← List.cons_append, ← List.cons_append]
      refine .cut isRegion (fun earlier other isOther atFront => ?_) later
      cases earlier with
      | nil =>
          exact absurd atFront (notInFront other isOther)
      | cons second others =>
          obtain ⟨-, behind⟩ := List.cons_prefix_cons.mp atFront
          exact Nat.succ_le_succ (first others other isOther behind)

/-- Stripping comments removes what lies between the earliest fences of each line. -/
theorem stripsTo_stripComments (text : Text) :
    StripsTo text (stripComments text) := by
  unfold stripComments
  induction text using recogniser.scan_induction with
  | empty =>
      refine .kept fun region isRegion occurs => ?_
      have size := isRegion.size
      rw [List.infix_nil.mp occurs] at size
      simp at size
  | recognised text comment rest found inductionHypothesis =>
      have isRegion := (isFenced_of_recognised found).isRegion
      have atOnce : StripsTo ([] ++ (comment.source ++ rest))
          ([] ++ recogniser.replace (fun _ => []) rest) :=
        .cut isRegion (fun _ _ _ _ => Nat.zero_le _) inductionHypothesis
      rw [recogniser.replace_of_recognised _ found, recogniser.eq_source_append found]
      exact atOnce
  | kept char others missed inductionHypothesis =>
      rw [recogniser.replace_cons_of_not_recognised _ missed]
      exact inductionHypothesis.cons missed

/-- Up to the first region a text is kept; the scan goes on behind the region. -/
private theorem stripComments_of_first
    {before region after : Text}
    (isRegion : IsRegion region)
    (first : ∀ earlier other, IsRegion other →
      earlier ++ other <+: before ++ (region ++ after) → before.length ≤ earlier.length) :
    stripComments (before ++ (region ++ after)) = before ++ stripComments after := by
  obtain ⟨comment, isFenced, rfl⟩ := isRegion.exists_comment
  rw [stripComments, recogniser.replace_append_of_missed_before]
  · congr 1
    exact recogniser.replace_of_recognised _ (isFenced.recognise?_source_append after)
  · rintro front char behind rfl
    refine recognise?_eq_none_iff.mpr fun other isOther atFront => ?_
    have notEarlier := first front other isOther (by simpa using atFront)
    rw [List.length_append, List.length_cons] at notEarlier
    omega

/-- A text without regions is left as it is. -/
private theorem stripComments_of_absent
    {text : Text}
    (absent : ∀ region, IsRegion region → ¬ region <:+: text) :
    stripComments text = text := by
  unfold stripComments
  induction text with
  | nil =>
      rfl
  | cons char others inductionHypothesis =>
      have missed : recogniser.recognise? (char :: others) = none :=
        recognise?_eq_none_iff.mpr fun region isRegion atFront =>
          absent region isRegion atFront.isInfix
      rw [recogniser.replace_cons_of_not_recognised _ missed, inductionHypothesis]
      intro region isRegion occurs
      exact absent region isRegion (occurs.trans (List.suffix_cons char others).isInfix)

/-- Cutting out regions has one result. -/
theorem stripsTo_iff
    {text rest : Text} :
    StripsTo text rest ↔ rest = stripComments text := by
  constructor
  · intro strips
    induction strips with
    | kept absent =>
        exact (stripComments_of_absent absent).symm
    | cut isRegion first _ inductionHypothesis =>
        rw [stripComments_of_first isRegion first, inductionHypothesis]
  · rintro rfl
    exact stripsTo_stripComments text

end Comment

/-- Stripping keeps the line feeds. -/
private theorem count_stripComments (text : Text) :
    (stripComments text).count '\n' = text.count '\n' := by
  refine Comment.recogniser.replace_induction (fun _ => [])
    (motive := fun old new => new.count '\n' = old.count '\n') rfl ?_ ?_ text
  · intro char old new same
    rw [List.count_cons, List.count_cons, same]
  · intro front comment rest found old new same
    have oneLine := (Comment.isFenced_of_recognised found).isRegion.oneLine
    rw [List.nil_append, List.count_append, same]
    exact (Nat.add_eq_right.mpr (List.count_eq_zero_of_not_mem oneLine)).symm

/-- Stripping a stripped text changes nothing. -/
private theorem stripComments_stripComments (text : Text) :
    stripComments (stripComments text) = stripComments text :=
  Comment.reads.replace_eq_self _ (stripComments_noComment text)

/--
Stripping cuts out the first region of a text, the first one behind it and so
on, and nothing else. It keeps the line feeds, between any two fences that are
left stands one, and doing it again changes nothing.
-/
theorem stripComments_exact (text : Text) :
    (∀ rest, Comment.StripsTo text rest ↔ rest = stripComments text) ∧
      (stripComments text).count '\n' = text.count '\n' ∧
      (∀ before between after,
        stripComments text =
            before ++ (Comment.fence ++ (between ++ (Comment.fence ++ after))) →
          '\n' ∈ between) ∧
      stripComments (stripComments text) = stripComments text := by
  refine ⟨fun _ => Comment.stripsTo_iff, count_stripComments text, ?_,
    stripComments_stripComments text⟩
  intro before between after shape
  by_contra oneLine
  refine stripComments_noComment text ⟨before, between ++ (Comment.fence ++ after), shape, ?_⟩
  refine ⟨between, after, rfl, fun char member => ?_⟩
  rw [Comment.fences, beq_eq_false_iff_ne]
  rintro rfl
  exact oneLine member

/-- Signs beside a fence, an opener left on an earlier line and two fences that meet. -/
example :
    stripComments "50%% off\n%%%a%%b%%c%% d%%".toList = "50%% off\nb d%%".toList := by
  decide

end NotePublisher
