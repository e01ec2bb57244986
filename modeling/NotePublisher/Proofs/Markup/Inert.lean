import NotePublisher.Proofs.Markup.Fences

namespace NotePublisher

/-!
# Inert texts

An inert text holds none of the character pairs and runs that fences are made
of. The address of a document is as inert as its path and the base of
addresses are (`DocumentPath.not_infix_url`), and what takes the place of a
link or of a diagram's fences is a barrier to each pair that the texts it is
made of do not hold.
-/

namespace Text

/-- What the fences of links, comments and diagrams are made of. -/
def fenceWords : List Text :=
  [WikiLink.opening, WikiLink.closing, Comment.fence, Diagram.closing]

/-- The text holds nothing that fences are made of. -/
def IsInert (text : Text) : Prop :=
  ∀ word ∈ fenceWords, ¬ word <:+: text

instance decidableIsInert (text : Text) : Decidable (IsInert text) :=
  inferInstanceAs (Decidable (∀ word ∈ fenceWords, ¬ word <:+: text))

/-- A patch without any character of a word is a barrier to it. -/
theorem isBarrier_of_disjoint
    {word patch : Text}
    (word_ne_nil : word ≠ [])
    (patch_ne_nil : patch ≠ [])
    (disjoint : patch.all fun char => char ∉ word) :
    IsBarrier word patch := by
  have apart : ∀ char ∈ patch, char ∉ word := by simpa using disjoint
  refine ⟨?_, ?_, ?_, patch_ne_nil⟩
  · intro char first
    exact apart char (List.mem_of_mem_head? first)
  · intro char last
    exact apart char (List.mem_of_getLast? last)
  · -- The first character of the word would be in the patch.
    intro occurs
    obtain ⟨first, others, rfl⟩ := List.exists_cons_of_ne_nil word_ne_nil
    have member : first ∈ first :: others := by simp
    exact apart first (occurs.subset member) member

/-- The last segment of a path ends the path. -/
theorem lastSegment_suffix (text : Text) :
    lastSegment text <:+ text := by
  have whole : ['/'].intercalate (text.splitOn '/') = text :=
    List.intercalate_splitOn '/'
  have nonempty := List.splitOn_ne_nil '/' text
  have lastShape : lastSegment text = (text.splitOn '/').getLast nonempty := by
    rw [lastSegment, List.getLastD_eq_getLast?, List.getLast?_eq_getLast_of_ne_nil nonempty]
    rfl
  rw [lastShape]
  clear lastShape
  generalize text.splitOn '/' = pieces at whole nonempty
  subst whole
  induction pieces with
  | nil =>
      exact (nonempty rfl).elim
  | cons piece others inductionHypothesis =>
      cases others with
      | nil =>
          simp
      | cons second rest =>
          have ends : (second :: rest).getLast (by simp) <:+
              ['/'].intercalate (second :: rest) := by
            simpa using inductionHypothesis
          rw [List.getLast_cons (by simp), List.intercalate_cons_cons]
          exact ends.trans (List.suffix_append _ _)

end Text

namespace DocumentPath

/-- Publishing a text brings no word about that shares no character with the replacement. -/
theorem infix_of_infix_publishedText
    {word text : Text}
    (barrier : Text.IsBarrier word [' ', '-'])
    (occurs : word <:+: publishedText text) :
    word <:+: text := by
  have patched : Text.Patched [word] (fun _ => false) text (publishedText text) := by
    clear occurs
    induction text with
    | nil =>
        exact .nil
    | cons char rest inductionHypothesis =>
        rw [publishedText, List.flatMap_cons]
        by_cases colon : char = ':'
        · rw [publishedChar, if_pos colon]
          exact .patch [char] [' ', '-'] (by simp) (by simpa using barrier)
            inductionHypothesis
        · rw [publishedChar, if_neg colon]
          exact .keep char inductionHypothesis
  exact patched.infix_of_infix (by simp) occurs

/-- The address of a document holds a word only if its path or the base does. -/
theorem not_infix_url
    {word base : Text}
    {path : DocumentPath}
    (slash_not_mem : '/' ∉ word)
    (barrier : Text.IsBarrier word [' ', '-'])
    (notInBase : ¬ word <:+: base)
    (notInPath : ¬ word <:+: path.text) :
    ¬ word <:+: path.url base := by
  intro occurs
  rcases Text.infix_or_infix_of_infix_append_cons slash_not_mem occurs with
      inBase | inPath
  · have trimmed : Text.trimEnd '/' base <:+: base := by
      rw [Text.trimEnd, ← List.reverse_infix, List.reverse_reverse]
      exact (List.dropWhile_suffix _).isInfix
    exact notInBase (inBase.trans trimmed)
  · have named := infix_of_infix_publishedText barrier inPath
    cases stemmed : path.stem? with
    | none =>
        exact notInPath (by simpa [stemmed] using named)
    | some stem =>
        have shape := Text.dropEnd?_eq_some_iff.mp stemmed
        rw [stemmed, Option.getD_some] at named
        exact notInPath (shape ▸ named.trans (List.prefix_append _ _).isInfix)

end DocumentPath

namespace LinkOutcome

/-- Every target but the empty one is resolved to what it stands for. -/
theorem ofTarget_eq_resolved_iff
    {index : DocumentIndex}
    {urlBase target url : Text}
    {document : DocumentPath} :
    ofTarget index urlBase target = resolved document url ↔
      target ≠ [] ∧ index.resolve? target = some document ∧ url = document.url urlBase := by
  rw [ofTarget]
  cases target with
  | nil =>
      simp
  | cons char rest =>
      cases found : index.resolve? (char :: rest) with
      | none =>
          simp
      | some other =>
          simp only [List.isEmpty_cons, Bool.false_eq_true, if_false, resolved.injEq,
            Option.some.injEq, ne_eq, reduceCtorEq, not_false_eq_true, true_and]
          constructor
          · rintro ⟨rfl, rfl⟩
            exact ⟨rfl, rfl⟩
          · rintro ⟨rfl, rfl⟩
            exact ⟨rfl, rfl⟩

/-- A link is resolved to a document of the index that its target names. -/
theorem of_ofTarget_eq_resolved
    {index : DocumentIndex}
    {urlBase target url : Text}
    {document : DocumentPath}
    (resolvedTo : ofTarget index urlBase target = resolved document url) :
    document ∈ index.documents ∧ document.matchesTarget target = true ∧
      url = document.url urlBase := by
  obtain ⟨-, found, address⟩ := ofTarget_eq_resolved_iff.mp resolvedTo
  obtain ⟨member, matched⟩ := List.mem_filter.mp (List.mem_of_getLast? found)
  exact ⟨member, matched, address⟩

/-- A link is resolved to a document of the index, under that document's address. -/
theorem ofTarget_eq_unresolved_or_resolved
    (index : DocumentIndex)
    (urlBase target : Text) :
    ofTarget index urlBase target = unresolved ∨
      ∃ document ∈ index.documents,
        ofTarget index urlBase target = resolved document (document.url urlBase) := by
  cases outcome : ofTarget index urlBase target with
  | unresolved =>
      exact .inl rfl
  | resolved document url =>
      obtain ⟨member, _, rfl⟩ := of_ofTarget_eq_resolved outcome
      exact .inr ⟨document, member, rfl⟩

end LinkOutcome

namespace Diagram

/-- What a page holds in front of a diagram's body. -/
def lead (scriptSource : Text) : Text :=
  scriptTag scriptSource ++ "<div class=mermaid>".toList

/-- What a page holds behind a diagram's body. -/
def trail : Text :=
  "</div>".toList

/-- An embedding is its body between what leads in and what follows. -/
theorem embedding_eq
    (scriptSource : Text)
    (diagram : Diagram) :
    embedding scriptSource diagram = lead scriptSource ++ (diagram.body ++ trail) := by
  have regroup : ∀ tag opening body closing : Text,
      tag ++ (opening ++ body ++ closing) = tag ++ opening ++ (body ++ closing) := by
    intro tag opening body closing
    simp only [List.append_assoc]
  exact regroup _ _ _ _

/-- What stands in front of the script's address. -/
def leadStart : Text :=
  "<script src=".toList

/-- What stands between the script's address and the diagram. -/
def leadEnd : Text :=
  "></script><div class=mermaid>".toList

theorem lead_eq (scriptSource : Text) :
    lead scriptSource = leadStart ++ '\'' :: (scriptSource ++ '\'' :: leadEnd) := by
  have regroup : ∀ start source stop division : Text,
      start ++ source ++ stop ++ division = start ++ (source ++ (stop ++ division)) := by
    intro start source stop division
    simp only [List.append_assoc]
  have start : "<script src='".toList = leadStart ++ ['\''] := by decide
  have stop : "'></script>".toList ++ "<div class=mermaid>".toList = '\'' :: leadEnd := by
    decide
  calc
    lead scriptSource
        = "<script src='".toList ++
            (scriptSource ++ ("'></script>".toList ++ "<div class=mermaid>".toList)) :=
      regroup _ _ _ _
    _ = leadStart ++ '\'' :: (scriptSource ++ '\'' :: leadEnd) := by
      rw [start, stop, List.append_assoc]
      rfl

theorem head?_lead (scriptSource : Text) :
    (lead scriptSource).head? = some '<' := by
  have start : leadStart.head? = some '<' := by decide
  rw [lead_eq, List.head?_append, start]
  rfl

theorem getLast?_lead (scriptSource : Text) :
    (lead scriptSource).getLast? = some '>' := by
  have stop : leadEnd.getLast? = some '>' := by decide
  rw [lead_eq, List.getLast?_append, List.getLast?_cons, List.getLast?_append,
    List.getLast?_cons, stop]
  rfl

theorem getLast?_trail :
    trail.getLast? = some '>' := by
  decide

/-- The script tag holds a word only if the script's address does. -/
theorem not_infix_lead
    {word scriptSource : Text}
    (quote_not_mem : '\'' ∉ word)
    (notBefore : ¬ word <:+: leadStart)
    (notAfter : ¬ word <:+: leadEnd)
    (notInSource : ¬ word <:+: scriptSource) :
    ¬ word <:+: lead scriptSource := by
  rw [lead_eq]
  refine Text.not_infix_append_cons quote_not_mem notBefore ?_
  exact Text.not_infix_append_cons quote_not_mem notInSource notAfter

theorem head?_embedding
    (scriptSource : Text)
    (diagram : Diagram) :
    (embedding scriptSource diagram).head? = some '<' := by
  rw [embedding_eq, List.head?_append, head?_lead]
  rfl

theorem getLast?_embedding
    (scriptSource : Text)
    (diagram : Diagram) :
    (embedding scriptSource diagram).getLast? = some '>' := by
  rw [embedding_eq, List.getLast?_append, List.getLast?_append, getLast?_trail]
  rfl

/-- What takes the place of a diagram holds a fence only if the address or the body does. -/
theorem not_closing_infix_embedding
    {scriptSource : Text}
    {diagram : Diagram}
    (notInSource : ¬ closing <:+: scriptSource)
    (notInBody : ¬ closing <:+: diagram.body) :
    ¬ closing <:+: embedding scriptSource diagram := by
  have trailShape : trail = '<' :: trail.tail := by decide
  rw [embedding_eq, trailShape]
  refine Text.not_infix_append ?_ ?_ ?_
  · intro char last
    rw [getLast?_lead, Option.mem_some_iff] at last
    subst last
    decide
  · exact not_infix_lead (by decide) (by decide) (by decide) notInSource
  · exact Text.not_infix_append_cons (by decide) notInBody (by decide)

end Diagram

end NotePublisher
