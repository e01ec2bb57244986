import NotePublisher.Proofs.Markup.Inert
import NotePublisher.Proofs.Markup.Tiling
import NotePublisher.Proofs.Text.Substitution

namespace NotePublisher

/-!
# What each stage of rewriting leaves behind

Each stage leaves no span of its own kind. To the spans of earlier kinds it is
a patch: it puts barriers to their fences in the place of some parts of a text
and keeps all other characters.
-/

/-! ## Comments -/

/-- No comment is left. -/
theorem stripComments_noComment (text : Text) :
    ¬ Comment.fences.HasSpan (stripComments text) := by
  refine Fences.not_hasSpan_replace Comment.reads ?_ ?_
  · exact Fences.shields_of_doubled Comment.reads rfl _
  · intro comment _
    exact Fences.harmless_nil

/-! ## Links -/

namespace WikiLink

/-- What is written in the place of a link. -/
def rendering
    (index : DocumentIndex)
    (urlBase : Text)
    (link : WikiLink) :
    Text :=
  (LinkOutcome.ofTarget index urlBase link.target).render (.ofLink link)

/-- Neither target nor label holds a fence, and what is shown begins with no bracket. -/
structure IsFlat (link : WikiLink) : Prop where
  target : ¬ opening <:+: link.target
  label : ∀ label ∈ link.label, ¬ opening <:+: label
  display : (LinkText.ofLink link).display.head? ≠ some '['

instance decidableIsFlat (link : WikiLink) : Decidable link.IsFlat :=
  decidable_of_iff
    (¬ opening <:+: link.target ∧ (∀ label ∈ link.label, ¬ opening <:+: label) ∧
      (LinkText.ofLink link).display.head? ≠ some '[')
    ⟨fun ⟨target, label, display⟩ => ⟨target, label, display⟩,
      fun flat => ⟨flat.target, flat.label, flat.display⟩⟩

/-- What is shown of a link ends its body. -/
theorem display_suffix_body (link : WikiLink) :
    (LinkText.ofLink link).display <:+ link.body := by
  cases labelled : link.label with
  | none =>
      simpa [LinkText.display, LinkText.ofLink, body, labelled] using
        Text.lastSegment_suffix link.target
  | some label =>
      refine ⟨link.target ++ ['|'], ?_⟩
      simp [LinkText.display, LinkText.ofLink, body, labelled]

/-- The target begins a link's body. -/
theorem target_prefix_body (link : WikiLink) :
    link.target <+: link.body := by
  cases labelled : link.label with
  | none =>
      exact ⟨[], by simp [body, labelled]⟩
  | some label =>
      exact ⟨'|' :: label, by simp [body, labelled]⟩

/-- A link that is flat shows no opener. -/
theorem IsFlat.not_opening_infix_display
    {link : WikiLink}
    (flat : link.IsFlat) :
    ¬ opening <:+: (LinkText.ofLink link).display := by
  cases labelled : link.label with
  | none =>
      intro occurs
      refine flat.target (occurs.trans ?_)
      simpa [LinkText.display, LinkText.ofLink, labelled] using
        (Text.lastSegment_suffix link.target).isInfix
  | some label =>
      simpa [LinkText.display, LinkText.ofLink, labelled] using
        flat.label label (by simp [labelled])

end WikiLink

section Links

variable {index : DocumentIndex} {urlBase : Text}

/-- The text in which links are resolved is the text with each link written anew. -/
theorem resolveLinks_text
    (index : DocumentIndex)
    (urlBase text : Text) :
    (resolveLinks index urlBase text).text =
      WikiLink.recogniser.replace (WikiLink.rendering index urlBase) text := by
  rw [resolveLinks_eq]
  rfl

/-- Where there is no link none is reported. -/
theorem resolveLinks_links_eq_nil
    {text : Text}
    (noLink : ¬ WikiLink.fences.HasSpan text) :
    (resolveLinks index urlBase text).links = [] := by
  have unmarked := Fences.markedItems_scan_eq_nil WikiLink.reads noLink
  simp [resolveLinks_links, unmarked]

/-- A rendered link is one of two shapes, of which the first holds an address of the index. -/
theorem rendering_cases
    (index : DocumentIndex)
    (urlBase : Text)
    (link : WikiLink) :
    WikiLink.rendering index urlBase link = ['*', '*'] ++ (link.target ++ ['*', '*']) ∨
      ∃ document ∈ index.documents,
        WikiLink.rendering index urlBase link =
          '[' :: ((LinkText.ofLink link).display ++
            ']' :: '(' :: (document.url urlBase ++ [')'])) := by
  rcases LinkOutcome.ofTarget_eq_unresolved_or_resolved index urlBase link.target with
      unresolved | ⟨document, member, resolved⟩
  · left
    rw [WikiLink.rendering, unresolved]
    simp [LinkOutcome.render, LinkText.ofLink]
  · right
    refine ⟨document, member, ?_⟩
    rw [WikiLink.rendering, resolved]
    simp [LinkOutcome.render]

/-- What is written in the place of a link begins with a star or a bracket. -/
theorem head_rendering
    (index : DocumentIndex)
    (urlBase : Text)
    (link : WikiLink) :
    (WikiLink.rendering index urlBase link).head? = some '*' ∨
      (WikiLink.rendering index urlBase link).head? = some '[' := by
  rcases rendering_cases index urlBase link with
      unresolved | ⟨document, _, resolved⟩
  · exact .inl (by rw [unresolved]; rfl)
  · exact .inr (by rw [resolved]; rfl)

/-- What is written in the place of a link ends in a star or a parenthesis. -/
theorem last_rendering
    (index : DocumentIndex)
    (urlBase : Text)
    (link : WikiLink) :
    (WikiLink.rendering index urlBase link).getLast? = some '*' ∨
      (WikiLink.rendering index urlBase link).getLast? = some ')' := by
  rcases rendering_cases index urlBase link with
      unresolved | ⟨document, _, resolved⟩
  · exact .inl (by simp [unresolved, List.getLast?_append, List.getLast?_cons])
  · exact .inr (by simp [resolved, List.getLast?_append, List.getLast?_cons])

/-- The end of a link with an address does not join the fence of a comment. -/
private theorem isBarrier_url
    {url : Text}
    (noFence : ¬ Comment.fence <:+: url) :
    Text.IsBarrier Comment.fence (']' :: '(' :: (url ++ [')'])) where
  head_not_mem := by simp [Comment.fence]
  last_not_mem := by
    intro char member
    have last : char = ')' := by
      simpa [List.getLast?_cons, eq_comm] using member
    simp [last, Comment.fence]
  absent := by
    refine Text.not_infix_append_cons
      (show '(' ∉ Comment.fence by decide)
      (show ¬ Comment.fence <:+: [']'] by decide) ?_
    exact Text.not_infix_append_cons (by decide) noFence (by decide)
  patch_ne_nil := by simp

/-- Replacing links patches what comments are made of. -/
private theorem resolveLinks_patched
    (noFence : ∀ document ∈ index.documents, ¬ Comment.fence <:+: document.url urlBase)
    (text : Text) :
    Text.Patched [Comment.fence] Comment.fences.blocked text
      (resolveLinks index urlBase text).text := by
  rw [resolveLinks_text]
  refine WikiLink.recogniser.patched_replace _ ?_ text
  intro front link rest found old new patched
  change Text.Patched _ _ (link.source ++ old) (WikiLink.rendering index urlBase link ++ new)
  have unblocked : ∀ char ∈ link.source, Comment.fences.blocked char = false := by
    intro char member
    have notBreak := WikiLink.source_unblocked found char member
    simp only [Text.isLineBreak, Bool.or_eq_false_iff] at notBreak
    simpa [Comment.fences] using notBreak.1
  rcases rendering_cases index urlBase link with
      unresolved | ⟨document, member, resolved⟩
  · -- The target is kept between two pairs of stars.
    obtain ⟨behind, bodyShape⟩ := link.target_prefix_body
    have sourceShape : link.source =
        WikiLink.opening ++ (link.target ++ (behind ++ WikiLink.closing ++ link.strayText)) := by
      simp [WikiLink.source, ← bodyShape]
    have renderedShape : WikiLink.rendering index urlBase link =
        ['*', '*'] ++ (link.target ++ ['*', '*']) := by
      simp [unresolved]
    rw [sourceShape] at unblocked
    rw [sourceShape, renderedShape]
    apply Text.Patched.around link.target ?_ ?_ ?_ ?_ patched
    · exact fun char member => unblocked char (List.mem_append_left _ member)
    · exact fun char member =>
        unblocked char (List.mem_append_right _ (List.mem_append_right _ member))
    · simpa using Text.isBarrier_of_disjoint (by decide) (by decide) (by decide)
    · simpa using Text.isBarrier_of_disjoint (by decide) (by decide) (by decide)
  · -- What is shown is kept between a bracket and the address.
    obtain ⟨before, bodyShape⟩ := link.display_suffix_body
    have sourceShape : link.source =
        (WikiLink.opening ++ before) ++
          ((LinkText.ofLink link).display ++ (WikiLink.closing ++ link.strayText)) := by
      simp [WikiLink.source, ← bodyShape]
    have renderedShape : WikiLink.rendering index urlBase link =
        ['['] ++ ((LinkText.ofLink link).display ++
          (']' :: '(' :: (document.url urlBase ++ [')']))) := by
      simp [resolved]
    rw [sourceShape] at unblocked
    rw [sourceShape, renderedShape]
    apply Text.Patched.around (LinkText.ofLink link).display ?_ ?_ ?_ ?_ patched
    · exact fun char member => unblocked char (List.mem_append_left _ member)
    · exact fun char member =>
        unblocked char (List.mem_append_right _ (List.mem_append_right _ member))
    · simpa using Text.isBarrier_of_disjoint (by decide) (by decide) (by decide)
    · simpa using isBarrier_url (noFence document member)

/-- Replacing links brings no comment about. -/
theorem hasSpan_of_resolveLinks
    (noFence : ∀ document ∈ index.documents, ¬ Comment.fence <:+: document.url urlBase)
    {text : Text}
    (hasSpan : Comment.fences.HasSpan (resolveLinks index urlBase text).text) :
    Comment.fences.HasSpan text := by
  have member : Comment.fence ∈ [Comment.fence] := by simp
  exact Fences.hasSpan_of_patched member member (resolveLinks_patched noFence text) hasSpan

/-- A flat link is rendered without an opening fence, and ends in no bracket. -/
theorem harmless_rendering
    {link : WikiLink}
    (flat : link.IsFlat)
    (noFence : ∀ document ∈ index.documents,
      ¬ WikiLink.opening <:+: document.url urlBase) :
    WikiLink.fences.Harmless (WikiLink.rendering index urlBase link) := by
  rcases rendering_cases index urlBase link with
      unresolved | ⟨document, member, resolved⟩
  · rw [unresolved]
    refine Fences.harmless_of_ends ?_ ?_
    · refine Text.not_infix_append_cons (show '*' ∉ WikiLink.opening by decide)
        (show ¬ WikiLink.opening <:+: ['*'] by decide) ?_
      exact Text.not_infix_append_cons (by decide) flat.target (by decide)
    · intro char last
      have star : char = '*' := by
        simpa [List.getLast?_append, List.getLast?_cons, eq_comm] using last
      simp [star, WikiLink.fences, WikiLink.opening]
  · rw [resolved]
    refine Fences.harmless_of_ends ?_ ?_
    · refine Text.not_infix_append_cons (show ']' ∉ WikiLink.opening by decide)
        (show ¬ WikiLink.opening <:+: '[' :: (LinkText.ofLink link).display from ?_) ?_
      · intro shown
        rcases List.infix_cons_iff.mp shown with ⟨after, shape⟩ | inside
        · refine flat.display ?_
          simp only [WikiLink.opening, List.cons_append, List.cons.injEq,
            true_and] at shape
          simp [← shape]
        · exact flat.not_opening_infix_display inside
      · refine Text.not_infix_append_cons (show '(' ∉ WikiLink.opening by decide)
          (show ¬ WikiLink.opening <:+: [] by decide) ?_
        exact Text.not_infix_append_cons (by decide) (noFence document member) (by decide)
    · intro char last
      have bracket : char = ')' := by
        simpa [List.getLast?_append, List.getLast?_cons, eq_comm] using last
      simp [bracket, WikiLink.fences, WikiLink.opening]

/-- Flat links leave no link behind. -/
theorem resolveLinks_noLink
    {text : Text}
    (flat : ∀ link ∈ Piece.markedItems (WikiLink.recogniser.scan text), link.IsFlat)
    (noFence : ∀ document ∈ index.documents,
      ¬ WikiLink.opening <:+: document.url urlBase) :
    ¬ WikiLink.fences.HasSpan (resolveLinks index urlBase text).text := by
  rw [resolveLinks_text]
  refine Fences.not_hasSpan_replace WikiLink.reads ?_ ?_
  · exact Fences.shields_of_doubled WikiLink.reads rfl _
  · intro link member
    exact harmless_rendering (flat link member) noFence

end Links

/-! ## Diagrams -/

section Diagrams

variable {scriptSource : Text}

/-- The text in which diagrams are embedded is the text with each diagram written anew. -/
theorem embedDiagrams_eq
    (scriptSource text : Text) :
    embedDiagrams scriptSource text =
      Diagram.recogniser.replace (Diagram.embedding scriptSource) text :=
  rfl

/-- Making diagrams embeddable puts other texts in the place of fences. -/
theorem embedDiagrams_substituted
    (scriptSource text : Text) :
    Text.Substituted [Diagram.opening, Diagram.closing] text
      (embedDiagrams scriptSource text) := by
  apply Diagram.recogniser.replace_induction _ .nil .keep
  intro front diagram rest _ old new substituted
  have sourceShape : Diagram.recogniser.source diagram ++ old =
      Diagram.opening ++ (diagram.body ++ (Diagram.closing ++ old)) := by
    simp [Diagram.recogniser, Diagram.source]
  rw [sourceShape, Diagram.embedding_eq]
  simp only [List.append_assoc]
  have behind := substituted.replace (by simp : Diagram.closing ∈ _) Diagram.trail
  exact (behind.keepAll diagram.body).replace (by simp) (Diagram.lead scriptSource)

-- The pairs that links and comments are fenced with.
private def pairWords : List Text :=
  [WikiLink.opening, WikiLink.closing, Comment.fence]

/-- What leads a diagram in does not join a pair that its script source does not hold. -/
private theorem isBarrier_lead
    {word : Text}
    (pair : word ∈ pairWords)
    (notInSource : ¬ word <:+: scriptSource) :
    Text.IsBarrier word (Diagram.lead scriptSource) := by
  have angles : '<' ∉ word ∧ '>' ∉ word ∧ '\'' ∉ word ∧
      ¬ word <:+: Diagram.leadStart ∧ ¬ word <:+: Diagram.leadEnd := by
    clear notInSource
    revert word
    decide
  obtain ⟨noAngle, noEndAngle, noQuote, notBefore, notAfter⟩ := angles
  refine ⟨?_, ?_, ?_, ?_⟩
  · intro char first
    rw [Diagram.head?_lead, Option.mem_some_iff] at first
    exact first ▸ noAngle
  · intro char last
    rw [Diagram.getLast?_lead, Option.mem_some_iff] at last
    exact last ▸ noEndAngle
  · exact Diagram.not_infix_lead noQuote notBefore notAfter notInSource
  · intro empty
    have first := Diagram.head?_lead scriptSource
    rw [empty] at first
    simp at first

/-- What follows a diagram does not join a pair. -/
private theorem isBarrier_trail
    {word : Text}
    (pair : word ∈ pairWords) :
    Text.IsBarrier word Diagram.trail := by
  have apart : word ≠ [] ∧ Diagram.trail.all fun char => char ∉ word := by
    revert word
    decide
  exact Text.isBarrier_of_disjoint apart.1 (by decide) apart.2

/-- Making diagrams embeddable brings no comment and no link about. -/
theorem hasSpan_of_embedDiagrams
    {fences : Fences}
    (pairs : [fences.opening, fences.closing] ⊆
      [WikiLink.opening, WikiLink.closing, Comment.fence])
    (inert : scriptSource.IsInert)
    (unblocked : Diagram.opening.any fences.blocked = false)
    {text : Text}
    (hasSpan : fences.HasSpan (embedDiagrams scriptSource text)) :
    fences.HasSpan text := by
  have openingUnblocked : ∀ char ∈ Diagram.opening, fences.blocked char = false := by
    simpa using unblocked
  have notInSource : ∀ word ∈ pairWords, ¬ word <:+: scriptSource := fun word member =>
    inert word (List.mem_append_left [Diagram.closing] member)
  have patched : Text.Patched [fences.opening, fences.closing] fences.blocked text
      (embedDiagrams scriptSource text) := by
    refine Diagram.recogniser.patched_replace _ ?_ text
    intro front diagram rest _ old new patched
    have sourceShape : Diagram.recogniser.source diagram =
        Diagram.opening ++ (diagram.body ++ Diagram.closing) := by
      simp [Diagram.recogniser, Diagram.source]
    rw [sourceShape, Diagram.embedding_eq]
    apply Text.Patched.around diagram.body openingUnblocked ?_ ?_ ?_ patched
    · exact fun char member => openingUnblocked char (List.mem_append_left _ member)
    · exact fun word member =>
        isBarrier_lead (pairs member) (notInSource word (pairs member))
    · exact fun word member => isBarrier_trail (pairs member)
  exact Fences.hasSpan_of_patched (by simp) (by simp) patched hasSpan

/-- With an inert script address no diagram is left. -/
theorem embedDiagrams_noDiagram
    (notInSource : ¬ Diagram.closing <:+: scriptSource)
    (text : Text) :
    ¬ Diagram.fences.HasSpan (embedDiagrams scriptSource text) := by
  rw [embedDiagrams_eq]
  refine Fences.not_hasSpan_replace Diagram.reads ?_ ?_
  · -- What is written begins with an angle, which no fence holds.
    intro char rest diagram after _ _ _
    obtain ⟨others, shape⟩ :=
      List.head?_eq_some_iff.mp (Diagram.head?_embedding scriptSource diagram)
    exact ⟨'<', others, shape, by decide⟩
  · intro diagram member
    obtain ⟨front, rest, found⟩ := Diagram.recogniser.exists_recognised_of_mem member
    have notInBody := (Diagram.isFenced_of_recognised found).not_closing_infix_body
    refine Fences.harmless_of_ends ?_ ?_
    · intro occurs
      have fenced : Diagram.closing <:+: Diagram.opening :=
        (List.prefix_append _ _).isInfix
      exact Diagram.not_closing_infix_embedding notInSource notInBody
        (fenced.trans occurs)
    · intro char last
      rw [Diagram.getLast?_embedding, Option.mem_some_iff] at last
      subst last
      decide

end Diagrams

/-! ## Callouts -/

section Callouts

/-- A marker is found where one stands. -/
theorem NoteMarker.recognise?_eq_none_iff
    {text : Text} :
    NoteMarker.recogniser.recognise? text = none ↔
      ¬ ∃ rest, text = NoteMarker.text ++ rest := by
  simp only [NoteMarker.recogniser, ← Text.dropStart?_eq_some_iff]
  cases Text.dropStart? NoteMarker.text text <;> simp

/-- Expanding callouts puts other texts in the place of markers. -/
theorem expandCallouts_substituted (text : Text) :
    Text.Substituted [NoteMarker.text] text (expandCallouts text) := by
  apply NoteMarker.recogniser.replace_induction _ .nil .keep
  intro front marker rest _ old new substituted
  exact substituted.replace (List.mem_singleton_self NoteMarker.text) NoteMarker.glyph

/-- No marker begins with a character that is not of it. -/
theorem NoteMarker.missed_of_not_mem
    {char : Char}
    (char_not_mem : char ∉ text)
    (rest : Text) :
    recogniser.recognise? (char :: rest) = none := by
  apply recognise?_eq_none_iff.mpr
  rintro ⟨after, shape⟩
  exact Text.cons_ne_append (by decide) char_not_mem rest after shape

/-- No marker reaches into a text that begins with a character that is not of it. -/
theorem NoteMarker.stopsAt_cons
    {char : Char}
    (char_not_mem : char ∉ text)
    (rest : Text) :
    recogniser.StopsAt (char :: rest) := by
  intro front
  simp only [recogniser, Text.dropStart?_append_cons char_not_mem]
  cases Text.dropStart? text front <;> rfl

/-- A text that shares no character with the marker is kept in front of any other. -/
theorem expandCallouts_append_of_apart
    {front : Text}
    (apart : front.all fun char => char ∉ NoteMarker.text)
    (behind : Text) :
    expandCallouts (front ++ behind) = front ++ expandCallouts behind := by
  apply NoteMarker.recogniser.replace_append_of_missed
  intro char member
  apply NoteMarker.missed_of_not_mem
  exact of_decide_eq_true (List.all_eq_true.mp apart char member)

/-- In front of a tag markers are expanded by themselves. -/
theorem expandCallouts_append_tag
    (front : Text)
    {behind : Text}
    (tag : behind.head? = some '<') :
    expandCallouts (front ++ behind) = expandCallouts front ++ expandCallouts behind := by
  obtain ⟨rest, rfl⟩ := List.head?_eq_some_iff.mp tag
  exact (NoteMarker.stopsAt_cons (by decide) rest).replace_append _ front

/-- A text without markers is left alone. -/
theorem expandCallouts_eq_self
    {text : Text}
    (noMarker : ¬ NoteMarker.text <:+: text) :
    expandCallouts text = text := by
  refine NoteMarker.recogniser.replace_eq_self_of_markedItems_eq_nil _ ?_
  induction text with
  | nil =>
      rfl
  | cons char rest inductionHypothesis =>
      rw [List.infix_cons_iff, not_or] at noMarker
      have missed : NoteMarker.recogniser.recognise? (char :: rest) = none := by
        rw [NoteMarker.recognise?_eq_none_iff]
        rintro ⟨behind, shape⟩
        exact noMarker.1 ⟨behind, shape.symm⟩
      rw [NoteMarker.recogniser.markedItems_scan_cons_of_not_recognised missed]
      exact inductionHypothesis noMarker.2

/-- Expanding callouts brings no span about whose fences do without the glyph. -/
theorem hasSpan_of_expandCallouts
    {fences : Fences}
    (disjoint : NoteMarker.glyph.all fun char => char ∉ fences.opening ++ fences.closing)
    (unblocked : NoteMarker.text.any fences.blocked = false)
    {text : Text}
    (hasSpan : fences.HasSpan (expandCallouts text)) :
    fences.HasSpan text := by
  have barrier : ∀ word ∈ [fences.opening, fences.closing],
      Text.IsBarrier word NoteMarker.glyph := by
    have apart : ∀ char ∈ NoteMarker.glyph, char ∉ fences.opening ∧ char ∉ fences.closing := by
      simpa using disjoint
    have opening : Text.IsBarrier fences.opening NoteMarker.glyph :=
      Text.isBarrier_of_disjoint fences.opening_ne_nil (by decide)
        (by simpa using fun char member => (apart char member).1)
    have closing : Text.IsBarrier fences.closing NoteMarker.glyph :=
      Text.isBarrier_of_disjoint fences.closing_ne_nil (by decide)
        (by simpa using fun char member => (apart char member).2)
    simpa using ⟨opening, closing⟩
  have patched : Text.Patched [fences.opening, fences.closing] fences.blocked text
      (expandCallouts text) := by
    refine NoteMarker.recogniser.patched_replace _ ?_ text
    intro front marker rest _ old new patched
    exact .patch NoteMarker.text NoteMarker.glyph (by simpa using unblocked) barrier patched
  exact Fences.hasSpan_of_patched (by simp) (by simp) patched hasSpan

/-- No marker is left. -/
theorem expandCallouts_noMarker (text : Text) :
    ¬ NoteMarker.text <:+: expandCallouts text := by
  have shields : NoteMarker.recogniser.Shields (fun _ => NoteMarker.glyph)
      NoteMarker.text := by
    intro char rest marker after _ _ _
    exact ⟨'📝', [], rfl, by decide⟩
  induction text using NoteMarker.recogniser.scan_induction with
  | empty =>
      decide
  | recognised text marker rest found inductionHypothesis =>
      rw [expandCallouts, NoteMarker.recogniser.replace_of_recognised _ found]
      refine Text.not_infix_append ?_ (by decide) inductionHypothesis
      simp [NoteMarker.glyph, NoteMarker.text]
  | kept char others missed inductionHypothesis =>
      rw [expandCallouts, NoteMarker.recogniser.replace_cons_of_not_recognised _ missed,
        List.infix_cons_iff, not_or]
      refine ⟨?_, inductionHypothesis⟩
      rintro ⟨after, shape⟩
      obtain ⟨rfl, tailShape⟩ := List.cons.inj shape
      obtain ⟨behind, rfl, _⟩ :=
        NoteMarker.recogniser.eq_append_of_replace_eq_append _ shields
          (List.subset_cons_self _ _) (by decide) missed tailShape.symm
      exact NoteMarker.recognise?_eq_none_iff.mp missed ⟨behind, rfl⟩

end Callouts

end NotePublisher
