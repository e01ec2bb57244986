import NotePublisher.Proofs.Markup.Stages

namespace NotePublisher

/-!
# Rewriting twice

None of the stages of rewriting brings back what an earlier one has dealt with.
So the text that leaves the last stage is settled (`rewriteText_isSettled`),
and a settled text is left as it is (`rewriteText_of_isSettled`).
-/

/-- A text in which no stage finds anything to do. -/
structure Text.IsSettled (text : Text) : Prop where
  noComment : ¬ Comment.fences.HasSpan text
  noLink : ¬ WikiLink.fences.HasSpan text
  noDiagram : ¬ Diagram.fences.HasSpan text
  noMarker : ¬ NoteMarker.text <:+: text

/-- Nothing in the context holds what fences are made of. -/
structure RewriteContext.IsInert (context : RewriteContext) : Prop where
  urlBase : context.urlBase.IsInert
  scriptSource : context.scriptSource.IsInert
  paths : ∀ document ∈ context.index.documents, document.text.IsInert

/-- An address holds no word of a fence where nothing around it does. -/
theorem RewriteContext.IsInert.not_infix_url
    {context : RewriteContext}
    (inert : context.IsInert)
    {word : Text}
    (member : word ∈ Text.fenceWords)
    {document : DocumentPath}
    (indexed : document ∈ context.index.documents) :
    ¬ word <:+: document.url context.urlBase := by
  have apart : word ≠ [] ∧ '/' ∉ word ∧ ' ' ∉ word ∧ '-' ∉ word := by
    clear indexed
    revert word
    decide
  obtain ⟨word_ne_nil, noSlash, noBlank, noDash⟩ := apart
  refine DocumentPath.not_infix_url noSlash ?_ (inert.urlBase word member)
    (inert.paths document indexed word member)
  exact Text.isBarrier_of_disjoint word_ne_nil (by decide) (by simp [noBlank, noDash])

/-- A settled text is left as it is by every stage, in any context. -/
theorem rewriteText_of_isSettled
    (context : RewriteContext)
    {text : Text}
    (settled : text.IsSettled) :
    rewriteText context text = ⟨text, []⟩ := by
  have stripped : stripComments text = text :=
    Comment.reads.replace_eq_self _ settled.noComment
  have linked : resolveLinks context.index context.urlBase text = ⟨text, []⟩ := by
    have sameText : (resolveLinks context.index context.urlBase text).text = text := by
      rw [resolveLinks_text, WikiLink.reads.replace_eq_self _ settled.noLink]
    exact congrArg₂ LinkedText.mk sameText (resolveLinks_links_eq_nil settled.noLink)
  have embedded : embedDiagrams context.scriptSource text = text :=
    Diagram.reads.replace_eq_self _ settled.noDiagram
  rw [rewriteText, stripped, linked, embedded, expandCallouts_eq_self settled.noMarker]

/-- What leaves the last stage is settled. -/
theorem rewriteText_isSettled
    {context : RewriteContext}
    (inert : context.IsInert)
    {text : Text}
    (flat : ∀ link ∈ Piece.markedItems (WikiLink.recogniser.scan (stripComments text)),
      link.IsFlat) :
    (rewriteText context text).text.IsSettled := by
  let linked := (resolveLinks context.index context.urlBase (stripComments text)).text
  let embedded := embedDiagrams context.scriptSource linked
  change (expandCallouts embedded).IsSettled
  refine ⟨?_, ?_, ?_, expandCallouts_noMarker embedded⟩
  · intro hasSpan
    apply stripComments_noComment text
    apply hasSpan_of_resolveLinks fun document indexed => inert.not_infix_url (by decide) indexed
    apply hasSpan_of_embedDiagrams (by decide) inert.scriptSource (by decide)
    exact hasSpan_of_expandCallouts (by decide) (by decide) hasSpan
  · intro hasSpan
    apply resolveLinks_noLink flat fun document indexed =>
      inert.not_infix_url (by decide) indexed
    apply hasSpan_of_embedDiagrams (by decide) inert.scriptSource (by decide)
    exact hasSpan_of_expandCallouts (by decide) (by decide) hasSpan
  · intro hasSpan
    apply embedDiagrams_noDiagram (inert.scriptSource Diagram.closing (by decide)) linked
    exact hasSpan_of_expandCallouts (by decide) (by decide) hasSpan

/-- Rewriting a text that has been rewritten changes nothing and finds no link. -/
theorem rewriteText_idempotent
    {context : RewriteContext}
    (inert : context.IsInert)
    {text : Text}
    (flat : ∀ link ∈ Piece.markedItems (WikiLink.recogniser.scan (stripComments text)),
      link.IsFlat) :
    rewriteText context (rewriteText context text).text =
      ⟨(rewriteText context text).text, []⟩ :=
  rewriteText_of_isSettled context (rewriteText_isSettled inert flat)

/-- A context with one document, published below `/k`. -/
private def singleDocument : RewriteContext where
  index := ⟨[⟨Text.ofString "a: b/Plan.md"⟩]⟩
  urlBase := Text.ofString "/k"

/-- A text on which every stage has something to do, with fences left open on the way. -/
private def mixedText : Text :=
  Text.ofString "%%x%%% [[Plan|a]]] [[[Plan]\n```mermaid A]] %%\n``` [[No|x]] [!NOTE]"

theorem rewriteText_idempotent_mixed :
    singleDocument.IsInert ∧
      (∀ link ∈ Piece.markedItems (WikiLink.recogniser.scan (stripComments mixedText)),
        link.IsFlat) ∧
      rewriteText singleDocument (rewriteText singleDocument mixedText).text =
        ⟨(rewriteText singleDocument mixedText).text, []⟩ :=
  have inert : singleDocument.IsInert := ⟨by decide, by decide, by decide⟩
  have flat : ∀ link ∈ Piece.markedItems
      (WikiLink.recogniser.scan (stripComments mixedText)), link.IsFlat := by decide +kernel
  ⟨inert, flat, rewriteText_idempotent inert flat⟩

end NotePublisher
