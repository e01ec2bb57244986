import NotePublisher.Proofs.Markup.Stages

namespace NotePublisher

/-!
# Rendered links after the later stages

The stages behind the links look for diagrams and note markers without knowing
where links were written. A rendered link that holds no marker and no fence is
left as it is, wherever it stands, also within a diagram; what the user shows
of a link may form a marker or a fence, and then the link is cut
(`renderings_occurInOrder`).
-/

/-- The links of a document, in order. -/
def linksOf (text : Text) : List WikiLink :=
  Piece.markedItems (WikiLink.recogniser.scan (stripComments text))

namespace RewriteContext

/-- What is written in the place of the links of a document, in order. -/
def renderings
    (context : RewriteContext)
    (text : Text) :
    List Text :=
  (linksOf text).map (WikiLink.rendering context.index context.urlBase)

/-- A document after its links have been replaced, as the later stages find it. -/
def linkedText
    (context : RewriteContext)
    (text : Text) :
    Text :=
  (resolveLinks context.index context.urlBase (stripComments text)).text

/-- The links are recorded, and rendered in the linked text, in the order of the document. -/
theorem links_rewriteText
    (context : RewriteContext)
    (text : Text) :
    (rewriteText context text).links =
      (linksOf text).map fun link =>
        LinkRecord.ofLink context.index context.urlBase (.ofLink link) :=
  resolveLinks_links context.index context.urlBase (stripComments text)

/-- The text of a document is what the stages make of it, one after the other. -/
theorem text_rewriteText
    (context : RewriteContext)
    (text : Text) :
    (rewriteText context text).text =
      expandCallouts (embedDiagrams context.scriptSource (context.linkedText text)) :=
  rfl

/-- The renderings occur in the text in which links are resolved. -/
theorem renderings_occurInOrder_linkedText
    (context : RewriteContext)
    (text : Text) :
    Text.OccurInOrder (context.renderings text) (context.linkedText text) := by
  rw [linkedText, resolveLinks_text]
  exact Text.OccurInOrder.renderAll _ _

end RewriteContext

/--
The later stages find nothing in a rendered link: no marker and, if the linked
text has a diagram at all, no fence.
-/
structure Text.IsSpared (linked rendered : Text) : Prop where
  noMarker : ¬ NoteMarker.text <:+: rendered
  noFence : Piece.markedItems (Diagram.recogniser.scan linked) = [] ∨
    ¬ Diagram.closing <:+: rendered

instance Text.decidableIsSpared (linked rendered : Text) : Decidable (IsSpared linked rendered) :=
  decidable_of_iff
    (¬ NoteMarker.text <:+: rendered ∧
      (Piece.markedItems (Diagram.recogniser.scan linked) = [] ∨
        ¬ Diagram.closing <:+: rendered))
    ⟨fun ⟨noMarker, noFence⟩ => ⟨noMarker, noFence⟩,
      fun spared => ⟨spared.noMarker, spared.noFence⟩⟩

/-- Words that a rendered link neither holds nor begins or ends within are substituted around it. -/
theorem isSolid_rendering
    {index : DocumentIndex}
    {urlBase : Text}
    {link : WikiLink}
    {words : List Text}
    (apart : ∀ word ∈ words, ¬ ('*' ∈ word ∨ ')' ∈ word ∨ '[' ∈ word.tail))
    (absent : ∀ word ∈ words, ¬ word <:+: WikiLink.rendering index urlBase link) :
    Text.IsSolid words (WikiLink.rendering index urlBase link) where
  part_ne_nil := by
    intro empty
    rcases head_rendering index urlBase link with star | bracket
    · simp [empty] at star
    · simp [empty] at bracket
  head_not_mem := by
    intro char first word isWord member
    apply apart word isWord
    rcases head_rendering index urlBase link with star | bracket
    · obtain rfl : char = '*' := by simpa [star, eq_comm] using first
      exact .inl (List.mem_of_mem_tail member)
    · obtain rfl : char = '[' := by simpa [bracket, eq_comm] using first
      exact .inr (.inr member)
  last_not_mem := by
    intro char last word isWord member
    apply apart word isWord
    rcases last_rendering index urlBase link with star | parenthesis
    · obtain rfl : char = '*' := by simpa [star, eq_comm] using last
      exact .inl member
    · obtain rfl : char = ')' := by simpa [parenthesis, eq_comm] using last
      exact .inr (.inl member)
  absent := absent

/-- A diagram opens with what it is closed with. -/
theorem Diagram.closing_prefix_opening :
    closing <+: opening :=
  List.prefix_append _ _

/-- Rendered links without a fence are left as they are when diagrams are embedded. -/
theorem occurInOrder_embedDiagrams
    {index : DocumentIndex}
    {urlBase scriptSource linked : Text}
    {links : List WikiLink}
    (noFence : ∀ link ∈ links, ¬ Diagram.closing <:+: WikiLink.rendering index urlBase link)
    (occur : Text.OccurInOrder (links.map (WikiLink.rendering index urlBase)) linked) :
    Text.OccurInOrder (links.map (WikiLink.rendering index urlBase))
      (embedDiagrams scriptSource linked) := by
  apply occur.substituted _ (embedDiagrams_substituted scriptSource linked)
  simp only [List.mem_map, forall_exists_index, and_imp, forall_apply_eq_imp_iff₂]
  intro link member
  apply isSolid_rendering (by decide)
  simp only [List.mem_cons, List.not_mem_nil, or_false, forall_eq_or_imp, forall_eq]
  refine ⟨?_, noFence link member⟩
  intro occurs
  exact noFence link member (Diagram.closing_prefix_opening.isInfix.trans occurs)

/-- Rendered links without a marker are left as they are when callouts are expanded. -/
theorem occurInOrder_expandCallouts
    {index : DocumentIndex}
    {urlBase embedded : Text}
    {links : List WikiLink}
    (noMarker : ∀ link ∈ links, ¬ NoteMarker.text <:+: WikiLink.rendering index urlBase link)
    (occur : Text.OccurInOrder (links.map (WikiLink.rendering index urlBase)) embedded) :
    Text.OccurInOrder (links.map (WikiLink.rendering index urlBase))
      (expandCallouts embedded) := by
  apply occur.substituted _ (expandCallouts_substituted embedded)
  simp only [List.mem_map, forall_exists_index, and_imp, forall_apply_eq_imp_iff₂]
  intro link member
  apply isSolid_rendering (by decide)
  simpa using noMarker link member

/-- Spared renderings are left as they are by both later stages. -/
theorem occurInOrder_laterStages
    {index : DocumentIndex}
    {urlBase scriptSource linked : Text}
    {links : List WikiLink}
    (spared : ∀ link ∈ links, linked.IsSpared (WikiLink.rendering index urlBase link))
    (occur : Text.OccurInOrder (links.map (WikiLink.rendering index urlBase)) linked) :
    Text.OccurInOrder (links.map (WikiLink.rendering index urlBase))
      (expandCallouts (embedDiagrams scriptSource linked)) := by
  apply occurInOrder_expandCallouts fun link member => (spared link member).noMarker
  by_cases noDiagram : Piece.markedItems (Diagram.recogniser.scan linked) = []
  · rw [embedDiagrams_eq, Diagram.recogniser.replace_eq_self_of_markedItems_eq_nil _ noDiagram]
    exact occur
  · apply occurInOrder_embedDiagrams _ occur
    intro link member
    exact (spared link member).noFence.resolve_left noDiagram

/--
The spared renderings of a document's links occur in the rewritten text in the
order of the records, without overlapping. A rendering with a note marker does
not occur in it.
-/
theorem renderings_occurInOrder
    (context : RewriteContext)
    (text : Text) :
    (rewriteText context text).links =
        (linksOf text).map (fun link =>
          LinkRecord.ofLink context.index context.urlBase (.ofLink link)) ∧
      Text.OccurInOrder
        ((context.renderings text).filter fun rendered =>
          (context.linkedText text).IsSpared rendered)
        (rewriteText context text).text ∧
      ∀ rendered ∈ context.renderings text, NoteMarker.text <:+: rendered →
        ¬ rendered <:+: (rewriteText context text).text := by
  refine ⟨context.links_rewriteText text, ?_, ?_⟩
  · rw [RewriteContext.renderings, List.filter_map]
    apply occurInOrder_laterStages
    · intro link member
      exact of_decide_eq_true (List.mem_filter.mp member).2
    · refine (context.renderings_occurInOrder_linkedText text).of_sublist ?_
      exact List.filter_sublist.map _
  · intro rendered _ marked occurs
    exact expandCallouts_noMarker _ (marked.trans occurs)

/-- A vault with the document `Plan.md`, published below `/k`. -/
private def planContext : RewriteContext where
  index := ⟨[⟨Text.ofString "Plan.md"⟩]⟩
  urlBase := Text.ofString "/k"

/-- Labels that the renderer's brackets make a marker of, and that open a diagram. -/
private def treacherousText : Text :=
  Text.ofString "[[Plan|!NOTE]] [[Plan|```mermaid]] ```"

theorem treacherousText_renderings_cut :
    (∀ text ∈ planContext.urlBase :: planContext.scriptSource ::
        planContext.index.documents.map DocumentPath.text,
      '[' ∉ text ∧ ']' ∉ text ∧ Diagram.backtick ∉ text) ∧
      planContext.renderings treacherousText =
        [Text.ofString "[!NOTE](/k/Plan)", Text.ofString "[```mermaid](/k/Plan)"] ∧
      ¬ Text.OccurInOrder (planContext.renderings treacherousText)
        (rewriteText planContext treacherousText).text := by
  refine ⟨by decide, by decide +kernel, ?_⟩
  intro occur
  have lost : ¬ Text.ofString "[```mermaid](/k/Plan)" <:+:
      (rewriteText planContext treacherousText).text := by
    decide +kernel
  exact lost (occur.infix_of_mem (by decide +kernel))

end NotePublisher
