import NotePublisher.Proofs.Document.Renderings
import NotePublisher.Proofs.Document.Rewriting

namespace NotePublisher

/-!
# What a page shows of a diagram

Diagrams are looked for behind two stages that know nothing of their fences,
and a third one runs over the divisions they are shown in. So a page shows a
diagram's source as the other stages leave it, without comments, with links
replaced and note markers expanded (`rewriteText_around_diagram`). It shows the
source unchanged exactly if none of them finds anything there
(`division_infix_rewriteText`).
-/

namespace Diagram

/-- The stages for comments, links and markers find nothing in the body. -/
structure IsPlain (diagram : Diagram) : Prop where
  noComment : ¬ Comment.fences.HasSpan diagram.body
  noLink : ¬ WikiLink.fences.HasSpan diagram.body
  noMarker : ¬ NoteMarker.text <:+: diagram.body

/-- What a division holds in front of a diagram's body. -/
def divisionLead : Text :=
  "<div class=mermaid>".toList

theorem division_append
    (diagram : Diagram)
    (behind : Text) :
    diagram.division ++ behind = divisionLead ++ (diagram.body ++ (trail ++ behind)) := by
  have regroup : ∀ lead body trail : Text,
      lead ++ body ++ trail ++ behind = lead ++ (body ++ (trail ++ behind)) := by
    intro lead body trail
    simp only [List.append_assoc]
  exact regroup _ _ _

/-- A division holds the diagram's body. -/
theorem body_infix_division (diagram : Diagram) :
    diagram.body <:+: diagram.division :=
  ⟨divisionLead, trail, rfl⟩

theorem head?_division_append
    (diagram : Diagram)
    (behind : Text) :
    (diagram.division ++ behind).head? = some '<' := by
  have first : divisionLead.head? = some '<' := by decide
  rw [division_append, List.head?_append, first]
  rfl

theorem head?_scriptTag_append
    (scriptSource behind : Text) :
    (scriptTag scriptSource ++ behind).head? = some '<' := by
  have first : "<script src='".toList.head? = some '<' := by decide
  have headOf : ∀ start source stop : Text, start.head? = some '<' →
      (start ++ source ++ stop ++ behind).head? = some '<' := by
    intro start source stop startHead
    simp [List.head?_append, startHead]
  exact headOf _ _ _ first

/-- The fences of a diagram share no character with those of comments and links. -/
theorem fences_apart :
    ∀ char ∈ opening ++ closing,
      (char ∉ Comment.fences.opening ∧ char ∉ Comment.fences.closing) ∧
        char ∉ WikiLink.fences.opening ∧ char ∉ WikiLink.fences.closing := by
  have apart : (opening ++ closing).all fun char =>
      (char ∉ Comment.fences.opening ∧ char ∉ Comment.fences.closing) ∧
        char ∉ WikiLink.fences.opening ∧ char ∉ WikiLink.fences.closing := by
    decide
  intro char member
  exact of_decide_eq_true (List.all_eq_true.mp apart char member)

/-- Comments and links are replaced within a diagram's fences. -/
theorem replace_source
    {α : Type}
    {fences : Fences}
    {recogniser : Recogniser α}
    (isolates : fences.Isolates recogniser)
    (reads : fences.Reads recogniser)
    (apart : ∀ char ∈ opening ++ closing, char ∉ fences.opening ∧ char ∉ fences.closing)
    (write : α → Text)
    (diagram : Diagram) :
    recogniser.replace write diagram.source =
      (Diagram.mk (recogniser.replace write diagram.body)).source := by
  have within := isolates.replace_between reads write
    (fun char member => (apart char (List.mem_append_left closing member)).1)
    (fun char member => apart char (List.mem_append_right opening member)) diagram.body
  simpa [source] using within

/-- A diagram behind a text that leaves none open is embedded by itself. -/
theorem embedDiagrams_around
    {front : Text}
    (allClosed : fences.AllClosed front)
    (last_not_mem : ∀ char ∈ front.getLast?, char ∉ opening)
    {diagram : Diagram}
    (isFenced : diagram.IsFenced)
    (scriptSource behind : Text) :
    embedDiagrams scriptSource (front ++ (diagram.source ++ behind)) =
      embedDiagrams scriptSource front ++
        (diagram.embedding scriptSource ++ embedDiagrams scriptSource behind) := by
  have found := isFenced.recognise?_source_append behind
  rw [embedDiagrams_eq, Fences.replace_append_of_allClosed reads recognise?_append _
    allClosed last_not_mem, recogniser.replace_of_recognised _ found]
  rfl

end Diagram

/-- Markers are expanded within the division a diagram is shown in. -/
theorem expandCallouts_division
    (diagram : Diagram)
    (behind : Text) :
    expandCallouts (diagram.division ++ behind) =
      (Diagram.mk (expandCallouts diagram.body)).division ++ expandCallouts behind := by
  have leadApart : Diagram.divisionLead.all fun char => char ∉ NoteMarker.text := by decide
  have trailApart : Diagram.trail.all fun char => char ∉ NoteMarker.text := by decide
  have trailTag : (Diagram.trail ++ behind).head? = some '<' := by
    rw [List.head?_append, show Diagram.trail.head? = some '<' by decide]
    rfl
  calc
    expandCallouts (diagram.division ++ behind)
        = expandCallouts
            (Diagram.divisionLead ++ (diagram.body ++ (Diagram.trail ++ behind))) := by
      rw [Diagram.division_append]
    _ = Diagram.divisionLead ++ (expandCallouts diagram.body ++
          (Diagram.trail ++ expandCallouts behind)) := by
      rw [expandCallouts_append_of_apart leadApart, expandCallouts_append_tag _ trailTag,
        expandCallouts_append_of_apart trailApart]
    _ = (Diagram.mk (expandCallouts diagram.body)).division ++ expandCallouts behind := by
      rw [Diagram.division_append]

namespace RewriteContext

/-- What stands on lines of its own is linked by itself. -/
theorem linkedText_onOwnLines
    (context : RewriteContext)
    {before after : Text}
    (ownLines : Text.OnOwnLines before after)
    (part : Text) :
    context.linkedText (before ++ (part ++ after)) =
      context.linkedText before ++ (context.linkedText part ++ context.linkedText after) := by
  have stripped := Comment.staysInLine.onOwnLines_replace (fun _ => []) ownLines
  simp only [linkedText, resolveLinks_text, stripComments]
  rw [Comment.staysInLine.replace_onOwnLines _ ownLines,
    WikiLink.staysInLine.replace_onOwnLines _ stripped]

/-- What stood on lines of its own still does when the text around it has been linked. -/
theorem onOwnLines_linkedText
    (context : RewriteContext)
    {before after : Text}
    (ownLines : Text.OnOwnLines before after) :
    Text.OnOwnLines (context.linkedText before) (context.linkedText after) := by
  have stripped := Comment.staysInLine.onOwnLines_replace (fun _ => []) ownLines
  simp only [linkedText, resolveLinks_text]
  exact WikiLink.staysInLine.onOwnLines_replace _ stripped

/-- A diagram as it is linked. -/
def linkedDiagram
    (context : RewriteContext)
    (diagram : Diagram) :
    Diagram where
  body := context.linkedText diagram.body

/-- A diagram as a page shows it. -/
def shownDiagram
    (context : RewriteContext)
    (diagram : Diagram) :
    Diagram where
  body := expandCallouts (context.linkedDiagram diagram).body

/-- Where a diagram's links are resolved it is a diagram still. -/
theorem linkedText_source
    (context : RewriteContext)
    (diagram : Diagram) :
    context.linkedText diagram.source = (context.linkedDiagram diagram).source := by
  simp only [linkedText, linkedDiagram, resolveLinks_text, stripComments]
  rw [Diagram.replace_source Comment.isolates Comment.reads
    fun char member => (Diagram.fences_apart char member).1]
  rw [Diagram.replace_source WikiLink.isolates WikiLink.reads
    fun char member => (Diagram.fences_apart char member).2]

end RewriteContext

/--
A document is rewritten part by part around a diagram that stands on lines of
its own, and shows the diagram as the other stages leave it. No diagram may be
open where it begins, and no fence may come about in it.
-/
theorem rewriteText_around_diagram
    (context : RewriteContext)
    {before after : Text}
    (ownLines : Text.OnOwnLines before after)
    (allClosed : Diagram.fences.AllClosed (context.linkedText before))
    {diagram : Diagram}
    (isFenced : (context.linkedDiagram diagram).IsFenced) :
    (rewriteText context (before ++ (diagram.source ++ after))).text =
      (rewriteText context before).text ++
        (expandCallouts (Diagram.scriptTag context.scriptSource) ++
          ((context.shownDiagram diagram).division ++ (rewriteText context after).text)) := by
  have last_not_mem : ∀ char ∈ (context.linkedText before).getLast?, char ∉ Diagram.opening := by
    intro char last
    rcases (context.onOwnLines_linkedText ownLines).before with empty | ⟨lines, shape⟩
    · simp [empty] at last
    · obtain rfl : char = '\n' := by simpa [shape, eq_comm] using last
      decide
  let linked := context.linkedDiagram diagram
  let behind := embedDiagrams context.scriptSource (context.linkedText after)
  -- The stages are followed from the first to the last; each splits the text in the same places.
  calc
    (rewriteText context (before ++ (diagram.source ++ after))).text
        = expandCallouts (embedDiagrams context.scriptSource (context.linkedText before) ++
            (linked.embedding context.scriptSource ++ behind)) := by
      rw [context.text_rewriteText, context.linkedText_onOwnLines ownLines,
        context.linkedText_source, Diagram.embedDiagrams_around allClosed last_not_mem isFenced]
    _ = _ := by
      rw [Diagram.embedding, List.append_assoc,
        expandCallouts_append_tag _ (Diagram.head?_scriptTag_append _ _),
        expandCallouts_append_tag _ (Diagram.head?_division_append _ _), expandCallouts_division]
      rfl

/-- A plain diagram is shown as it stands in the document. -/
theorem RewriteContext.linkedDiagram_of_isPlain
    (context : RewriteContext)
    {diagram : Diagram}
    (isPlain : diagram.IsPlain) :
    context.linkedDiagram diagram = diagram := by
  have stripped : stripComments diagram.body = diagram.body :=
    Comment.reads.replace_eq_self _ isPlain.noComment
  have linked : context.linkedText diagram.body = diagram.body := by
    rw [linkedText, stripped, resolveLinks_text]
    exact WikiLink.reads.replace_eq_self _ isPlain.noLink
  rw [linkedDiagram, linked]

/-- A diagram without comments, links or markers is shown as it is. -/
theorem RewriteContext.shownDiagram_of_isPlain
    (context : RewriteContext)
    {diagram : Diagram}
    (isPlain : diagram.IsPlain) :
    context.shownDiagram diagram = diagram := by
  rw [shownDiagram, context.linkedDiagram_of_isPlain isPlain,
    expandCallouts_eq_self isPlain.noMarker]

/-- A diagram that a settled text shows is plain. -/
theorem Text.IsSettled.isPlain
    {text : Text}
    (settled : text.IsSettled)
    {diagram : Diagram}
    (shown : diagram.division <:+: text) :
    diagram.IsPlain := by
  have occurs : diagram.body <:+: text := diagram.body_infix_division.trans shown
  refine ⟨?_, ?_, ?_⟩
  · intro hasSpan
    exact settled.noComment (Fences.hasSpan_of_infix occurs hasSpan)
  · intro hasSpan
    exact settled.noLink (Fences.hasSpan_of_infix occurs hasSpan)
  · intro marked
    exact settled.noMarker (marked.trans occurs)

/--
A complete diagram on lines of its own, with no other one open where it begins,
is shown as the other stages leave it, so unchanged if they find nothing in it.
Where the context is inert and all links are flat, it is shown unchanged in no
other case.
-/
theorem division_infix_rewriteText
    {context : RewriteContext}
    {before block after : Text}
    {diagram : Diagram}
    (found : Diagram.recogniser.recognise? block = some (diagram, after))
    (ownLines : Text.OnOwnLines before after)
    (allClosed : Diagram.fences.AllClosed (context.linkedText before)) :
    ((context.linkedDiagram diagram).IsFenced →
        (context.shownDiagram diagram).division <:+: (rewriteText context (before ++ block)).text) ∧
      (diagram.IsPlain →
        diagram.division <:+: (rewriteText context (before ++ block)).text) ∧
      (context.IsInert → (∀ link ∈ linksOf (before ++ block), link.IsFlat) →
        diagram.division <:+: (rewriteText context (before ++ block)).text → diagram.IsPlain) := by
  obtain rfl : block = diagram.source ++ after := Diagram.recogniser.eq_source_append found
  have shown : (context.linkedDiagram diagram).IsFenced →
      (context.shownDiagram diagram).division <:+:
        (rewriteText context (before ++ (diagram.source ++ after))).text := by
    intro isFenced
    rw [rewriteText_around_diagram context ownLines allClosed isFenced, ← List.append_assoc]
    exact ⟨_, _, List.append_assoc _ _ _⟩
  refine ⟨shown, ?_, ?_⟩
  · intro isPlain
    rw [context.linkedDiagram_of_isPlain isPlain, context.shownDiagram_of_isPlain isPlain] at shown
    exact shown (Diagram.isFenced_of_recognised found)
  · intro inert flat unchanged
    exact (rewriteText_isSettled inert flat).isPlain unchanged

/-- A vault with the document `Plan.md`, published below `/k`. -/
private def chartContext : RewriteContext where
  index := ⟨[⟨Text.ofString "Plan.md"⟩]⟩
  urlBase := Text.ofString "/k"

/-- A diagram that is only arrows. -/
private def chart : Diagram where
  body := Text.ofString "\nA-->B\n"

/-- Text with a link, a comment and a diagram of its own. -/
private def chartBefore : Text :=
  Text.ofString "See [[Plan]] %%draft%%\n```mermaid\nB-->C\n```\n"

private def chartAfter : Text :=
  Text.ofString "\n> [!NOTE] [[Plan]]"

/-- A diagram that is shown as it is. -/
theorem division_infix_rewriteText_chart :
    Diagram.recogniser.recognise? (chart.source ++ chartAfter) = some (chart, chartAfter) ∧
      Text.OnOwnLines chartBefore chartAfter ∧
      Diagram.fences.AllClosed (chartContext.linkedText chartBefore) ∧
      chart.IsPlain ∧
      chart.division <:+:
        (rewriteText chartContext (chartBefore ++ (chart.source ++ chartAfter))).text := by
  have found : Diagram.recogniser.recognise? (chart.source ++ chartAfter) =
      some (chart, chartAfter) := by
    decide +kernel
  have ownLines : Text.OnOwnLines chartBefore chartAfter :=
    ⟨.inr ⟨chartBefore.dropLast, by decide +kernel⟩, .inr ⟨chartAfter.tail, by decide +kernel⟩⟩
  have allClosed : Diagram.fences.AllClosed (chartContext.linkedText chartBefore) := by
    decide +kernel
  have isPlain : chart.IsPlain := by
    refine ⟨?_, ?_, by decide +kernel⟩
    · exact (Fences.markedItems_scan_eq_nil_iff Comment.reads).mp (by decide +kernel)
    · exact (Fences.markedItems_scan_eq_nil_iff WikiLink.reads).mp (by decide +kernel)
  exact ⟨found, ownLines, allClosed, isPlain,
    (division_infix_rewriteText found ownLines allClosed).2.1 isPlain⟩

/-- A diagram with a directive, which the stage for comments takes for one. -/
private def directedChart : Diagram where
  body := Text.ofString "\n%%\x7bwrap\x7d%%\nA-->B\n"

/-- A diagram with a directive between comment fences, which is lost. -/
theorem directedChart_not_shown :
    chartContext.shownDiagram directedChart = ⟨Text.ofString "\n\nA-->B\n"⟩ ∧
      ¬ directedChart.division <:+: (rewriteText chartContext directedChart.source).text := by
  constructor
  · decide +kernel
  · decide +kernel

end NotePublisher
