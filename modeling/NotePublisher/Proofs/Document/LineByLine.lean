import NotePublisher.Proofs.Markup.Stages

namespace NotePublisher

/-!
# Rewriting line by line

No comment, link or note marker reaches across a line feed, so the stages that
look for them rewrite each line by itself, whatever stands on the other lines
(`lineStages_isLineLocal`). Diagrams do go over several lines, and the stage
that makes them embeddable has no such law.
-/

/-- Each line of a text is rewritten by itself. -/
structure Text.IsLineLocal (stage : Text → Text) : Prop where
  /-- What stands on either side of a line feed is rewritten by itself. -/
  append : ∀ before after,
    stage (before ++ '\n' :: after) = stage before ++ '\n' :: stage after
  /-- With another line in the place of one, only that line is rewritten differently. -/
  edited : ∀ lines number line, lines ≠ [] →
    stage (['\n'].intercalate (lines.set number line)) =
      ['\n'].intercalate ((lines.map stage).set number (stage line))

/-- Lines that are rewritten on either side of a line feed are rewritten one by one. -/
private theorem Text.stage_intercalate
    {stage : Text → Text}
    (append : ∀ before after,
      stage (before ++ '\n' :: after) = stage before ++ '\n' :: stage after)
    {lines : List Text}
    (lines_ne_nil : lines ≠ []) :
    stage (['\n'].intercalate lines) = ['\n'].intercalate (lines.map stage) := by
  induction lines with
  | nil =>
      exact absurd rfl lines_ne_nil
  | cons first others inductionHypothesis =>
      cases others with
      | nil =>
          simp only [List.map_cons, List.map_nil, List.intercalate_singleton]
      | cons second later =>
          rw [List.intercalate_cons_cons, List.append_assoc, List.singleton_append, append,
            inductionHypothesis (by simp)]
          simp only [List.map_cons, List.intercalate_cons_cons, List.append_assoc,
            List.singleton_append]

/-- A stage that goes on anew after each line is local to lines. -/
theorem Text.IsLineLocal.of_append
    {stage : Text → Text}
    (append : ∀ before after,
      stage (before ++ '\n' :: after) = stage before ++ '\n' :: stage after) :
    Text.IsLineLocal stage where
  append := append
  edited lines number line lines_ne_nil := by
    rw [Text.stage_intercalate append (by simpa using lines_ne_nil), List.map_set]

namespace Recogniser

variable {α : Type} {recogniser : Recogniser α}

/-- Spans that stay in their line are replaced line by line. -/
theorem StaysInLine.isLineLocal
    (staysInLine : recogniser.StaysInLine)
    (write : α → Text) :
    Text.IsLineLocal (recogniser.replace write) := by
  refine .of_append fun before after => ?_
  rw [(staysInLine after).replace_append write before, staysInLine.replace_cons]

/-- The spans on either side of a line feed are those of the two sides. -/
theorem StaysInLine.markedItems_append
    (staysInLine : recogniser.StaysInLine)
    (before after : Text) :
    Piece.markedItems (recogniser.scan (before ++ '\n' :: after)) =
      Piece.markedItems (recogniser.scan before) ++
        Piece.markedItems (recogniser.scan after) := by
  have missed := staysInLine after []
  rw [recogniser.recognise?_nil] at missed
  rw [(staysInLine after).markedItems_append,
    recogniser.markedItems_scan_cons_of_not_recognised missed]

end Recogniser

theorem NoteMarker.staysInLine : recogniser.StaysInLine :=
  fun rest => stopsAt_cons (by decide) rest

/-- The records of two parts with a line feed between them are those of each part in turn. -/
theorem links_resolveLinks_append
    (index : DocumentIndex)
    (urlBase before after : Text) :
    (resolveLinks index urlBase (before ++ '\n' :: after)).links =
      (resolveLinks index urlBase before).links ++ (resolveLinks index urlBase after).links := by
  simp only [resolveLinks_links, WikiLink.staysInLine.markedItems_append, List.map_append]

/--
Comments, links and note markers are rewritten line by line, and the links are
recorded in the order of the lines.
-/
theorem lineStages_isLineLocal
    (index : DocumentIndex)
    (urlBase : Text) :
    Text.IsLineLocal stripComments ∧
      Text.IsLineLocal (fun text => (resolveLinks index urlBase text).text) ∧
      (∀ before after,
        (resolveLinks index urlBase (before ++ '\n' :: after)).links =
          (resolveLinks index urlBase before).links ++
            (resolveLinks index urlBase after).links) ∧
      Text.IsLineLocal expandCallouts := by
  refine ⟨?_, ?_, links_resolveLinks_append index urlBase, ?_⟩
  · exact Comment.staysInLine.isLineLocal fun _ => []
  · simp only [resolveLinks_text]
    exact WikiLink.staysInLine.isLineLocal (WikiLink.rendering index urlBase)
  · exact NoteMarker.staysInLine.isLineLocal fun _ => NoteMarker.glyph

/-- A line break is no barrier to a diagram, whose fences may stand on different lines. -/
example :
    embedDiagrams [] ("```mermaid".toList ++ '\n' :: "```".toList) ≠
      embedDiagrams [] "```mermaid".toList ++ '\n' :: embedDiagrams [] "```".toList := by
  decide

end NotePublisher
