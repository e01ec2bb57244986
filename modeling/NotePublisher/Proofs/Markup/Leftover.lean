import NotePublisher.Proofs.Markup.Stages

namespace NotePublisher

/-!
# Links that replacing links leaves behind

What is written in the place of a link is plain text to the next reader, and
shows the link's own label or target. If that holds two opening brackets, and
two closing ones stand further on in the line, a reader of the new text finds a
link again; in no other way is one left (`exists_link_mem_parse_resolveLinks_iff`).
-/

namespace InlineNode

/-- Among the nodes of pieces there is a link exactly if one of the pieces is. -/
theorem exists_link_mem_ofPieces_iff
    {offset : Nat}
    {pieces : List (Piece WikiLink)} :
    (∃ full target label, link full target label ∈ ofPieces offset pieces) ↔
      Piece.markedItems pieces ≠ [] := by
  induction pieces generalizing offset with
  | nil =>
      simp [ofPieces, Piece.markedItems]
  | cons piece others inductionHypothesis =>
      have later := @inductionHypothesis (ofPiece offset piece).full.stop
      cases piece with
      | plain run =>
          simpa [ofPieces, ofPiece, Piece.markedItems] using later
      | marked found =>
          constructor
          · intro _
            simp [Piece.markedItems]
          · intro _
            exact ⟨_, _, _, List.mem_cons_self⟩

/-- The nodes of a document hold a link exactly if an opening fence is closed. -/
theorem exists_link_mem_parse_iff
    {document : Text} :
    (∃ full target label, link full target label ∈ parse document) ↔
      WikiLink.fences.HasSpan document := by
  rw [parse_eq_ofPieces, exists_link_mem_ofPieces_iff, ne_eq,
    Fences.markedItems_scan_eq_nil_iff WikiLink.reads, not_not]

end InlineNode

/--
After the links of a text have been replaced a reader finds a link exactly if
what was written for some link holds an opening fence that is closed, there or
further on in its line.
-/
theorem exists_link_mem_parse_resolveLinks_iff
    (index : DocumentIndex)
    (urlBase text : Text) :
    (∃ full target label, InlineNode.link full target label ∈
        InlineNode.parse (resolveLinks index urlBase text).text) ↔
      ∃ earlier link later before inside,
        WikiLink.recogniser.scan text = earlier ++ .marked link :: later ∧
          WikiLink.rendering index urlBase link = before ++ (WikiLink.opening ++ inside) ∧
          WikiLink.fences.Closes
            (inside ++ Piece.renderAll (WikiLink.rendering index urlBase) later) := by
  rw [InlineNode.exists_link_mem_parse_iff, resolveLinks_text]
  apply Fences.hasSpan_replace_iff WikiLink.reads
  · exact Fences.shields_of_doubled WikiLink.reads rfl _
  · intro link char last
    rcases last_rendering index urlBase link with star | parenthesis
    · obtain rfl : char = '*' := by simpa [star, eq_comm] using last
      simp [WikiLink.fences, WikiLink.opening]
    · obtain rfl : char = ')' := by simpa [parenthesis, eq_comm] using last
      simp [WikiLink.fences, WikiLink.opening]

/-- The target of a link that matches nothing is shown with its own brackets. -/
theorem link_mem_parse_resolveLinks_doubled :
    (resolveLinks ⟨[]⟩ [] (Text.ofString "[[[[x]] ]]")).text = Text.ofString "**[[x** ]]" ∧
      InlineNode.link ⟨2, 10⟩ ⟨4, 8⟩ none ∈
        InlineNode.parse (resolveLinks ⟨[]⟩ [] (Text.ofString "[[[[x]] ]]")).text := by
  constructor
  · decide +kernel
  · decide +kernel

end NotePublisher
